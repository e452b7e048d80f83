import BusTub.TreeRounds

/-!
`Remove` of the B+ tree. A leaf that has become too small borrows from a page beside it
or is merged with one, and a page whose child has gone is treated alike, level by level
up to the root. A root with one child gives way to it.
-/

namespace BusTub.BPlusTree

open SearchForest

section Loop
variable {K V : Type} [LinearOrder K] {rules : Rules} {base tree result : Tree K V}
  {root node parent gone : PageId} {height level : Nat} {writeSet doomed path upper : List PageId}
  {before after : Row K PageId} {fence : WithBot K} {above beside : Row K PageId} {low : WithBot K}
  {page smaller : InternalPage K} {left right : List (K × PageId)} {key : K} {content : Page K V}
  {options : Options} {index : Nat}

/-- A round that has taken a child from the parent leaves the loop there. -/
theorem short_climbs {slot : WithBot K × PageId}
    (short : Short rules base tree root height level writeSet doomed (parent :: upper) before fence
      node after)
    (under : Under base root parent upper before fence node after above low beside page
      left key right)
    (round : Window.Round rules {root, node} {root, parent} [gone] tree result root height)
    (unreached : ¬Reached result gone) (once : Reached tree gone)
    (member : slot ∈ before ++ after) (atParent : result.pages parent = some (.inr smaller))
    (less : Less (.inr page : Page K V) (.inr smaller))
    (elsewhere : ∀ pid, pid ≠ parent → pid ≠ node → pid ≠ slot.2 →
      result.pages pid = tree.pages pid) :
    Short rules base result root height (level + 1) writeSet (doomed ++ [gone]) upper above low
      parent beside := by
  have row := short_row short
  have upperRow := under_upper short under
  have inRow : slot ∈ before ++ (fence, node) :: after := by
    simp only [List.mem_append, List.mem_cons] at member ⊢
    tauto
  have nodeHere := forest_mem row (show (fence, node) ∈ _ by simp)
  have slotHere := forest_mem row inRow
  have parentHere := forest_mem upperRow (show (low, parent) ∈ _ by simp)
  -- what is higher than the row is none of its pages
  have lifted {pid : PageId} {high : Nat} {mark : WithBot K} (higher : level < high)
    (there : TreeForest rules Set.univ base.pages high [(mark, pid)]) : pid ≠ node ∧
      pid ≠ slot.2 := by
    constructor
    · rintro rfl
      have := height_unique there nodeHere
      omega
    · rintro rfl
      have := height_unique there slotHere
      omega
  have upperUnique : ((above ++ (low, parent) :: beside).map Prod.snd).Nodup := by
    apply pages_nodup upperRow
    have lowest : fringe InternalPage.entries base.pages (level + 1)
      (above ++ (low, parent) :: beside) =
      leavesOf base.pages root height := by
      rw [← descent_row under.way, fringe_fringe, Nat.add_comm, under_depth short]
    rw [lowest]
    exact short.ground.unique
  rw [List.map_append, List.map_cons, List.nodup_middle, List.nodup_cons, ← List.map_append]
    at upperUnique
  constructor
  case ground => exact short.ground
  case full => exact short.full
  case way => exact under.way
  case depth => exact under_depth short
  case stands => exact round.stands
  case filled => exact round.filled short.filled
  case fresh => exact round.fresh short.fresh
  case kept =>
    intro pid high mark higher there
    obtain ⟨notNode, notSlot⟩ := lifted (by omega) there
    have notParent : pid ≠ parent := by
      rintro rfl
      have := height_unique there parentHere
      omega
    rw [elsewhere pid notParent notNode notSlot]
    exact short.kept pid high mark (by omega) there
  case siblings =>
    intro other among
    have inUpper : other ∈ above ++ (low, parent) :: beside := by
      simp only [List.mem_append, List.mem_cons] at among ⊢
      tauto
    obtain ⟨notNode, notSlot⟩ := lifted (Nat.lt_succ_self level) (forest_mem upperRow inUpper)
    have notParent : other.2 ≠ parent :=
      fun same => upperUnique.1 (List.mem_map.mpr ⟨other, among, same⟩)
    rw [elsewhere _ notParent notNode notSlot]
    exact under_same short under other inUpper
  case smaller => exact ⟨_, _, under.found, atParent, less⟩
  case writes =>
    obtain ⟨lower, list, below⟩ := short.writes
    refine ⟨lower ++ [node], by simp [list], ?_⟩
    intro pid inLower
    rcases List.mem_append.mp inLower with old | new
    · obtain ⟨high, mark, less, there⟩ := below pid old
      exact ⟨high, mark, by omega, there⟩
    · obtain rfl := List.mem_singleton.mp new
      exact ⟨level, fence, Nat.lt_succ_self level, nodeHere⟩
  case before => exact fun pid reached => short.before pid (round.before pid reached)
  case gone =>
    intro pid listed
    rcases List.mem_append.mp listed with old | new
    · obtain ⟨away, earlier⟩ := short.gone pid old
      exact ⟨fun reached => away (round.before pid reached), earlier⟩
    · obtain rfl := List.mem_singleton.mp new
      exact ⟨unreached, short.before pid once⟩
  case rest =>
    intro pid reached
    rcases short.rest pid reached with stays | listed
    · rcases round.kept pid stays with still | lost
      · exact Or.inl still
      · exact Or.inr (List.mem_append_right _ lost)
    · exact Or.inr (List.mem_append_left _ listed)

structure Mended (rules : Rules) (base tree result : Tree K V) (root : PageId) (height : Nat)
    (doomed : List PageId) : Prop where
  stands : Standing rules Set.univ result root height
  filled : Filled rules {root} result
  fresh : Fresh result
  keeps : Window.Keeps tree result
  there : ∀ pid, result.pages pid = none ↔ tree.pages pid = none
  before : ∀ pid, Reached result pid → Reached base pid
  gone : ∀ pid ∈ doomed, ¬Reached result pid ∧ Reached base pid
  rest : ∀ pid, Reached base pid → Reached result pid ∨ pid ∈ doomed

/-- A page that can do with an entry or a child less is full enough with it. -/
theorem lends_filled (roomy : Roomy rules)
    (short : Short rules base tree root height level writeSet doomed path before fence node after)
    (lends : CanLend base node) : Filled rules {root} tree := by
  intro pid content reached strict found
  by_cases here : pid = node
  · rw [here] at found
    obtain ⟨old, new, was, is, less⟩ := short.smaller
    obtain rfl := Option.some.inj (is.symm.trans found)
    obtain ⟨other, there, spare⟩ := lends
    obtain rfl := Option.some.inj (was.symm.trans there)
    have row := short_row short
    have lowLeaf := roomy.lowLeaf
    have lowNode := roomy.lowNode
    cases level with
    | zero =>
        obtain ⟨leaf, atNode, good⟩ := row (fence, node) (by simp)
        obtain rfl := Option.some.inj (was.symm.trans atNode)
        have half : leaf.getMinSize = rules.options.leafMaxSize / 2 := congrArg (· / 2) good.maxSize
        cases new with
        | inl new =>
            obtain ⟨-, size, -⟩ := less
            have spare : leaf.getMinSize < leaf.getSize := spare
            change rules.lowLeaf ≤ new.getSize
            omega
        | inr new => exact less.elim
    | succ level =>
        obtain ⟨old, atNode, -, good⟩ := row.1 (fence, node) (by simp)
        obtain rfl := Option.some.inj (was.symm.trans atNode)
        have half : old.getMinSize = rules.options.internalMaxSize / 2 :=
          congrArg (· / 2) good.maxSize
        cases new with
        | inl new => exact less.elim
        | inr new =>
            obtain ⟨-, size⟩ := less
            have spare : old.getMinSize < old.getSize := spare
            change rules.lowNode ≤ new.getSize
            omega
  · apply short.filled pid content reached _ found
    rintro (atRoot | atNode)
    · exact strict atRoot
    · exact here atNode

theorem short_now
    (short : Short rules base tree root height level writeSet doomed path before fence node after) :
    TreeForest rules Set.univ tree.pages level [(fence, node)] := by
  have way := descent_kept short.way (short_ground short) short.kept
  have ground : TreeForest rules Set.univ tree.pages (level + path.length)
    [((⊥ : WithBot K), root)] :=
    short.depth ▸ short.stands.forest
  exact forest_mem (descent_row way ▸ forest_fringe ground) (by simp)

theorem short_leaf_level {leaf : LeafPage K V}
    (short : Short rules base tree root height level writeSet doomed path before fence node after)
    (found : tree.pages node = some (.inl leaf)) : level = 0 := by
  cases level with
  | zero => rfl
  | succ level =>
      obtain ⟨page, there, -⟩ := (short_now short).1 (fence, node) (by simp)
      cases found.symm.trans there

theorem short_node_level {content : InternalPage K}
    (short : Short rules base tree root height level writeSet doomed path before fence node after)
    (found : tree.pages node = some (.inr content)) : ∃ below, level = below + 1 := by
  cases level with
  | zero =>
      obtain ⟨leaf, there, -⟩ := short_now short (fence, node) (by simp)
      cases found.symm.trans there
  | succ level => exact ⟨level, rfl⟩

variable [Inhabited K]

omit [LinearOrder K] in
theorem repair_stops
    (found : tree.pages node = some content) (large : Tree.isSmall content = false) :
    tree.repair options writeSet doomed (node :: parent :: upper) = .ok (tree, doomed) := by
  simp [Tree.repair, found, large]

omit [LinearOrder K] in
theorem repair_settles (found : tree.pages node = some content)
    (small : Tree.isSmall content = true) (parentFound : tree.pages parent = some (.inr page))
    (place : page.valueIndex node = some index)
    (round : Tree.repairPage options writeSet tree node parent index page content =
      .ok (result, none)) :
    tree.repair options writeSet doomed (node :: parent :: upper) = .ok (result, doomed) := by
  have reads : tree.internalPage parent = .ok page := by rw [Tree.internalPage, parentFound]
  simp only [Tree.repair, found, small, if_true, reads, place, round, bind, Except.bind]

omit [LinearOrder K] in
theorem repair_climbs (found : tree.pages node = some content) (small : Tree.isSmall content = true)
    (parentFound : tree.pages parent = some (.inr page)) (place : page.valueIndex node = some index)
    (round : Tree.repairPage options writeSet tree node parent index page content =
      .ok (result, some gone)) :
    tree.repair options writeSet doomed (node :: parent :: upper) =
      result.repair options writeSet (doomed ++ [gone]) (parent :: upper) := by
  have reads : tree.internalPage parent = .ok page := by rw [Tree.internalPage, parentFound]
  simp only [Tree.repair, found, small, if_true, reads, place, round, bind, Except.bind]

theorem repair_mends (roomy : Roomy rules) (exact : rules.exact)
    (short : Short rules base tree root height level writeSet doomed path before fence node after)
    (mends : Mends base node path) :
    ∃ result gone, tree.repair rules.options writeSet doomed (node :: path) = .ok (result, gone) ∧
      Mended rules base tree result root height gone := by
  induction path generalizing tree level doomed before fence node after with
  | nil =>
      refine ⟨tree, doomed, rfl, short.stands, ?_, short.fresh, fun _ _ => Iff.rfl,
          fun _ => Iff.rfl, short.before, short.gone, short.rest⟩
      have atRoot : node = root := by
        cases short.way
        rfl
      have filled := short.filled
      rwa [atRoot, Set.pair_eq_singleton] at filled
  | cons parent upper ih =>
      obtain ⟨old, new, was, is, less⟩ := short.smaller
      by_cases lends : CanLend base node
      · have large : Tree.isSmall new = false := by
          rw [Bool.eq_false_iff, ne_eq, less_small less, not_not]
          obtain ⟨other, there, spare⟩ := lends
          exact Option.some.inj (was.symm.trans there) ▸ spare
        exact ⟨tree, doomed, repair_stops is large, short.stands,
            lends_filled roomy short lends, short.fresh, fun _ _ => Iff.rfl, fun _ =>
              Iff.rfl, short.before, short.gone, short.rest⟩
      · have small : Tree.isSmall new = true := (less_small less).mpr fun spare =>
          lends ⟨old, was, spare⟩
        obtain ⟨above, low, beside, page, left, key, right, under⟩ := under_parent short.way
        have place := under_place short under
        have parentFound := under_found short under
        obtain ⟨outcome, done, leads⟩ : ∃ outcome, Tree.repairPage rules.options writeSet tree node
          parent left.length
          page new = .ok outcome ∧
            Outcome rules base tree root height node parent upper page (before ++ after)
            outcome := by
          cases new with
          | inl leaf =>
              obtain rfl : level = 0 := short_leaf_level short is
              exact leaf_round roomy short under exact is lends mends
          | inr content =>
              obtain ⟨below, rfl⟩ := short_node_level short is
              exact node_round roomy short under is lends mends
        cases leads with
        | settled round keeps =>
            refine ⟨_, doomed, repair_settles is small parentFound place done, round.stands,
              round.filled short.filled, round.fresh short.fresh, keeps, round.there,
              fun pid reached => short.before pid (round.before pid reached), fun pid listed => ?_,
              fun pid reached => ?_⟩
            · obtain ⟨away, earlier⟩ := short.gone pid listed
              exact ⟨fun reached => away (round.before pid reached), earlier⟩
            · rcases short.rest pid reached with stays | listed
              · exact Or.inl ((round.kept pid stays).resolve_right List.not_mem_nil)
              · exact Or.inr listed
        | climbed round keeps unreached once mended member atParent smaller elsewhere =>
            have higher :=
              short_climbs short under round unreached once member atParent smaller elsewhere
            obtain ⟨result, gone, rest, whole⟩ := ih higher mended
            refine ⟨result, gone, (repair_climbs is small parentFound place done).trans rest,
                whole.stands, whole.filled, whole.fresh, fun key value =>
                  (whole.keeps key value).trans (keeps key value),
              fun pid =>
                (whole.there pid).trans (round.there pid), whole.before, whole.gone, whole.rest⟩

end Loop

section Root
variable {K V : Type} {rules : Rules} {tree other : Tree K V} {root child : PageId}
  {height fuel : Nat} {page : InternalPage K} {doomed : List PageId} {pid : PageId}
  {after : Tree K V} {leaf : LeafPage K V}

theorem deleted_pages (pid : PageId) :
    (tree.deletePages doomed).pages pid = if pid ∈ doomed then none else tree.pages pid := by
  induction doomed generalizing tree with
  | nil => rfl
  | cons first rest ih =>
      rw [Tree.deletePages, List.foldl_cons, ← Tree.deletePages, ih]
      by_cases inRest : pid ∈ rest
      · simp [inRest]
      · by_cases same : pid = first
        · simp [same, Tree.deletePage]
        · simp [inRest, same, Tree.deletePage]

theorem deleted_root : (tree.deletePages doomed).rootPageId = tree.rootPageId := by
  induction doomed generalizing tree with
  | nil => rfl
  | cons first rest ih => exact ih

theorem deleted_next : (tree.deletePages doomed).nextPageId = tree.nextPageId := by
  induction doomed generalizing tree with
  | nil => rfl
  | cons first rest ih => exact ih

theorem reached_deleted (reached : Reached (tree.deletePages doomed) pid) :
    Reached tree pid := by
  induction reached with
  | root here => exact Reached.root (deleted_root.symm.trans here)
  | @child pid page entry _ found inside ih =>
      rw [deleted_pages] at found
      by_cases listed : pid ∈ doomed
      · rw [if_pos listed] at found
        cases found
      · rw [if_neg listed] at found
        exact Reached.child ih found inside

theorem fresh_deleted (fresh : Fresh tree) : Fresh (tree.deletePages doomed) := by
  constructor
  · rw [deleted_next]
    exact fresh.start
  · intro pid there
    rw [deleted_next]
    apply fresh.taken pid
    intro missing
    rw [deleted_pages, missing, ite_self] at there
    exact there rfl

variable [LinearOrder K]

theorem gives_way (standing : Standing rules {root} tree root (height + 1)) {entry : K × PageId}
    (found : tree.pages root = some (.inr page)) (only : page.entries = [entry])
    (top : other.rootPageId = some entry.2) (same : other.pages = tree.pages) :
    Standing rules {entry.2} other entry.2 height ∧
      (∀ key value, Holds other key value ↔ Holds tree key value) ∧
      (∀ pid, Reached other pid → Reached tree pid) ∧
        (∀ pid, Reached tree pid → Reached other pid ∨ pid = root) ∧ ¬Reached other root := by
  have row : expand InternalPage.entries tree.pages [((⊥ : WithBot K), root)] = [(⊥, entry.2)] := by
    simp [kids_node found, only, refence]
  have leaves : leavesOf other.pages entry.2 height = leavesOf tree.pages root (height + 1) := by
    rw [leavesOf, leavesOf, fringe, row, same]
  have inner : TreeForest rules {root} tree.pages height [((⊥ : WithBot K), entry.2)] :=
    row ▸ standing.forest.2
  have below : Standing rules Set.univ other entry.2 height := by
    constructor
    case top => exact top
    case forest =>
      rw [same]
      exact exempt_mono (Set.subset_univ _) inner
    case ordered =>
      rw [leaves, same]
      exact standing.ordered
    case unique =>
      rw [leaves]
      exact standing.unique
    case chained =>
      rw [leaves, same]
      exact standing.chained
  have before : ∀ pid, Reached other pid → Reached tree pid := by
    intro pid reached
    induction reached with
    | root here =>
        obtain rfl := Option.some.inj (top.symm.trans here)
        exact Reached.child (Reached.root standing.top) found
          (by rw [only]; exact List.mem_cons_self)
    | child _ there inside ih => exact Reached.child ih (same ▸ there) inside
  have kept : ∀ pid, Reached tree pid → Reached other pid ∨ pid = root := by
    intro pid reached
    induction reached with
    | root here => exact Or.inr (Option.some.inj (here.symm.trans standing.top))
    | @child pid node last old there inside ih =>
        rcases ih with stays | rfl
        · exact Or.inl (Reached.child stays (same.symm ▸ there) inside)
        · obtain rfl := Sum.inr.inj (Option.some.inj (found.symm.trans there))
          rw [only] at inside
          obtain rfl := List.mem_singleton.mp inside
          exact Or.inl (Reached.root top)
  -- the root is higher than all pages below it
  have gone : ¬Reached other root := by
    intro reached
    obtain ⟨depth, low, fence, member⟩ := row_reached below.top below.forest reached
    obtain ⟨rest, rfl⟩ : ∃ n, height = n + depth := ⟨height - depth, by omega⟩
    have here := forest_mem (forest_fringe below.forest) member
    rw [same] at here
    have := height_unique here (exempt_mono (Set.subset_univ _) standing.forest)
    omega
  refine ⟨filled_stands below ?_, fun key value => ?_, before, kept, gone⟩
  · intro pid content reached strict there
    apply standing_filled standing pid content (before pid reached) _ (same ▸ there)
    rintro rfl
    exact gone reached
  · rw [holds_iff below, holds_iff standing, leaves, same]

/-- A tree does without the pages that are not under its root. -/
theorem deletes_stand (standing : Standing rules {root} tree root height)
    (unreached : ∀ pid ∈ doomed, ¬Reached tree pid) :
    Standing rules {root} (tree.deletePages doomed) root height ∧
      ∀ key value, Holds (tree.deletePages doomed) key value ↔ Holds tree key value := by
  apply stands_same standing deleted_root
  intro pid reached
  rw [deleted_pages, if_neg fun listed => unreached pid listed reached]

structure Drops (tree after : Tree K V) (doomed : List PageId) : Prop where
  missing : ∀ pid, after.pages pid = none → tree.pages pid = none ∨ Reached tree pid ∨ pid ∈ doomed
  older : ∀ pid, tree.pages pid = none → after.pages pid = none
  rest : ∀ pid, Reached tree pid → Reached after pid ∨ after.pages pid = none
  listed : ∀ pid ∈ doomed, after.pages pid = none

omit [LinearOrder K] in
theorem drops_nothing : Drops tree tree [] :=
  ⟨fun _ missing => Or.inl missing, fun _ missing => missing, fun _ reached =>
    Or.inl reached, by simp⟩

omit [LinearOrder K] in
theorem reached_spared (unreached : ∀ pid ∈ doomed, ¬Reached tree pid)
    (reached : Reached tree pid) :
    Reached (tree.deletePages doomed) pid := by
  induction reached with
  | root here => exact Reached.root (deleted_root.trans here)
  | @child pid page entry old found inside ih =>
      refine Reached.child ih ?_ inside
      rw [deleted_pages, if_neg fun listed => unreached pid listed old]
      exact found

omit [LinearOrder K] in
/-- Pages are deleted after the root has changed, and then more. -/
theorem drops_deleted (lower : Tree K V) (before : ∀ pid, Reached lower pid → Reached tree pid)
    (kept : ∀ pid, Reached tree pid → Reached lower pid ∨ pid ∈ doomed)
    (unreached : ∀ pid ∈ doomed, ¬Reached lower pid) (same : lower.pages = tree.pages)
    (drops : Drops (lower.deletePages doomed) after []) : Drops tree after doomed := by
  have listed : ∀ pid ∈ doomed, after.pages pid = none := fun pid listed =>
    drops.older pid (by rw [deleted_pages, if_pos listed])
  constructor
  case missing =>
    intro pid missing
    rcases drops.missing pid missing with absent | reached | listed
    · rw [deleted_pages] at absent
      by_cases listed : pid ∈ doomed
      · exact Or.inr (Or.inr listed)
      · rw [if_neg listed, same] at absent
        exact Or.inl absent
    · exact Or.inr (Or.inl (before pid (reached_deleted reached)))
    · cases listed
  case older =>
    intro pid missing
    apply drops.older
    rw [deleted_pages, same, missing, ite_self]
  case rest =>
    intro pid reached
    rcases kept pid reached with stays | doomed
    · exact drops.rest pid (reached_spared unreached stays)
    · exact Or.inr (listed pid doomed)
  case listed => exact listed

omit [LinearOrder K] in
theorem drops_listed {last : PageId} (reached : Reached tree last)
    (drops : Drops tree after (doomed ++ [last])) : Drops tree after doomed := by
  refine ⟨fun pid missing => ?_, drops.older, drops.rest, fun pid listed => drops.listed pid
    (List.mem_append_left _ listed)⟩
  rcases drops.missing pid missing with absent | under | listed
  · exact Or.inl absent
  · exact Or.inr (Or.inl under)
  · rcases List.mem_append.mp listed with old | new
    · exact Or.inr (Or.inr old)
    · exact Or.inr (Or.inl (List.mem_singleton.mp new ▸ reached))

omit [LinearOrder K] in
theorem leaf_alone (top : tree.rootPageId = some root) (found : tree.pages root = some (.inl leaf))
    (reached : Reached tree pid) : pid = root := by
  induction reached with
  | root here => exact Option.some.inj (here.symm.trans top)
  | child _ there _ ih =>
      subst ih
      cases found.symm.trans there

omit [LinearOrder K] in
theorem drops_root (top : tree.rootPageId = some root)
    (found : tree.pages root = some (.inl leaf)) :
    Drops tree ({ tree with rootPageId := none }.deletePage root) [] := by
  constructor
  case missing =>
    intro pid missing
    by_cases same : pid = root
    · exact Or.inr (Or.inl (Reached.root (same ▸ top)))
    · simp only [Tree.deletePage, Function.update_of_ne same] at missing
      exact Or.inl missing
  case older =>
    intro pid missing
    by_cases same : pid = root
    · simp [Tree.deletePage, same]
    · simp only [Tree.deletePage, Function.update_of_ne same]
      exact missing
  case rest =>
    intro pid reached
    obtain rfl := leaf_alone top found reached
    exact Or.inr (by simp [Tree.deletePage])
  case listed => simp

/-- The loop that replaces the root ends with a tree that holds what it held. -/
theorem shrink_loop_ends (fresh : Fresh tree) (standing : Standing rules {root} tree root height)
    (enough : height < fuel) : ∃ after, tree.shrinkLoop fuel = .ok after ∧ WellFormed rules after ∧
      Window.Keeps tree after ∧ Drops tree after [] := by
  induction height generalizing tree root fuel with
  | zero =>
      obtain ⟨fuel, rfl⟩ : ∃ n, fuel = n + 1 := ⟨fuel - 1, by omega⟩
      obtain ⟨leaf, found, good⟩ := standing.forest (⊥, root) (by simp)
      by_cases bare : leaf.entries = []
      · refine ⟨{ tree with rootPageId := none }.deletePage root, ?_, ⟨?_, Or.inl rfl⟩,
          fun key value => ?_, ?_⟩
        · simp only [Tree.shrinkLoop, standing.top, found, if_pos bare]
        · exact @fresh_deleted K V { tree with rootPageId := none } [root]
            ⟨fresh.start, fresh.taken⟩
        · constructor
          · exact fun holds => absurd (holds_stored holds) (nothing_stored rfl)
          · rw [holds_iff standing, leavesOf, fringe, held_leaf found]
            rintro (⟨index, there, -⟩ | ⟨slot, member, -⟩)
            · simp [bare] at there
            · exact absurd member List.not_mem_nil
        · exact drops_root standing.top found
      · refine ⟨tree, ?_, ⟨fresh, Or.inr ⟨root, 0, standing⟩⟩, fun _ _ => Iff.rfl, drops_nothing⟩
        simp only [Tree.shrinkLoop, standing.top, found, if_neg bare]
  | succ height ih =>
      obtain ⟨fuel, rfl⟩ : ∃ n, fuel = n + 1 := ⟨fuel - 1, by omega⟩
      obtain ⟨page, found, more, good⟩ := standing.forest.1 (⊥, root) (by simp)
      obtain ⟨entry, rest, list⟩ := List.exists_cons_of_ne_nil more
      cases rest with
      | nil =>
          obtain ⟨lower, isLower⟩ : ∃ lower : Tree K V, lower =
            { tree with rootPageId := some entry.2 } := ⟨_, rfl⟩
          have same : lower.pages = tree.pages := by rw [isLower]
          obtain ⟨below, holds, before, kept, gone⟩ := gives_way standing found list
            (show lower.rootPageId = some entry.2 by rw [isLower]) same
          have unreached : ∀ pid ∈ [root], ¬Reached lower pid := by simpa using gone
          obtain ⟨deleted, keeps⟩ := deletes_stand below unreached
          have stillFresh : Fresh lower := by
            rw [isLower]
            exact ⟨fresh.start, fresh.taken⟩
          have room : height < fuel := by omega
          obtain ⟨after, done, wellFormed, further, drops⟩ :=
            ih (fresh_deleted stillFresh) deleted room
          have dropped : Drops tree after [root] :=
            drops_deleted lower before
              (fun pid reached => (kept pid reached).imp_right List.mem_singleton.mpr) unreached
              same drops
          refine ⟨after, ?_, wellFormed, fun key value => ?_,
            drops_listed (Reached.root standing.top) dropped⟩
          · rw [← done, isLower]
            simp only [Tree.shrinkLoop, standing.top, found, list, Tree.deletePages,
              List.foldl_cons, List.foldl_nil]
          · rw [further, keeps, holds]
      | cons second others =>
          refine ⟨tree, ?_, ⟨fresh, Or.inr ⟨root, height + 1, standing⟩⟩, fun _ _ => Iff.rfl,
            drops_nothing⟩
          simp only [Tree.shrinkLoop, standing.top, found, list]

theorem root_shrinks (fresh : Fresh tree) (standing : Standing rules {root} tree root (height + 1))
    (unreached : ∀ pid ∈ doomed, ¬Reached tree pid) :
    ∃ shrunk rest after, tree.shrinkRoot root = .ok (shrunk, rest) ∧
      (shrunk.deletePages (doomed ++ rest)).shrinkLoop
      ((shrunk.deletePages (doomed ++ rest)).depthBound + 1) =
      .ok after ∧ WellFormed rules after ∧ Window.Keeps tree after ∧ Drops tree after doomed := by
  obtain ⟨page, found, more, good⟩ := standing.forest.1 (⊥, root) (by simp)
  match list : page.entries with
  | [] => exact absurd list more
  | [entry] =>
      obtain ⟨lower, isLower⟩ : ∃ lower : Tree K V, lower =
        { tree with rootPageId := some entry.2 } := ⟨_, rfl⟩
      have same : lower.pages = tree.pages := by rw [isLower]
      obtain ⟨below, holds, before, kept, gone⟩ := gives_way standing found list
        (show lower.rootPageId = some entry.2 by rw [isLower]) same
      have allUnreached : ∀ pid ∈ doomed ++ [root], ¬Reached lower pid := by
        intro pid listed reached
        rcases List.mem_append.mp listed with old | new
        · exact unreached pid old (before pid reached)
        · exact gone (List.mem_singleton.mp new ▸ reached)
      obtain ⟨deleted, keeps⟩ := deletes_stand below allUnreached
      have stillFresh : Fresh lower := by
        rw [isLower]
        exact ⟨fresh.start, fresh.taken⟩
      have freshThen := @fresh_deleted K V lower (doomed ++ [root]) stillFresh
      obtain ⟨after, done, wellFormed, further, drops⟩ := shrink_loop_ends freshThen deleted
        (Nat.lt_succ_of_lt (height_bound freshThen deleted.forest))
      have dropped : Drops tree after (doomed ++ [root]) := by
        refine drops_deleted lower before (fun pid reached => ?_) allUnreached same drops
        rcases kept pid reached with stays | rfl
        · exact Or.inl stays
        · exact Or.inr (List.mem_append_right _ (List.mem_singleton_self _))
      refine ⟨lower, [root], after, ?_, done, wellFormed, fun key value => ?_,
        drops_listed (Reached.root standing.top) dropped⟩
      · rw [isLower]
        simp only [Tree.shrinkRoot, found, list]
      · rw [further, keeps, holds]
  | first :: second :: others =>
      obtain ⟨deleted, keeps⟩ := deletes_stand standing unreached
      have freshThen := @fresh_deleted K V tree doomed fresh
      obtain ⟨after, done, wellFormed, further, drops⟩ := shrink_loop_ends freshThen deleted
        (Nat.lt_succ_of_lt (height_bound freshThen deleted.forest))
      refine ⟨tree, [], after, ?_, ?_, wellFormed, fun key value => ?_,
        drops_deleted tree (fun _ reached => reached) (fun _ reached => Or.inl reached)
          unreached rfl drops⟩
      · simp only [Tree.shrinkRoot, found, list]
      · rw [List.append_nil]
        exact done
      · rw [further, keeps]

end Root

end BusTub.BPlusTree
