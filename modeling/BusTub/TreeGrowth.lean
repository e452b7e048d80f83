import BusTub.TreeContents

/-!
How a B+ tree grows: a page that has been split is entered in the pages above, which
may split in turn, up to a new root. Each step is said by the rows: the row in which
a page has just been split has the new page behind it, and it becomes the row of
children once the parent has been told.
-/

namespace BusTub.BPlusTree

open SearchForest

section Changes
variable {K V : Type} {rules : Rules} {tree : Tree K V} {pages other : PageId → Option (Page K V)}
  {height : Nat} {row : Row K PageId} {exempt : Set PageId} {page : Page K V} {path : List PageId}
  {before after : Row K PageId} {fence : WithBot K}

abbrev Plain (pages : PageId → Option (Page K V)) (height : Nat) (row : Row K PageId) : Prop :=
  Forest InternalPage.entries pages (fun _ _ => True) (fun _ _ => True) height row

theorem plain_of (forest : TreeForest rules exempt pages height row) : Plain pages height row :=
  forest_mono forest fun _ _ _ _ _ => ⟨fun _ _ => trivial, fun _ _ => trivial⟩

theorem fresh_set {pid : PageId} (fresh : Fresh tree) (taken : tree.pages pid ≠ none) :
    Fresh (tree.setPage pid page) := by
  refine ⟨fresh.start, fun place found => ?_⟩
  by_cases same : place = pid
  · subst same
    exact fresh.taken place taken
  · rw [Tree.set_pages, Function.update_of_ne same] at found
    exact fresh.taken place found

theorem fresh_new (fresh : Fresh tree) :
    Fresh (tree.newPage.2.setPage tree.nextPageId page) := by
  have start := fresh.start
  refine ⟨?_, fun place found => ?_⟩
  · simp only [Tree.set_next, Tree.new_page_next]
    lia
  · by_cases same : place = tree.nextPageId
    · subst same
      simp only [Tree.set_next, Tree.new_page_next]
      lia
    · simp only [Tree.set_pages, Tree.new_page_pages, Tree.set_next, Tree.new_page_next,
        Function.update_of_ne same]
        at found ⊢
      have := fresh.taken place found
      lia

theorem next_missing (fresh : Fresh tree) : tree.pages tree.nextPageId = none := by
  by_contra found
  have := (fresh.taken _ found).2
  lia

theorem loosen (forest : TreeForest rules ∅ pages height row) :
    TreeForest rules exempt pages height row :=
  exempt_mono (Set.empty_subset exempt) forest

theorem way_good {root page : PageId}
    (way : Descent InternalPage.entries pages root path before fence page after)
    (ground : TreeForest rules exempt pages (height + path.length) [((⊥ : WithBot K), root)]) :
    ∀ parent ∈ path.head?, ∀ node, pages parent = some (.inr node) →
      GoodNode rules exempt parent node := by
  intro parent first node found
  cases way with
  | here => cases first
  | @down path above beside fence page _ _ _ _ _ way _ _ =>
      obtain rfl : page = parent := Option.some.inj first
      have length : height + (page :: path).length = height + 1 + path.length := by
        rw [List.length_cons]
        omega
      have row := descent_row way ▸ forest_fringe (length ▸ ground)
      obtain ⟨old, here, _, good⟩ := row.1 (fence, page) (by simp)
      simp only at here
      rw [found] at here
      obtain rfl := Sum.inr.inj (Option.some.inj here)
      exact good

theorem beside_not_root {root page : PageId}
    (way : Descent InternalPage.entries pages root path before fence page after)
    (ground : TreeForest rules exempt pages (height + path.length) [((⊥ : WithBot K), root)]) :
    ∀ slot ∈ before ++ after, slot.2 ≠ root := by
  intro slot member atRoot
  have row := descent_row way
  have inRow : slot ∈ before ++ (fence, page) :: after := by
    simp only [List.mem_append, List.mem_cons] at member ⊢
    tauto
  have length : 0 < path.length := by
    rcases Nat.eq_zero_or_pos path.length with zero | positive
    · rw [zero, fringe] at row
      have size := congrArg List.length row
      simp only [List.length_append, List.length_cons, List.length_nil] at size
      have := List.length_pos_of_mem member
      rw [List.length_append] at this
      omega
    · exact positive
  have lower : TreeForest rules exempt pages height (before ++ (fence, page) :: after) :=
    row ▸ forest_fringe ground
  have there := forest_fence ⊥ (forest_mem lower inRow)
  rw [atRoot] at there
  have := height_unique there ground
  omega

theorem put_internal {options : Options} {pid : PageId} {page : InternalPage K}
    (fits : page.entries.length ≤ options.INTERNAL_PAGE_SLOT_CNT) :
    tree.putInternal options pid page = .ok (tree.setPage pid (.inr page)) := by
  rw [Tree.putInternal, if_pos fits]

end Changes

section Told
variable {K V : Type} [LinearOrder K] {rules : Rules} {base tree : Tree K V}
  {root child newPid : PageId} {path : List PageId} {fence : WithBot K} {height : Nat} {upKey : K}

structure Told (rules : Rules) (base tree : Tree K V) (root parent : PageId) (path : List PageId)
    (above : Row K PageId) (fence : WithBot K) (beside : Row K PageId) (node : InternalPage K)
    (left : List (K × PageId)) (separator : K) (child : PageId) (right : List (K × PageId))
    (upKey : K) (newPid : PageId) (height : Nat) : Prop where
  way : Descent InternalPage.entries base.pages root path above fence parent beside
  found : base.pages parent = some (.inr node)
  list : node.entries = left ++ (separator, child) :: right
  ground : TreeForest rules {root} base.pages (height + 1 + path.length) [((⊥ : WithBot K), root)]
  unique : ((leavesOf base.pages root (height + 1 + path.length)).map Prod.snd).Nodup
  fresh : Fresh tree
  kept : ∀ page level low, height < level → TreeForest rules {root} base.pages level [(low, page)] →
    tree.pages page = base.pages page
  lower : TreeForest rules ∅ tree.pages height
    (expand InternalPage.entries base.pages above ++ refence fence left ++
    (fenceAt fence left separator, child) :: ((upKey : WithBot K), newPid) ::
      (raise right ++ expand InternalPage.entries base.pages beside))
  rise : ((fringe InternalPage.entries tree.pages height
    (expand InternalPage.entries base.pages above ++
    refence fence left ++ (fenceAt fence left separator, child) :: ((upKey : WithBot K), newPid) ::
      (raise right ++ expand InternalPage.entries base.pages beside))).map Prod.fst).Pairwise
        (· < ·)

variable {parent : PageId} {above beside : Row K PageId} {node : InternalPage K}
  {left right : List (K × PageId)} {separator : K}
    (told : Told rules base tree root parent path above fence beside node left separator child right
    upKey newPid height)

include told

theorem told_upper :
    TreeForest rules {root} base.pages (height + 1) (above ++ (fence, parent) :: beside) :=
  descent_row told.way ▸ forest_fringe told.ground

theorem told_same : ∀ slot ∈ above ++ (fence, parent) :: beside, tree.pages slot.2 =
    base.pages slot.2 :=
    fun slot member =>
  told.kept slot.2 (height + 1) slot.1 (Nat.lt_succ_self _) (forest_mem (told_upper told) member)

theorem told_found : tree.pages parent = some (.inr node) :=
  (told_same told (fence, parent) (by simp)).trans told.found

theorem told_apart : ∀ slot ∈ above ++ beside, slot.2 ≠ parent := by
  have lowest : fringe InternalPage.entries base.pages (height + 1)
    (above ++ (fence, parent) :: beside) =
    leavesOf base.pages root (height + 1 + path.length) := by
    rw [← descent_row told.way, fringe_fringe, Nat.add_comm]
  have unique := pages_nodup (told_upper told) (lowest ▸ told.unique)
  intro slot member same
  rw [List.map_append, List.map_cons, List.nodup_middle, List.nodup_cons, ← List.map_append]
    at unique
  exact unique.1 (List.mem_map.mpr ⟨slot, member, same⟩)

theorem told_fences : ((expand InternalPage.entries base.pages above ++ refence fence left ++
    (fenceAt fence left separator, child) :: ((upKey : WithBot K), newPid) ::
      (raise right ++ expand InternalPage.entries base.pages beside)).map Prod.fst).Pairwise
        (· < ·) :=
  List.Pairwise.sublist (fences_sublist told.lower) told.rise

theorem told_rising : Rising node.entries := by
  have row : ((expand InternalPage.entries base.pages (above ++ (fence, parent) :: beside)).map
      Prod.fst).Pairwise (· < ·) := by
    apply List.Pairwise.sublist _ (told_fences told)
    rw [expand_append, expand_cons, kids_node told.found, told.list, refence_cut]
    simp
  exact rising_of_fences told.found row

theorem told_cut : Cut node.entries upKey left separator child right := by
  have fences := told_fences told
  rw [List.map_append, List.map_cons, List.map_cons, List.pairwise_append, List.pairwise_cons,
    List.pairwise_cons] at fences
  refine ⟨told.list, fun more => ?_, fun entry member => ?_⟩
  · have := fences.2.1.1 (upKey : WithBot K) List.mem_cons_self
    rw [fenceAt, if_neg more, WithBot.coe_lt_coe] at this
    exact this.le
  · have := fences.2.1.2.1 (entry.1 : WithBot K) (by
      rw [List.map_append]
      exact List.mem_append_left _ (List.mem_map.mpr ⟨_, List.mem_map_of_mem member, rfl⟩))
    exact WithBot.coe_lt_coe.mp this

theorem told_good : GoodNode rules {root} parent node := by
  obtain ⟨old, there, _, good⟩ := (told_upper told).1 (fence, parent) (by simp)
  simp only at there
  rw [told.found] at there
  obtain rfl := Sum.inr.inj (Option.some.inj there)
  exact good

theorem told_parent_plain : Plain tree.pages (height + 1) [(fence, parent)] := by
  refine ⟨fun slot member => ?_, ?_⟩
  · rw [List.mem_singleton.mp member]
    exact ⟨node, told_found told, by simp [told.list], trivial⟩
  · apply forest_subset (plain_of told.lower)
    intro slot member
    rw [expand_cons, kids_node (told_found told), told.list, refence_cut] at member
    simp only [expand_nil, List.append_nil, List.mem_append, List.mem_cons] at member ⊢
    tauto

end Told

section Climb
variable {K V : Type} [LinearOrder K] [Inhabited K] {rules : Rules} {base tree : Tree K V}
  {root child newPid : PageId} {path : List PageId} {before after : Row K PageId}
  {fence : WithBot K} {height : Nat} {upKey : K}

structure Roomy (rules : Rules) : Prop where
  leaf : 2 ≤ rules.options.leafMaxSize
  node : 2 ≤ rules.options.internalMaxSize
  leafSlots : rules.options.leafMaxSize ≤ rules.options.LEAF_PAGE_SLOT_CNT
  nodeSlots : rules.options.internalMaxSize ≤ rules.options.INTERNAL_PAGE_SLOT_CNT
  lowLeaf : rules.lowLeaf ≤ rules.options.leafMaxSize / 2
  lowNode : rules.lowNode ≤ rules.options.internalMaxSize / 2

structure Grown (rules : Rules) (tree after : Tree K V) (leaves : Row K PageId) : Prop where
  fresh : Fresh after
  stands : ∃ root height, after.rootPageId = some root ∧
    TreeForest rules {root} after.pages height [((⊥ : WithBot K), root)] ∧
    leavesOf after.pages root height = leaves
  kept : ∀ pid leaf, tree.pages pid = some (.inl leaf) → after.pages pid = tree.pages pid

theorem new_root_grows (roomy : Roomy rules) (fresh : Fresh tree)
    (lower : TreeForest rules ∅ tree.pages height [((⊥ : WithBot K), child),
      ((upKey : WithBot K), newPid)]) :
    ∃ grown, tree.insertIntoParent rules.options child upKey newPid [] = .ok grown ∧
      Grown rules tree grown (fringe InternalPage.entries tree.pages height
        [((⊥ : WithBot K), child), ((upKey : WithBot K), newPid)]) := by
  obtain ⟨page, isPage⟩ : ∃ page : InternalPage K,
      page = ⟨rules.options.internalMaxSize, [(default, child), (upKey, newPid)]⟩ := ⟨_, rfl⟩
  have fits : page.entries.length ≤ rules.options.INTERNAL_PAGE_SLOT_CNT := by
    have := roomy.node
    have := roomy.nodeSlots
    rw [isPage]
    simp only [List.length_cons, List.length_nil]
    omega
  have missing := next_missing fresh
  have newFresh : Fresh (tree.newPage.2.setPage tree.nextPageId (.inr page)) := fresh_new fresh
  have here : Function.update tree.pages tree.nextPageId (some (Sum.inr page)) tree.nextPageId =
      some (.inr page) :=
    Function.update_self _ _ _
  refine ⟨{ tree.newPage.2.setPage tree.nextPageId (.inr page) with
    rootPageId := some tree.nextPageId }, ?_, ?_⟩
  · have done : tree.newPage.2.putInternal rules.options tree.newPage.1 page =
        .ok (tree.newPage.2.setPage tree.nextPageId (.inr page)) := put_internal fits
    rw [isPage] at done ⊢
    simp only [Tree.insertIntoParent, done, bind, Except.bind]
    rfl
  have below : expand InternalPage.entries
    (Function.update tree.pages tree.nextPageId (some (Sum.inr page)))
    [((⊥ : WithBot K), tree.nextPageId)] =
      [((⊥ : WithBot K), child), ((upKey : WithBot K), newPid)] := by
    rw [expand_cons, kids_node here, isPage]
    rfl
  obtain ⟨forest, same⟩ := forest_frame (apart_new missing (Sum.inr page)) (plain_of lower) lower
  refine ⟨⟨newFresh.start, newFresh.taken⟩,
    ⟨tree.nextPageId, height + 1, rfl, ⟨fun slot member => ?_, ?_⟩, ?_⟩, ?_⟩
  · rw [List.mem_singleton.mp member]
    refine ⟨page, here, by simp [isPage], ⟨by rw [isPage], ?_, fun strict => absurd rfl strict⟩⟩
    have := roomy.node
    rw [isPage]
    exact this
  · rw [Tree.set_pages, Tree.new_page_pages, below]
    exact loosen forest
  · rw [← same, ← below]
    rfl
  · intro pid leaf found
    refine Function.update_of_ne (fun same => ?_) _ _
    rw [same, missing] at found
    cases found

variable {parent : PageId} {above beside : Row K PageId} {node : InternalPage K}
  {left right : List (K × PageId)} {separator : K}

omit [Inhabited K] in
theorem parent_takes (top : tree.rootPageId = some root)
    (told : Told rules base tree root parent path above fence beside node left separator child right
      upKey newPid height)
    {bigger : InternalPage K}
    (entries : bigger.entries = left ++ (separator, child) :: (upKey, newPid) :: right)
    (maxSize : bigger.maxSize = node.maxSize)
    (room : node.getSize < rules.options.internalMaxSize) :
    Grown rules tree (tree.setPage parent (.inr bigger))
      (fringe InternalPage.entries tree.pages height
      (expand InternalPage.entries base.pages above ++ refence fence left ++
        (fenceAt fence left separator, child) :: ((upKey : WithBot K), newPid) ::
          (raise right ++ expand InternalPage.entries base.pages beside))) := by
  have foundTree := told_found told
  have upper := told_upper told
  have size : bigger.getSize = node.getSize + 1 := by
    simp only [InternalPage.getSize, entries, told.list, List.length_append, List.length_cons]
    omega
  have others : ∀ slot ∈ above ++ beside, (tree.setPage parent (.inr bigger)).pages slot.2 =
      base.pages slot.2 := by
    intro slot member
    rw [Tree.set_pages, Function.update_of_ne (told_apart told slot member)]
    apply told_same told slot
    rcases List.mem_append.mp member with inAbove | inBeside
    · exact List.mem_append_left _ inAbove
    · exact List.mem_append_right _ (List.mem_cons_of_mem _ inBeside)
  have here : (tree.setPage parent (.inr bigger)).pages parent = some (.inr bigger) :=
    Function.update_self _ _ _
  have below : expand InternalPage.entries (tree.setPage parent (.inr bigger)).pages
    (above ++ (fence, parent) :: beside) =
      expand InternalPage.entries base.pages above ++ refence fence left ++
        (fenceAt fence left separator, child) :: ((upKey : WithBot K), newPid) ::
          (raise right ++ expand InternalPage.entries base.pages beside) := by
    rw [expand_replaced here (fun slot member => others slot (List.mem_append_left _ member))
      (fun slot member => others slot (List.mem_append_right _ member)), entries, refence_cut]
    simp
  obtain ⟨lower, same⟩ :=
    forest_frame (apart_set (told_parent_plain told) (Or.inl (Nat.lt_succ_self height))
      (some (Sum.inr bigger))) (plain_of told.lower) told.lower
  have whole : TreeForest rules {root} (tree.setPage parent (.inr bigger)).pages (height + 1)
    (above ++ (fence, parent) :: beside) := by
    refine ⟨fun slot member => ?_, ?_⟩
    · by_cases atParent : slot.2 = parent
      · have good := told_good told
        rw [atParent]
        refine ⟨bigger, here,
          by simp [entries], maxSize.trans good.maxSize, by omega, fun other => ?_⟩
        have := good.low other
        omega
      · have inOthers : slot ∈ above ++ beside := by
          simp only [List.mem_append, List.mem_cons] at member ⊢
          rcases member with inAbove | rfl | inBeside
          · exact Or.inl inAbove
          · exact absurd rfl atParent
          · exact Or.inr inBeside
        rw [others slot inOthers]
        exact upper.1 slot member
    · rw [below]
      exact loosen lower
  obtain ⟨forest, lowest⟩ :=
    forest_lift told.way told.ground told.ground (fun page level low higher there => by
      have other : page ≠ parent := by
        rintro rfl
        have :=
          height_unique there (forest_fence low (forest_mem upper (show (fence, page) ∈ _ by simp)))
        omega
      rw [Tree.set_pages, Function.update_of_ne other]
      exact told.kept page level low (by omega) there) whole
  refine ⟨fresh_set told.fresh (by simp [foundTree]), ⟨root, _, top, forest, ?_⟩, ?_⟩
  · rw [leavesOf, lowest, fringe, below]
    exact same
  · intro pid leaf found
    refine Function.update_of_ne (fun atParent => ?_) _ _
    rw [atParent, foundTree] at found
    cases found

/-- The parent is full and splits: the row of the parent is as the row of the child was before. -/
theorem parent_splits (roomy : Roomy rules)
    (told : Told rules base tree root parent path above fence beside node left separator child right
      upKey newPid height) {bigger newNode : InternalPage K}
    (entries : bigger.entries = left ++ (separator, child) :: (upKey, newPid) :: right)
    (maxSize : bigger.maxSize = node.maxSize)
    (newMax : newNode.maxSize = rules.options.internalMaxSize)
    (full : node.getSize = rules.options.internalMaxSize) {split : Tree K V}
    (atParent : split.pages parent = some (.inr (bigger.split newNode).1))
    (atNew : split.pages tree.nextPageId = some (.inr (bigger.split newNode).2.2))
    (elsewhere : ∀ pid, pid ≠ parent → pid ≠ tree.nextPageId → split.pages pid = tree.pages pid) :
    TreeForest rules ∅ split.pages (height + 1)
        (above ++ (fence, parent) :: (((bigger.split newNode).2.1 : WithBot K), tree.nextPageId) ::
          beside) ∧
      fringe InternalPage.entries split.pages (height + 1)
          (above ++ (fence, parent) :: (((bigger.split newNode).2.1 : WithBot K),
            tree.nextPageId) :: beside) =
        fringe InternalPage.entries tree.pages height
          (expand InternalPage.entries base.pages above ++ refence fence left ++
            (fenceAt fence left separator, child) :: ((upKey : WithBot K), newPid) ::
              (raise right ++ expand InternalPage.entries base.pages beside)) := by
  have foundTree := told_found told
  have missing := next_missing told.fresh
  have upper := told_upper told
  have size : bigger.getSize = node.getSize + 1 := by
    simp only [InternalPage.getSize, entries, told.list, List.length_append, List.length_cons]
    omega
  have atLeastTwo : 2 ≤ bigger.getSize := by
    have := roomy.node
    omega
  obtain ⟨leftSize, rightSize⟩ := @internal_split_size K bigger newNode _
  have others : ∀ slot ∈ above ++ beside, split.pages slot.2 = base.pages slot.2 := by
    intro slot member
    have inRow : slot ∈ above ++ (fence, parent) :: beside := by
      simp only [List.mem_append, List.mem_cons] at member ⊢
      tauto
    have same := told_same told slot inRow
    rw [elsewhere slot.2 (told_apart told slot member), same]
    intro atNext
    rw [atNext, missing, ← atNext] at same
    exact found_of_forest (forest_mem upper inRow) same.symm
  have apart : Apart InternalPage.entries (fun _ _ => True) (fun _ _ => True) tree.pages
    split.pages height
    (expand InternalPage.entries base.pages above ++ refence fence left ++
      (fenceAt fence left separator, child) :: ((upKey : WithBot K), newPid) ::
        (raise right ++ expand InternalPage.entries base.pages beside)) := by
    intro pid changed
    by_cases here : pid = parent
    · subst here
      exact Or.inr ⟨fence, height + 1, told_parent_plain told, Or.inl (Nat.lt_succ_self _)⟩
    · by_cases new : pid = tree.nextPageId
      · rw [new]
        exact Or.inl missing
      · exact absurd (elsewhere pid here new) changed
  obtain ⟨lower, same⟩ := forest_frame apart (plain_of told.lower) told.lower
  have below : expand InternalPage.entries split.pages
    (above ++ (fence, parent) :: (((bigger.split newNode).2.1 : WithBot K), tree.nextPageId) ::
      beside) =
    expand InternalPage.entries base.pages above ++ refence fence left ++
      (fenceAt fence left separator, child) :: ((upKey : WithBot K), newPid) ::
        (raise right ++ expand InternalPage.entries base.pages beside) := by
    rw [expand_append, expand_cons, expand_cons, kids_node atParent, kids_node atNew,
      expand_congr fun slot member => others slot (List.mem_append_left _ member),
      expand_congr fun slot member => others slot (List.mem_append_right _ member)]
    rw [← List.append_assoc (refence fence _), internal_split fence atLeastTwo,
      entries, refence_cut]
    simp
  -- the pages beside the parent are not the root
  have strict : ∀ slot ∈ above ++ beside, ∃ page, split.pages slot.2 = some (.inr page) ∧
      page.entries ≠ [] ∧ GoodNode rules ∅ slot.2 page := by
    intro slot member
    have inRow : slot ∈ above ++ (fence, parent) :: beside := by
      simp only [List.mem_append, List.mem_cons] at member ⊢
      tauto
    obtain ⟨page, found, more, good⟩ := upper.1 slot inRow
    refine ⟨page, (others slot member).trans found, more, good.maxSize, good.room,
      fun _ => good.low ?_⟩
    exact beside_not_root told.way told.ground slot member
  have lowNode := roomy.lowNode
  have parentGood := told_good told
  constructor
  · refine ⟨fun slot member => ?_, ?_⟩
    · simp only [List.mem_append, List.mem_cons] at member
      rcases member with inAbove | rfl | rfl | inBeside
      · exact strict slot (List.mem_append_left _ inAbove)
      · refine ⟨_, atParent, ?_, ⟨maxSize.trans parentGood.maxSize, by omega, fun _ => by omega⟩⟩
        exact List.ne_nil_of_length_pos (show 0 < (bigger.split newNode).1.getSize by omega)
      · refine ⟨_, atNew, ?_, ⟨newMax, by omega, fun _ => by omega⟩⟩
        exact List.ne_nil_of_length_pos (show 0 < (bigger.split newNode).2.2.getSize by omega)
      · exact strict slot (List.mem_append_right _ inBeside)
    · rw [below]
      exact lower
  · rw [fringe, below]
    exact same

/-- The new page is entered in the pages above, however many of them split. -/
theorem insert_into_parent_grows (roomy : Roomy rules)
    (way : Descent InternalPage.entries base.pages root path before fence child after)
    (ground : TreeForest rules {root} base.pages (height + path.length) [((⊥ : WithBot K), root)])
    (unique : ((leavesOf base.pages root (height + path.length)).map Prod.snd).Nodup)
    (top : tree.rootPageId = some root) (fresh : Fresh tree)
    (kept : ∀ page level low, height < level →
      TreeForest rules {root} base.pages level [(low, page)] → tree.pages page = base.pages page)
    (lower : TreeForest rules ∅ tree.pages height
      (before ++ (fence, child) :: ((upKey : WithBot K), newPid) :: after))
    (rise : ((fringe InternalPage.entries tree.pages height
      (before ++ (fence, child) :: ((upKey : WithBot K), newPid) :: after)).map Prod.fst).Pairwise
        (· < ·))
    (slots : ∀ parent ∈ path.head?, ∀ node, base.pages parent = some (.inr node) →
      node.getSize < rules.options.INTERNAL_PAGE_SLOT_CNT) :
    ∃ grown, tree.insertIntoParent rules.options child upKey newPid path = .ok grown ∧
      Grown rules tree grown (fringe InternalPage.entries tree.pages height
        (before ++ (fence, child) :: ((upKey : WithBot K), newPid) :: after)) := by
  induction way generalizing height tree upKey newPid with
  | here => exact new_root_grows roomy fresh lower
  | @down path above beside fence parent child node left right separator way found list ih =>
      rw [show height + (parent :: path).length =
          height + 1 + path.length by rw [List.length_cons]; omega]
        at ground unique
      have told : Told rules base tree root parent path above fence beside node left separator child
          right upKey newPid
          height := ⟨way, found, list, ground, unique, fresh, kept, lower, rise⟩
      have foundTree := told_found told
      have place := upper_bound_at (told_rising told) (told_cut told)
      obtain ⟨bigger, isBigger⟩ : ∃ bigger, bigger = node.insertAt (left.length + 1) upKey newPid :=
        ⟨_, rfl⟩
      have maxSize : bigger.maxSize = node.maxSize := by rw [isBigger]; rfl
      have entries : bigger.entries = left ++ (separator, child) :: (upKey, newPid) :: right :=
        isBigger ▸ internal_insert_at list
      have size : bigger.getSize = node.getSize + 1 := by
        simp only [InternalPage.getSize, entries, list, List.length_append, List.length_cons]
        omega
      have nodeRoom := (told_good told).room
      have space := slots parent rfl node found
      have atParent : tree.internalPage parent = .ok node := by
        simp [Tree.internalPage, foundTree]
      have stored : tree.putInternal rules.options parent bigger =
          .ok (tree.setPage parent (.inr bigger)) := by
        apply put_internal
        change bigger.getSize ≤ _
        omega
      by_cases room : node.getSize < rules.options.internalMaxSize
      · refine ⟨tree.setPage parent (.inr bigger), ?_, parent_takes top told entries maxSize room⟩
        simp only [Tree.insertIntoParent, atParent, place, ← isBigger, stored, bind,
          Except.bind, if_pos room]
      · have full : node.getSize = rules.options.internalMaxSize := by omega
        obtain ⟨newNode, isNew⟩ : ∃ newNode :
          InternalPage K, newNode = { maxSize := rules.options.internalMaxSize } :=
          ⟨_, rfl⟩
        obtain ⟨halves, isHalves⟩ : ∃ halves, halves = bigger.split newNode := ⟨_, rfl⟩
        obtain ⟨leftSize, rightSize⟩ := @internal_split_size K bigger newNode _
        rw [← isHalves] at leftSize rightSize
        have missing := next_missing fresh
        have notNext : parent ≠ tree.nextPageId := by
          intro same
          rw [same, missing] at foundTree
          cases foundTree
        obtain ⟨split, isSplit⟩ : ∃ split, split =
            (((tree.setPage parent (.inr bigger)).newPage.2.setPage parent
            (.inr halves.1)).setPage tree.nextPageId (.inr halves.2.2)) := ⟨_, rfl⟩
        have splitPages : ∀ pid, split.pages pid = if pid =
            tree.nextPageId then some (.inr halves.2.2)
            else if pid = parent then some (.inr halves.1) else tree.pages pid := by
          intro pid
          rw [isSplit]
          simp only [Tree.set_pages, Tree.new_page_pages, Function.update_apply]
          split_ifs <;> rfl
        have atLeft : split.pages parent = some (.inr halves.1) := by
          rw [splitPages, if_neg notNext, if_pos rfl]
        have atRight : split.pages tree.nextPageId = some (.inr halves.2.2) := by
          rw [splitPages, if_pos rfl]
        have elsewhere : ∀ pid, pid ≠ parent → pid ≠ tree.nextPageId →
            split.pages pid = tree.pages pid := by
          intro pid notParent notNew
          rw [splitPages, if_neg notNew, if_neg notParent]
        have done : tree.insertIntoParent rules.options child upKey newPid (parent :: path) =
            split.insertIntoParent rules.options parent halves.2.1 tree.nextPageId path := by
          have leftStored : (tree.setPage parent (.inr bigger)).newPage.2.putInternal rules.options
            parent halves.1 =
            .ok ((tree.setPage parent (.inr bigger)).newPage.2.setPage parent
              (.inr halves.1)) := by
            apply put_internal
            change halves.1.getSize ≤ _
            omega
          have rightStored :
            ((tree.setPage parent (.inr bigger)).newPage.2.setPage parent
              (.inr halves.1)).putInternal
              rules.options tree.nextPageId halves.2.2 = .ok split := by
            rw [isSplit]
            apply put_internal
            change halves.2.2.getSize ≤ _
            omega
          simp only [Tree.insertIntoParent, atParent, place, ← isBigger, stored, bind,
            Except.bind, if_neg room, ← isNew,
            ← isHalves, Tree.new_page_id, Tree.set_next, leftStored, rightStored]
        rw [isHalves] at atLeft atRight done
        obtain ⟨newLower, sameLeaves⟩ :=
          parent_splits roomy told entries maxSize (by rw [isNew]) full atLeft atRight elsewhere
        have splitFresh : Fresh split := by
          refine ⟨?_, fun pid there => ?_⟩
          · have := fresh.start
            rw [isSplit]
            simp only [Tree.set_next, Tree.new_page_next]
            lia
          · have next : split.nextPageId = tree.nextPageId + 1 := by rw [isSplit]; rfl
            rw [next]
            by_cases atNew : pid = tree.nextPageId
            · have := fresh.start
              lia
            · have before : tree.pages pid ≠ none := by
                by_cases here : pid = parent
                · rw [here, foundTree]
                  simp
                · rwa [elsewhere pid here atNew] at there
              have := fresh.taken pid before
              lia
        have higher : ∀ page level low, height + 1 < level →
            TreeForest rules {root} base.pages level [(low, page)] →
              split.pages page = base.pages page := by
          intro page level low above there
          have same := kept page level low (by omega) there
          rw [elsewhere, same]
          · rintro rfl
            have :=
              height_unique there (forest_mem (told_upper told) (show (fence, page) ∈ _ by simp))
            omega
          · rintro rfl
            exact found_of_forest there (same ▸ missing)
        -- pages above have room for one more, as this one had
        have upperSlots : ∀ grandparent ∈ path.head?, ∀ upper, base.pages grandparent =
            some (.inr upper) → upper.getSize < rules.options.INTERNAL_PAGE_SLOT_CNT := by
          intro grandparent first upper there
          have := (way_good way ground grandparent first upper there).room
          omega
        obtain ⟨grown, inserted, good⟩ :=
          ih ground unique (by rw [isSplit]; exact top) splitFresh higher newLower
            (by rw [sameLeaves]; exact rise) upperSlots
        rw [sameLeaves] at good
        refine ⟨grown, done.trans inserted, good.fresh, good.stands, fun pid leaf there => ?_⟩
        have same : split.pages pid = tree.pages pid := by
          apply elsewhere
          · rintro rfl
            rw [foundTree] at there
            cases there
          · rintro rfl
            rw [missing] at there
            cases there
        exact (good.kept pid leaf (same.trans there)).trans same

end Climb

end BusTub.BPlusTree
