import BusTub.TreeGrowth

/-!
`Insert` of the B+ tree. The key goes into the leaf in whose range it lies; a leaf
that is full then is split and the tree grows. What the tree holds afterwards is
what it held before and the new pair.
-/

namespace BusTub.BPlusTree

open SearchForest LinkedChain

theorem chained_congr {link other : PageId → Option PageId} {list : List PageId}
    (same : ∀ pid ∈ list, other pid = link pid)
    (chained : Chained link list) : Chained other list := by
  cases list with
  | nil => trivial
  | cons first rest => exact chain_congr same chained

theorem chained_insert {link : PageId → Option PageId} {left right : List PageId} {pid new : PageId}
    (unique : (left ++ pid :: right).Nodup) (fresh : new ∉ left ++ pid :: right)
    (chained : Chained link (left ++ pid :: right)) :
    Chained (Function.update (Function.update link pid (some new)) new (link pid))
      (left ++ pid :: new :: right) := by
  cases left with
  | nil => exact @chain_insert PageId link pid [] right none _ new unique fresh chained
  | cons first left =>
      have chain :=
        @chain_insert PageId link first (left ++ [pid]) right none _ new (by simpa using unique)
          (by simpa using fresh) (by rw [List.append_assoc]; exact chained)
      simpa [Chained] using chain

section Leaves
variable {K V : Type} [LinearOrder K] {leaf : LeafPage K V} {key : K} {value : V}

/-- The place that the search finds for a key that is not there. -/
theorem place_for (sorted : (leaf.entries.map Prod.fst).Pairwise (· < ·))
    (absent : key ∉ leaf.entries.map Prod.fst) :
    ∃ index ≤ leaf.getSize, Tree.lowerBound leaf key = index ∧
      Tree.hasKeyAt leaf index key = false ∧
      ((leaf.insertAt index key value).entries.map Prod.fst).Pairwise (· < ·) ∧
      ∀ entry ∈ (leaf.insertAt index key value).entries, entry = (key, value) ∨
      entry ∈ leaf.entries := by
  obtain ⟨front, back, whole, lower, low, high⟩ := @lower_bound_cut K V _ leaf key sorted
  have entries : (leaf.insertAt front.length key value).entries = front ++ (key, value) :: back :=
    leaf_insert_at whole
  have size : front.length ≤ leaf.getSize := by
    rw [LeafPage.getSize, whole, List.length_append]
    omega
  refine ⟨front.length, size, lower, ?_, ?_, ?_⟩
  · rw [Bool.eq_false_iff]
    intro here
    exact absent ((has_key_iff sorted whole low high).mp here)
  · have above : ∀ entry ∈ back, key < entry.1 := by
      intro entry member
      refine lt_of_le_of_ne (high entry member) fun same => absent ?_
      rw [same, whole]
      exact List.mem_map_of_mem (List.mem_append_right _ member)
    rw [whole, List.map_append, List.pairwise_append] at sorted
    rw [entries, List.map_append, List.map_cons, List.pairwise_append, List.pairwise_cons]
    refine ⟨sorted.1, ⟨?_, sorted.2.1⟩, ?_⟩
    · intro other member
      obtain ⟨entry, inside, rfl⟩ := List.mem_map.mp member
      exact above entry inside
    · intro one inFront other member
      obtain ⟨entry, inside, rfl⟩ := List.mem_map.mp inFront
      rcases List.mem_cons.mp member with rfl | inBack
      · exact low entry inside
      · exact sorted.2.2 _ inFront other inBack
  · intro entry member
    rw [entries] at member
    simp only [whole, List.mem_append, List.mem_cons] at member ⊢
    tauto

omit [LinearOrder K] in
theorem leaf_split_size {newLeaf : LeafPage K V} :
    (leaf.split newLeaf).1.getSize = leaf.getSize / 2 ∧ (leaf.split newLeaf).2.getSize =
      leaf.getSize - leaf.getSize / 2 := by
  constructor
  · simp only [LeafPage.split, LeafPage.getSize, List.length_take]
    omega
  · simp only [LeafPage.split, LeafPage.getSize, List.length_drop]

omit [LinearOrder K] in
theorem insert_at_size {index : Nat} (inside : index ≤ leaf.getSize) :
    (leaf.insertAt index key value).getSize = leaf.getSize + 1 := by
  rw [LeafPage.getSize, LeafPage.insertAt, List.length_insertIdx_of_le_length inside]
  rfl

structure Entered (rules : Rules) (leaf bigger : LeafPage K V) (key : K) (value : V)
    (fence : WithBot K) (after : Row K PageId) : Prop where
  size : bigger.getSize = leaf.getSize + 1
  maxSize : bigger.maxSize = leaf.maxSize
  link : bigger.nextPageId = leaf.nextPageId
  tombstones : TombstonesOk rules bigger.getSize bigger.tombstones
  sorted : (bigger.entries.map Prod.fst).Pairwise (· < ·)
  inside : ∀ entry ∈ bigger.entries, Near entry.1 fence after
  live : ∀ k v, Live bigger k v ↔ (k = key ∧ v = value) ∨ Live leaf k v

theorem entered {rules : Rules} {fence : WithBot K} {after : Row K PageId}
    (sorted : (leaf.entries.map Prod.fst).Pairwise (· < ·))
    (range : ∀ entry ∈ leaf.entries, Near entry.1 fence after) (near : Near key fence after)
    (tombstones : TombstonesOk rules leaf.getSize leaf.tombstones)
    (absent : key ∉ leaf.entries.map Prod.fst) :
    Tree.hasKeyAt leaf (Tree.lowerBound leaf key) key = false ∧
      Entered rules leaf (leaf.insertAt (Tree.lowerBound leaf key) key value) key value
        fence after := by
  obtain ⟨index, upTo, lower, missing, newSorted, members⟩ :=
    @place_for K V _ leaf key value sorted absent
  have size : (leaf.insertAt index key value).getSize = leaf.getSize + 1 := insert_at_size upTo
  rw [lower]
  refine ⟨missing, size, rfl, rfl, ?_, newSorted, fun entry member => ?_, fun k v =>
    live_inserted upTo⟩
  · rw [size]
    exact tombstones_inserted tombstones
  · rcases members entry member with rfl | old
    · exact near
    · exact range entry old

end Leaves

section Splits
variable {K V : Type} [LinearOrder K] {rules : Rules} {tree split : Tree K V}
  {root pid newPid : PageId} {height : Nat} {key upKey : K} {value up : V} {path : List PageId}
  {before after : Row K PageId} {fence : WithBot K} {leaf bigger left right : LeafPage K V}
  {rest : List (K × V)}

structure Halves (rules : Rules) (bigger left right : LeafPage K V) (newPid : PageId) : Prop where
  parts : bigger.entries = left.entries ++ right.entries
  leftSize : left.getSize = bigger.getSize / 2
  rightSize : right.getSize = bigger.getSize - bigger.getSize / 2
  leftMax : left.maxSize = bigger.maxSize
  rightMax : right.maxSize = rules.options.leafMaxSize
  leftTombs : TombstonesOk rules left.getSize left.tombstones
  rightTombs : TombstonesOk rules right.getSize right.tombstones
  leftLink : left.nextPageId = some newPid
  rightLink : right.nextPageId = bigger.nextPageId
  live : ∀ k v, Live bigger k v ↔ Live left k v ∨ Live right k v

omit [LinearOrder K] in
theorem halved (tombstones : TombstonesOk rules bigger.getSize bigger.tombstones)
    {newLeaf : LeafPage K V} (newMax : newLeaf.maxSize = rules.options.leafMaxSize) :
    Halves rules bigger { (bigger.split newLeaf).1 with nextPageId := some newPid }
      { (bigger.split newLeaf).2 with nextPageId := (bigger.split newLeaf).1.nextPageId }
        newPid := by
  obtain ⟨leftTombs, rightTombs⟩ := @tombstones_split K V rules bigger newLeaf tombstones
  obtain ⟨leftSize, rightSize⟩ := @leaf_split_size K V bigger newLeaf
  exact ⟨(List.take_append_drop _ _).symm, leftSize, rightSize, rfl, newMax, leftTombs,
      rightTombs, rfl, rfl, fun k v => @live_split K V bigger newLeaf k v⟩

/-- The row of the leaves with the new leaf in it is in order. -/
theorem split_row (standing : Standing rules {root} tree root height)
    (place : LeafFor rules {root} tree root height key path before fence pid after leaf)
    (entered : Entered rules leaf bigger key value fence after)
    (halves : Halves rules bigger left right newPid) (first : right.entries = (upKey, up) :: rest)
    (more : left.entries ≠ []) (atLeft : split.pages pid = some (.inl left))
    (atRight : split.pages newPid = some (.inl right))
    (same : ∀ slot ∈ before ++ after, split.pages slot.2 = tree.pages slot.2) :
    Ordered (keysOf split.pages)
      (before ++ (fence, pid) :: ((upKey : WithBot K), newPid) :: after) := by
  have ordered := standing.ordered
  rw [leaf_row place] at ordered
  have sameKeys := keys_congr same
  have parts := halves.parts
  have inside := entered.inside
  have sorted := entered.sorted
  rw [parts, List.map_append, List.pairwise_append] at sorted
  have upInside : (upKey, up) ∈ bigger.entries := by
    rw [parts, first]
    simp
  obtain ⟨entry, others, list⟩ := List.exists_cons_of_ne_nil more
  have below : ∀ k ∈ left.entries.map Prod.fst, k < upKey := by
    intro k member
    apply sorted.2.2 k member
    rw [first]
    exact List.mem_cons_self
  have firstInside : entry ∈ bigger.entries := by
    rw [parts, list]
    simp
  have fenceUp : fence < (upKey : WithBot K) := by
    refine lt_of_le_of_lt (inside entry firstInside).1 (WithBot.coe_lt_coe.mpr (below entry.1 ?_))
    rw [list]
    exact List.mem_cons_self
  apply @ordered_replace K PageId _ _ _ before after fence pid pid []
    [((upKey : WithBot K), newPid)] ordered _ _
    (fun slot member => sameKeys slot (List.mem_append_left _ member))
    (fun slot member => sameKeys slot (List.mem_append_right _ member))
  · rw [ordered_cons, ordered_cons]
    simp only [keys_leaf atLeft, keys_leaf atRight]
    refine ⟨⟨sorted.1, fun k member => ?_⟩,
        ⟨⟨sorted.2.1, fun k member => ?_⟩, ⟨List.Pairwise.nil, by simp⟩, by simp⟩, ?_⟩
    · obtain ⟨pair, inLeft, rfl⟩ := List.mem_map.mp member
      exact (inside pair (parts ▸ List.mem_append_left _ inLeft)).1
    · rw [first, List.map_cons, List.mem_cons] at member
      rcases member with rfl | later
      · exact le_refl _
      · rw [first, List.map_cons, List.pairwise_cons] at sorted
        exact WithBot.coe_le_coe.mpr (sorted.2.1.1 k later).le
    · intro next member
      rw [List.mem_singleton] at member
      subst member
      exact ⟨fenceUp, fun k member => WithBot.coe_lt_coe.mpr (below k member)⟩
  · intro slot member next inAfter
    rcases List.mem_cons.mp member with rfl | later
    · simp only [keys_leaf atLeft]
      refine ⟨lt_of_le_of_lt (inside entry firstInside).1
          ((inside entry firstInside).2 next inAfter), fun k member =>
        ?_⟩
      obtain ⟨pair, inLeft, rfl⟩ := List.mem_map.mp member
      exact (inside pair (parts ▸ List.mem_append_left _ inLeft)).2 next inAfter
    · rw [List.mem_singleton] at later
      subst later
      simp only [keys_leaf atRight]
      refine ⟨(inside (upKey, up) upInside).2 next inAfter, fun k member => ?_⟩
      obtain ⟨pair, inRight, rfl⟩ := List.mem_map.mp member
      exact (inside pair (parts ▸ List.mem_append_right _ inRight)).2 next inAfter

structure LeafSplit (rules : Rules) (tree split : Tree K V) (pid : PageId)
    (left right : LeafPage K V) : Prop where
  top : split.rootPageId = tree.rootPageId
  fresh : Fresh split
  atLeft : split.pages pid = some (.inl left)
  atRight : split.pages tree.nextPageId = some (.inl right)
  elsewhere : ∀ page, page ≠ pid → page ≠ tree.nextPageId → split.pages page = tree.pages page

theorem leaf_ground (standing : Standing rules {root} tree root height)
    (place : LeafFor rules {root} tree root height key path before fence pid after leaf) :
    TreeForest rules {root} tree.pages (0 + path.length) [((⊥ : WithBot K), root)] ∧
      TreeForest rules {root} tree.pages 0 (before ++ (fence, pid) :: after) := by
  have ground : TreeForest rules {root} tree.pages (0 + path.length) [((⊥ : WithBot K), root)] := by
    rw [Nat.zero_add, place.depth]
    exact standing.forest
  exact ⟨ground, descent_row place.way ▸ forest_fringe ground⟩

theorem not_next (fresh : Fresh tree) (standing : Standing rules {root} tree root height)
    (place : LeafFor rules {root} tree root height key path before fence pid after leaf) :
    ∀ slot ∈ before ++ (fence, pid) :: after, slot.2 ≠ tree.nextPageId := by
  intro slot member same
  have found := found_of_forest (forest_mem (leaf_ground standing place).2 member)
  rw [same] at found
  exact found (next_missing fresh)

theorem split_others (fresh : Fresh tree) (standing : Standing rules {root} tree root height)
    (place : LeafFor rules {root} tree root height key path before fence pid after leaf)
    (done : LeafSplit rules tree split pid left right) :
    ∀ slot ∈ before ++ after, split.pages slot.2 = tree.pages slot.2 := by
  intro slot member
  apply done.elsewhere _ (leaf_apart standing place slot member)
  apply not_next fresh standing place slot
  simp only [List.mem_append, List.mem_cons] at member ⊢
  tauto

theorem split_forest (roomy : Roomy rules) (fresh : Fresh tree)
    (standing : Standing rules {root} tree root height)
    (place : LeafFor rules {root} tree root height key path before fence pid after leaf)
    (maxSize : bigger.maxSize = rules.options.leafMaxSize)
    (full : bigger.getSize = rules.options.leafMaxSize)
    (halves : Halves rules bigger left right tree.nextPageId)
    (done : LeafSplit rules tree split pid left right) :
    TreeForest rules ∅ split.pages 0
      (before ++ (fence, pid) :: ((upKey : WithBot K), tree.nextPageId) :: after) := by
  obtain ⟨ground, lowest⟩ := leaf_ground standing place
  have atLeastTwo := roomy.leaf
  have low := roomy.lowLeaf
  have leftSize := halves.leftSize
  have rightSize := halves.rightSize
  have strict : ∀ slot ∈ before ++ after, ∃ page, split.pages slot.2 = some (.inl page) ∧
    GoodLeaf rules ∅ slot.2 page := by
    intro slot member
    obtain ⟨page, found, good⟩ := lowest slot (by
      simp only [List.mem_append, List.mem_cons] at member ⊢
      tauto)
    have same := split_others fresh standing place done slot member
    refine ⟨page, same.trans found, good.maxSize, good.room, good.tombstones, fun _ => good.low ?_⟩
    exact beside_not_root place.way ground slot member
  intro slot member
  simp only [List.mem_append, List.mem_cons] at member
  rcases member with inBefore | rfl | rfl | inAfter
  · exact strict slot (List.mem_append_left _ inBefore)
  · exact ⟨left, done.atLeft, halves.leftMax.trans maxSize,
      by omega, halves.leftTombs, fun _ => by omega⟩
  · exact ⟨right, done.atRight, halves.rightMax, by omega, halves.rightTombs, fun _ => by omega⟩
  · exact strict slot (List.mem_append_right _ inAfter)

theorem split_chained (fresh : Fresh tree) (standing : Standing rules {root} tree root height)
    (place : LeafFor rules {root} tree root height key path before fence pid after leaf)
    (link : bigger.nextPageId = leaf.nextPageId)
    (halves : Halves rules bigger left right tree.nextPageId)
    (done : LeafSplit rules tree split pid left right) :
    ((before ++ (fence, pid) :: ((upKey : WithBot K), tree.nextPageId) :: after).map
      Prod.snd).Nodup ∧ Chained (links split.pages)
        ((before ++ (fence, pid) :: ((upKey : WithBot K), tree.nextPageId) :: after).map
          Prod.snd) := by
  have row := leaf_row place
  have unique := standing.unique
  have chained := standing.chained
  have newFresh : tree.nextPageId ∉ (before ++ (fence, pid) :: after).map Prod.snd := by
    intro member
    obtain ⟨slot, inRow, same⟩ := List.mem_map.mp member
    exact not_next fresh standing place slot inRow same
  rw [row] at unique chained
  have newUnique :
    ((before ++ (fence, pid) :: ((upKey : WithBot K), tree.nextPageId) :: after).map
      Prod.snd).Nodup := by
    rw [show before ++ (fence, pid) :: ((upKey : WithBot K), tree.nextPageId) :: after =
      (before ++ [(fence, pid)]) ++ ((upKey : WithBot K), tree.nextPageId) :: after by
        simp, List.map_append, List.map_cons,
      List.nodup_middle, List.nodup_cons, ← List.map_append]
    simpa using And.intro newFresh unique
  refine ⟨newUnique, ?_⟩
  rw [List.map_append, List.map_cons] at chained unique newFresh
  rw [List.map_append, List.map_cons, List.map_cons]
  apply chained_congr _ (chained_insert unique newFresh chained)
  intro page member
  by_cases atNew : page = tree.nextPageId
  · rw [atNew, Function.update_self]
    simp only [links, done.atRight, place.found, halves.rightLink, link]
  · rw [Function.update_of_ne atNew]
    by_cases atPid : page = pid
    · rw [atPid, Function.update_self]
      simp only [links, done.atLeft, halves.leftLink]
    · rw [Function.update_of_ne atPid]
      simp only [links, done.elsewhere page atPid atNew]

/-- A leaf that has been split, and the pages above it told, give a tree that holds one pair
more. -/
theorem leaf_splits [Inhabited K] (roomy : Roomy rules) (fresh : Fresh tree)
    (standing : Standing rules {root} tree root height)
    (place : LeafFor rules {root} tree root height key path before fence pid after leaf)
    (entered : Entered rules leaf bigger key value fence after)
    (full : bigger.getSize = rules.options.leafMaxSize)
    (halves : Halves rules bigger left right tree.nextPageId)
    (done : LeafSplit rules tree split pid left right) (first : right.entries = (upKey, up) :: rest)
    (slots : ∀ parent ∈ path.head?, ∀ node, tree.pages parent = some (.inr node) →
      node.getSize < rules.options.INTERNAL_PAGE_SLOT_CNT) :
    ∃ grown, split.insertIntoParent rules.options pid upKey tree.nextPageId path = .ok grown ∧
      WellFormed rules grown ∧
      ∀ k v, Holds grown k v ↔ (k = key ∧ v = value) ∨ Holds tree k v := by
  obtain ⟨ground, lowest⟩ := leaf_ground standing place
  have others := split_others fresh standing place done
  have more : left.entries ≠ [] := by
    have atLeastTwo := roomy.leaf
    have leftSize := halves.leftSize
    apply List.ne_nil_of_length_pos
    change 0 < left.getSize
    omega
  have ordered := split_row standing place entered halves first more done.atLeft done.atRight others
  have lower :=
    @split_forest K V _ rules tree split root pid height key upKey path before after fence leaf
      bigger left right
    roomy fresh standing place (entered.maxSize.trans place.good.maxSize) full halves done
  obtain ⟨unique, chained⟩ :=
    @split_chained K V _ rules tree split root pid height key upKey path before after fence leaf
    bigger left right fresh standing place entered.link halves done
  have kept : ∀ page level above, 0 < level →
      TreeForest rules {root} tree.pages level [(above, page)] →
        split.pages page = tree.pages page := by
    intro page level above higher there
    apply done.elsewhere
    · rintro rfl
      have := height_unique there (forest_mem lowest (show (fence, page) ∈ _ by simp))
      omega
    · rintro rfl
      exact found_of_forest there (next_missing fresh)
  obtain ⟨grown, inserted, good⟩ := insert_into_parent_grows roomy place.way ground
    (by rw [Nat.zero_add, place.depth]; exact standing.unique) (done.top.trans standing.top)
      done.fresh kept lower
    (ordered_fences ordered) slots
  obtain ⟨newRoot, newHeight, atTop, forest, leaves⟩ := good.stands
  change leavesOf grown.pages newRoot newHeight = before ++
    (fence, pid) :: ((upKey : WithBot K), tree.nextPageId) :: after
    at leaves
  have same : ∀ slot ∈ before ++ (fence, pid) :: ((upKey : WithBot K), tree.nextPageId) :: after,
      grown.pages slot.2 = split.pages slot.2 := by
    intro slot member
    obtain ⟨page, found, _⟩ := lower slot member
    exact good.kept slot.2 page found
  have stands : Standing rules {newRoot} grown newRoot newHeight := by
    refine ⟨atTop, forest, ?_, ?_, ?_⟩
    · rw [leaves]
      exact ordered_congr (keys_congr same) ordered
    · rw [leaves]
      exact unique
    · rw [leaves]
      apply chained_congr _ chained
      intro page member
      obtain ⟨slot, inside, rfl⟩ := List.mem_map.mp member
      simp only [links, same slot inside]
  refine ⟨grown, inserted, ⟨good.fresh, Or.inr ⟨newRoot, newHeight, stands⟩⟩, fun k v => ?_⟩
  have new := entered.live k v
  have dealt := halves.live k v
  rw [holds_iff stands, leaves, held_congr same, held_append, held_leaf done.atLeft,
      held_leaf done.atRight, leaf_holds standing place, ← held_congr others, held_append]
  tauto

end Splits

section Insertions
variable {K V : Type} [LinearOrder K] {rules : Rules} {tree : Tree K V} {root pid : PageId}
  {height : Nat} {key : K} {value : V} {path : List PageId} {before after : Row K PageId}
  {fence : WithBot K} {leaf bigger : LeafPage K V}

def Overflows (options : Options) (tree : Tree K V) (key : K) : Prop :=
  ∃ root path pid leaf parent node, tree.rootPageId = some root ∧
    tree.descend (fun page => page.childFor key) tree.depthBound root [] =
      .ok (parent :: path, pid, leaf) ∧
    key ∉ leaf.entries.map Prod.fst ∧ options.leafMaxSize ≤ leaf.getSize + 1 ∧
    tree.pages parent = some (.inr node) ∧ options.INTERNAL_PAGE_SLOT_CNT ≤ node.getSize

omit [LinearOrder K] in
theorem put_leaf {options : Options} (fits : leaf.getSize ≤ options.LEAF_PAGE_SLOT_CNT)
    (tombs : leaf.tombstones.length ≤ options.LEAF_PAGE_TOMB_CNT) :
    tree.putLeaf options pid leaf = .ok (tree.setPage pid (.inl leaf)) := by
  rw [Tree.putLeaf, if_pos]
  exact ⟨fits, tombs⟩

theorem leaf_takes (fresh : Fresh tree) (standing : Standing rules {root} tree root height)
    (place : LeafFor rules {root} tree root height key path before fence pid after leaf)
    (entered : Entered rules leaf bigger key value fence after)
    (room : bigger.getSize < rules.options.leafMaxSize) :
    WellFormed rules (tree.setPage pid (.inl bigger)) ∧
      ∀ k v, Holds (tree.setPage pid (.inl bigger)) k v ↔ (k = key ∧ v = value) ∨
      Holds tree k v := by
  have size := entered.size
  have good : GoodLeaf rules {root} pid bigger := by
    refine ⟨entered.maxSize.trans place.good.maxSize, room, entered.tombstones, fun strict => ?_⟩
    have := place.good.low strict
    omega
  obtain ⟨stands, leaves⟩ :=
    leaf_replaced standing place (le_refl _) good entered.sorted entered.inside entered.link
  refine ⟨⟨fresh_set fresh (by simp [place.found]), Or.inr ⟨root, height, stands⟩⟩, fun k v => ?_⟩
  rw [holds_replaced standing place stands leaves, entered.live,
    leaf_holds standing place, or_assoc]

theorem searches_child_for (key : K) :
    Searches (fun page : InternalPage K => page.childFor key) key :=
  fun _ more rising => child_for_cut more rising

/-- The parent of the leaf to which a search leads keeps to its bounds. -/
theorem parent_room {search : InternalPage K → Option PageId} (wellFormed : WellFormed rules tree)
    (searches : Searches search key) (top : tree.rootPageId = some root) {parent : PageId}
    {node : InternalPage K}
    (down : tree.descend search tree.depthBound root [] = .ok (parent :: path, pid, leaf))
    (found : tree.pages parent = some (.inr node)) :
    node.getSize ≤ rules.options.internalMaxSize := by
  obtain ⟨fresh, bare | ⟨root', height, standing⟩⟩ := wellFormed
  · rw [bare] at top
    cases top
  · obtain rfl := Option.some.inj (standing.top.symm.trans top)
    obtain ⟨path', before, fence, pid', after, leaf', same, place⟩ :=
      descend_to_leaf fresh standing searches
    rw [down] at same
    obtain ⟨rfl, rfl, rfl⟩ : parent :: path = path' ∧ pid = pid' ∧ leaf = leaf' := by
      simpa using same
    exact (way_good place.way (leaf_ground standing place).1 parent rfl node found).room

variable [Inhabited K]

/-- A key that is in a leaf, deleted or not, is not inserted. -/
theorem insert_stored (wellFormed : WellFormed rules tree) (stored : Stored tree key) :
    tree.insert rules.options key value = .ok (false, tree) := by
  obtain ⟨fresh, none | ⟨root, height, standing⟩⟩ := wellFormed
  · exact absurd stored (nothing_stored none)
  · obtain ⟨path, before, fence, pid, after, leaf, down, place⟩ :=
      descend_to_leaf fresh standing (searches_child_for key)
    obtain ⟨sorted, _⟩ := leaf_range standing place
    obtain ⟨front, back, whole, lower, low, high⟩ := @lower_bound_cut K V _ leaf key sorted
    have here : Tree.hasKeyAt leaf (Tree.lowerBound leaf key) key = true := by
      rw [lower, has_key_iff sorted whole low high]
      exact (leaf_stored standing place).mp stored
    have optimistic : tree.tryOptimisticInsert rules.options key value = .ok none := by
      simp only [Tree.tryOptimisticInsert, standing.top, down, bind, Except.bind, here,
        if_true, ite_self]
    simp only [Tree.insert, optimistic, bind, Except.bind, Tree.insertPessimistic, standing.top,
      down, here, if_true]

theorem insert_first (roomy : Roomy rules) (fresh : Fresh tree) (bare : tree.rootPageId = none) :
    ∃ grown, tree.insert rules.options key value = .ok (true, grown) ∧ WellFormed rules grown ∧
      ∀ k v, Holds grown k v ↔ (k = key ∧ v = value) ∨ Holds tree k v := by
  obtain ⟨leaf, isLeaf⟩ : ∃ leaf : LeafPage K V, leaf =
      ⟨rules.options.leafMaxSize, none, [(key, value)], []⟩ :=
    ⟨_, rfl⟩
  obtain ⟨grown, isGrown⟩ : ∃ grown, grown =
      { tree.newPage.2.setPage tree.nextPageId (.inl leaf) with
    rootPageId := some tree.nextPageId } := ⟨_, rfl⟩
  have here : grown.pages tree.nextPageId = some (.inl leaf) := by
    rw [isGrown]
    exact Function.update_self _ _ _
  have atLeastTwo := roomy.leaf
  have leafSlots := roomy.leafSlots
  have tombs : TombstonesOk rules leaf.getSize leaf.tombstones := by
    rw [isLeaf]
    exact ⟨Nat.zero_le _, fun _ => ⟨List.nodup_nil, by simp⟩⟩
  have size : leaf.getSize = 1 := by rw [isLeaf]; rfl
  have stands : Standing rules {tree.nextPageId} grown tree.nextPageId 0 := by
    apply single_leaf (by rw [isGrown]) here (by rw [isLeaf]) (by omega) tombs _ (by rw [isLeaf])
    rw [isLeaf]
    exact List.pairwise_singleton _ _
  have freshGrown : Fresh grown := by
    have more : Fresh (tree.newPage.2.setPage tree.nextPageId (.inl leaf)) := fresh_new fresh
    rw [isGrown]
    exact ⟨more.start, more.taken⟩
  refine ⟨grown, ?_, ⟨freshGrown, Or.inr ⟨_, _, stands⟩⟩, fun k v => ?_⟩
  · have optimistic : tree.tryOptimisticInsert rules.options key value = .ok none := by
      simp only [Tree.tryOptimisticInsert, bare]
    have stored : tree.newPage.2.putLeaf rules.options tree.nextPageId leaf =
        .ok (tree.newPage.2.setPage tree.nextPageId (.inl leaf)) := put_leaf (by omega) tombs.1
    rw [isLeaf] at stored
    rw [isGrown, isLeaf]
    simp only [Tree.insert, optimistic, bind, Except.bind, Tree.insertPessimistic, bare,
      LeafPage.insertAt, List.insertIdx_zero, List.map_nil, Tree.new_page_id, stored]
  · have old : ¬Holds tree k v := fun holds => nothing_stored bare (holds_stored holds)
    have none : ¬HeldIn grown.pages [] k v := by
      rintro ⟨slot, member, _⟩
      cases member
    have live : Live leaf k v ↔ k = key ∧ v = value := by
      rw [isLeaf]
      simp [Live, List.getElem?_singleton, eq_comm]
    rw [holds_iff stands, leavesOf, fringe, held_leaf here, live]
    tauto

theorem insert_splits (roomy : Roomy rules) (fresh : Fresh tree)
    (standing : Standing rules {root} tree root height)
    (down : tree.descend (fun page => page.childFor key) tree.depthBound root [] =
      .ok (path, pid, leaf))
    (place : LeafFor rules {root} tree root height key path before fence pid after leaf)
    (missing : Tree.hasKeyAt leaf (Tree.lowerBound leaf key) key = false)
    (isBigger : bigger = leaf.insertAt (Tree.lowerBound leaf key) key value)
    (entered : Entered rules leaf bigger key value fence after)
    (full : bigger.getSize = rules.options.leafMaxSize)
    (slots : ∀ parent ∈ path.head?, ∀ node, tree.pages parent = some (.inr node) →
      node.getSize < rules.options.INTERNAL_PAGE_SLOT_CNT) :
    ∃ grown, tree.insert rules.options key value = .ok (true, grown) ∧ WellFormed rules grown ∧
      ∀ k v, Holds grown k v ↔ (k = key ∧ v = value) ∨ Holds tree k v := by
  obtain ⟨parts, isParts⟩ : ∃ parts, parts =
    bigger.split { maxSize := rules.options.leafMaxSize } := ⟨_, rfl⟩
  obtain ⟨left, isLeft⟩ : ∃ left : LeafPage K V, left =
      { parts.1 with nextPageId := some tree.nextPageId } :=
    ⟨_, rfl⟩
  obtain ⟨right, isRight⟩ : ∃ right : LeafPage K V, right =
      { parts.2 with nextPageId := parts.1.nextPageId } :=
    ⟨_, rfl⟩
  have halves : Halves rules bigger left right tree.nextPageId := by
    rw [isLeft, isRight, isParts]
    exact halved entered.tombstones rfl
  have leftSize := halves.leftSize
  have rightSize := halves.rightSize
  have atLeastTwo := roomy.leaf
  have leafSlots := roomy.leafSlots
  obtain ⟨⟨upKey, up⟩, rest, first⟩ := List.exists_cons_of_ne_nil (show right.entries ≠ [] by
    apply List.ne_nil_of_length_pos
    change 0 < right.getSize
    omega)
  have firstPart : parts.2.entries = (upKey, up) :: rest := by
    rw [isRight] at first
    exact first
  obtain ⟨split, isSplit⟩ : ∃ split, split =
      ((tree.setPage pid (.inl bigger)).newPage.2.setPage tree.nextPageId
    (.inl right)).setPage pid (.inl left) := ⟨_, rfl⟩
  have notNext : pid ≠ tree.nextPageId := by
    intro same
    have missing := next_missing fresh
    rw [← same, place.found] at missing
    cases missing
  have pages : ∀ page, split.pages page = if page = pid then some (.inl left) else
      if page = tree.nextPageId then some (.inl right) else tree.pages page := by
    intro page
    rw [isSplit]
    simp only [Tree.set_pages, Tree.new_page_pages, Function.update_apply]
    split_ifs <;> rfl
  have done : LeafSplit rules tree split pid left right := by
    refine ⟨by rw [isSplit]; rfl, ?_, by rw [pages, if_pos rfl], by rw [pages,
        if_neg notNext.symm, if_pos rfl], fun page notPid notNew => by
          rw [pages, if_neg notPid, if_neg notNew]⟩
    have first : Fresh (tree.setPage pid (.inl bigger)) := fresh_set fresh (by simp [place.found])
    rw [isSplit]
    apply fresh_set (fresh_new first)
    rw [Tree.set_pages, Tree.new_page_pages, Tree.set_next, Function.update_of_ne notNext]
    simp
  obtain ⟨grown, inserted, good, holds⟩ :=
    leaf_splits roomy fresh standing place entered full halves done first slots
  refine ⟨grown, ?_, good, holds⟩
  have isFull : leaf.maxSize ≤ leaf.getSize + 1 := by
    have := entered.size
    rw [place.good.maxSize]
    omega
  have optimistic : tree.tryOptimisticInsert rules.options key value = .ok none := by
    simp only [Tree.tryOptimisticInsert, standing.top, down, bind, Except.bind, if_pos isFull]
  have stored : tree.putLeaf rules.options pid bigger = .ok (tree.setPage pid (.inl bigger)) :=
    put_leaf (by omega) entered.tombstones.1
  have rightStored : (tree.setPage pid (.inl bigger)).newPage.2.putLeaf rules.options
    tree.nextPageId right =
    .ok ((tree.setPage pid (.inl bigger)).newPage.2.setPage tree.nextPageId (.inl right)) :=
    put_leaf (by omega) halves.rightTombs.1
  have leftStored :
      ((tree.setPage pid (.inl bigger)).newPage.2.setPage tree.nextPageId (.inl right)).putLeaf
      rules.options pid left = .ok split := by
    rw [isSplit]
    exact put_leaf (by omega) halves.leftTombs.1
  simp only [Tree.insert, optimistic, bind, Except.bind, Tree.insertPessimistic, standing.top,
    down, missing, ← isBigger, stored, full, ← isParts, ← isRight, Tree.new_page_id, Tree.set_next,
      rightStored, ← isLeft,
    leftStored, ne_eq, not_true_eq_false, if_false, Bool.false_eq_true]
  -- the key that goes up is the first one of the new leaf
  simp only [firstPart, inserted]

theorem insert_new (roomy : Roomy rules) (wellFormed : WellFormed rules tree)
    (absent : ¬Stored tree key) (space : ¬Overflows rules.options tree key) :
    ∃ grown, tree.insert rules.options key value = .ok (true, grown) ∧ WellFormed rules grown ∧
      ∀ k v, Holds grown k v ↔ (k = key ∧ v = value) ∨ Holds tree k v := by
  obtain ⟨fresh, bare | ⟨root, height, standing⟩⟩ := wellFormed
  · exact insert_first roomy fresh bare
  · obtain ⟨path, before, fence, pid, after, leaf, down, place⟩ :=
      descend_to_leaf fresh standing (searches_child_for key)
    obtain ⟨sorted, range⟩ := leaf_range standing place
    have notInLeaf : key ∉ leaf.entries.map Prod.fst :=
      fun inLeaf => absent ((leaf_stored standing place).mpr inLeaf)
    obtain ⟨missing, done⟩ :=
      @entered K V _ leaf key value rules fence after sorted range place.near
        place.good.tombstones notInLeaf
    obtain ⟨bigger, isBigger⟩ : ∃ bigger, bigger =
      leaf.insertAt (Tree.lowerBound leaf key) key value := ⟨_, rfl⟩
    rw [← isBigger] at done
    have size := done.size
    have room := place.good.room
    have leafSlots := roomy.leafSlots
    by_cases small : bigger.getSize < rules.options.leafMaxSize
    · obtain ⟨good, holds⟩ := leaf_takes fresh standing place done small
      refine ⟨tree.setPage pid (.inl bigger), ?_, good, holds⟩
      have notFull : ¬leaf.maxSize ≤ leaf.getSize + 1 := by
        rw [place.good.maxSize]
        omega
      have stored : tree.putLeaf rules.options pid bigger = .ok (tree.setPage pid (.inl bigger)) :=
        put_leaf (by omega) done.tombstones.1
      have optimistic : tree.tryOptimisticInsert rules.options key value = .ok
        (some (tree.setPage pid (.inl bigger))) := by
        simp only [Tree.tryOptimisticInsert, standing.top, down, bind, Except.bind,
          if_neg notFull, missing, ← isBigger, stored]
        rfl
      simp only [Tree.insert, optimistic, bind, Except.bind]
    · apply insert_splits roomy fresh standing down place missing isBigger done (by omega)
      intro parent atFront node found
      by_contra crowded
      obtain ⟨higher, rfl⟩ := List.head?_eq_some_iff.mp atFront
      exact space ⟨root, higher, pid, leaf, parent, node, standing.top, down, notInLeaf,
        by omega, found, by omega⟩

/-- From every well-formed tree, a key that is in no leaf is inserted, and the tree stays
well-formed; a key that is live is not. -/
theorem insert_keeps_tree (options : Options) (leafSize : 2 ≤ options.leafMaxSize)
    (nodeSize : 3 ≤ options.internalMaxSize)
    (leafSlots : options.leafMaxSize < options.LEAF_PAGE_SLOT_CNT)
    (nodeSlots : options.internalMaxSize < options.INTERNAL_PAGE_SLOT_CNT) (tree : Tree K V)
    (wellFormed : WellFormed (fullRules options) tree) (key : K) (value : V) :
    (¬Stored tree key → ∃ grown, tree.insert options key value = .ok (true, grown) ∧
      WellFormed (fullRules options) grown ∧
      ∀ k v, Holds grown k v ↔ (k = key ∧ v = value) ∨ Holds tree k v) ∧
    ((∃ v, Holds tree key v) → tree.insert options key value = .ok (false, tree)) := by
  have two : 2 ≤ options.internalMaxSize := by omega
  have roomy : Roomy (fullRules options) :=
    ⟨leafSize, two, leafSlots.le, nodeSlots.le, le_refl _, le_refl _⟩
  constructor
  · intro absent
    have space : ¬Overflows options tree key := by
      rintro ⟨root, path, pid, leaf, parent, node, top, down, _, _, found, crowded⟩
      have room : node.getSize ≤ options.internalMaxSize :=
        parent_room wellFormed (searches_child_for key) top down found
      omega
    have done :=
      @insert_new K V _ (fullRules options) tree key value _ roomy wellFormed absent space
    exact done
  · rintro ⟨v, live⟩
    have done :=
      @insert_stored K V _ (fullRules options) tree key value _ wellFormed (holds_stored live)
    exact done

theorem leaf_of_one_splits :
    ∃ grown,
      (⟨some 0, fun pid => if pid = 0 then some (.inl ⟨2, none, [(5, 50)], []⟩) else none, 1⟩ :
    Tree Nat Nat).insert ⟨2, 3, 8, 0⟩ 7 70 = .ok (true, grown) ∧ Holds grown 7 70 ∧
      Holds grown 5 50 := by
  obtain ⟨tree, isTree⟩ : ∃ tree : Tree Nat Nat, tree =
      ⟨some 0, fun pid => if pid = 0 then some (.inl ⟨2, none, [(5, 50)], []⟩) else none, 1⟩ :=
        ⟨_, rfl⟩
  have here : tree.pages 0 = some (.inl ⟨2, none, [(5, 50)], []⟩) := by
    rw [isTree]
    rfl
  have fresh : Fresh tree := by
    rw [isTree]
    refine ⟨by decide, fun pid taken => ?_⟩
    by_cases first : pid = 0
    · subst first
      decide
    · simp [first] at taken
  have stands : Standing (fullRules ⟨2, 3, 8, 0⟩) {0} tree 0 0 :=
    single_leaf (by rw [isTree]) here rfl (by decide) ⟨Nat.zero_le _, fun _ =>
      ⟨List.nodup_nil, by simp⟩⟩
      (by simp) rfl
  have old : Holds tree 5 50 := by
    rw [holds_iff stands, leavesOf, fringe, held_leaf here]
    exact Or.inl ⟨0, rfl, by simp⟩
  have absent : ¬Stored tree 7 := by
    rw [stored_iff stands]
    simp [fringe, keys_leaf here]
  obtain ⟨grown, inserted, _, holds⟩ :=
    (insert_keeps_tree ⟨2, 3, 8, 0⟩ (by decide) (by decide) (by decide) (by decide) tree
    ⟨fresh, Or.inr ⟨0, 0, stands⟩⟩ 7 70).1 absent
  rw [isTree] at inserted
  exact ⟨grown, inserted, (holds 7 70).mpr (Or.inl ⟨rfl, rfl⟩), (holds 5 50).mpr (Or.inr old)⟩

end Insertions

end BusTub.BPlusTree
