import BusTub.TreeMending

/-!
One round of the loop of `Remove`: a page that has become too small borrows from a page
beside it or is merged with one. When a round mends the tree, and what it leaves to the
next one.
-/

namespace BusTub.BPlusTree

open SearchForest

/-! ### One round, as the code runs it -/

namespace Window
variable {K V : Type} [LinearOrder K] {window : Window K} {rules : Rules} {tree : Tree K V}
  {root : PageId} {height level : Nat} {writeSet : List PageId}

theorem put_swap (inside : window.In rules tree root height level) (left right : Page K V)
    (page : InternalPage K) :
    ((tree.setPage window.rightPid right).setPage window.leftPid left).setPage
      window.parent (.inr page) =
      window.put tree left right page := by
  simp only [put, Tree.setPage, Function.update_comm (left_not_right inside)]

omit [LinearOrder K] in
theorem put_parent {options : Options} {tree : Tree K V}
    (fits : window.page.getSize ≤ options.INTERNAL_PAGE_SLOT_CNT) {page : InternalPage K}
    (size : page.getSize ≤ window.page.getSize) :
    tree.putInternal options window.parent page = .ok (tree.setPage window.parent (.inr page)) :=
  put_internal (size.trans fits)

theorem page_fits (roomy : Roomy rules) (inside : window.In rules tree root height level) :
    window.page.getSize ≤ rules.options.INTERNAL_PAGE_SLOT_CNT :=
      (window_room inside).trans roomy.nodeSlots

section Leaves
variable {left right : LeafPage K V} {key : K} {value : V} {rest : List (K × V)}

theorem borrow_left_declines (inside : window.In rules tree root height level)
    (atLeft : tree.pages window.leftPid = some (.inl left))
    (atRight : tree.pages window.rightPid = some (.inl right)) (free : window.leftPid ∉ writeSet)
    (declines : left.getSize ≤ left.getMinSize) :
    Tree.borrowLeftLeaf rules.options writeSet tree window.rightPid window.parent
      (window.front.length + 1) =
      .ok none := by
  simp only [Tree.borrowLeftLeaf, parent_page inside, Nat.add_sub_cancel, left_child inside,
    Tree.writePage, if_neg free,
    Tree.leafPage, atLeft, atRight, if_pos declines, bind, Except.bind]

theorem borrow_left_lends (roomy : Roomy rules) (inside : window.In rules tree root height level)
    (atLeft : tree.pages window.leftPid = some (.inl left))
    (atRight : tree.pages window.rightPid = some (.inl right)) (free : window.leftPid ∉ writeSet)
    (lends : left.getMinSize < left.getSize) (list : left.entries = rest ++ [(key, value)])
    (leftFits : left.getSize ≤ rules.options.LEAF_PAGE_SLOT_CNT)
    (rightFits : right.getSize + 1 ≤ rules.options.LEAF_PAGE_SLOT_CNT)
    (leftTombs : left.tombstones.length ≤ rules.options.LEAF_PAGE_TOMB_CNT)
    (rightTombs : right.tombstones.length ≤ rules.options.LEAF_PAGE_TOMB_CNT) :
    Tree.borrowLeftLeaf rules.options writeSet tree window.rightPid window.parent
      (window.front.length + 1) =
      .ok (some (window.put tree (.inl { left with entries := rest })
        (.inl { right with entries := (key, value) :: right.entries })
        (window.page.setKeyAt (window.front.length + 1) key))) := by
  have moved : left.moveLastToFrontOf right =
      ({ left with entries := rest }, { right with entries := (key, value) :: right.entries }) := by
    simp [LeafPage.moveLastToFrontOf, list]
  have shorter : rest.length ≤ left.getSize := by
    rw [LeafPage.getSize, list, List.length_append]
    omega
  have storesLeft := @put_leaf K V tree window.leftPid { left with entries := rest } rules.options
    (shorter.trans leftFits) leftTombs
  have storesRight (tree : Tree K V) :=
    @put_leaf K V tree window.rightPid
    { right with entries := (key, value) :: right.entries } rules.options rightFits rightTombs
  have storesParent (tree : Tree K V) :=
    @put_parent K V window rules.options tree (page_fits roomy inside)
      (window.page.setKeyAt (window.front.length + 1) key) (List.length_modify _ _ _).le
  simp only [Tree.borrowLeftLeaf, parent_page inside, Nat.add_sub_cancel, left_child inside,
    Tree.writePage, if_neg free,
    Tree.leafPage, atLeft, atRight, if_neg (Nat.not_le.mpr lends), bind, Except.bind, moved,
      storesLeft, storesRight,
    Tree.firstKey, storesParent, put]

theorem borrow_right_declines (inside : window.In rules tree root height level)
    (atLeft : tree.pages window.leftPid = some (.inl left))
    (atRight : tree.pages window.rightPid = some (.inl right)) (free : window.rightPid ∉ writeSet)
    (declines : right.getSize ≤ right.getMinSize) :
    Tree.borrowRightLeaf rules.options writeSet tree window.leftPid window.parent
      window.front.length = .ok none := by
  simp only [Tree.borrowRightLeaf, parent_page inside, right_child inside,
    Tree.writePage, if_neg free, Tree.leafPage, atLeft, atRight, if_pos declines, bind, Except.bind]

theorem borrow_right_lends {next : K} {other : V} (roomy : Roomy rules)
    (inside : window.In rules tree root height level)
    (atLeft : tree.pages window.leftPid = some (.inl left))
    (atRight : tree.pages window.rightPid = some (.inl right)) (free : window.rightPid ∉ writeSet)
    (lends : right.getMinSize < right.getSize)
    (list : right.entries = (key, value) :: (next, other) :: rest)
    (leftFits : left.getSize + 1 ≤ rules.options.LEAF_PAGE_SLOT_CNT)
    (rightFits : right.getSize ≤ rules.options.LEAF_PAGE_SLOT_CNT)
    (leftTombs : left.tombstones.length ≤ rules.options.LEAF_PAGE_TOMB_CNT)
    (rightTombs : right.tombstones.length ≤ rules.options.LEAF_PAGE_TOMB_CNT) :
    Tree.borrowRightLeaf rules.options writeSet tree window.leftPid window.parent
      window.front.length =
      .ok (some (window.put tree (.inl { left with entries := left.entries ++ [(key, value)] })
        (.inl { right with entries := (next, other) :: rest })
        (window.page.setKeyAt (window.front.length + 1) next))) := by
  have moved : right.moveFirstToEndOf left =
      ({ right with entries := (next, other) :: rest },
        { left with entries := left.entries ++ [(key, value)] }) := by
    simp [LeafPage.moveFirstToEndOf, list]
  have shorter : ((next, other) :: rest).length ≤ right.getSize := by
    rw [LeafPage.getSize, list]
    exact Nat.le_succ _
  have longer : (left.entries ++ [(key, value)]).length = left.getSize + 1 := List.length_append
  have storesRight :=
    @put_leaf K V tree window.rightPid { right with
      entries := (next, other) :: rest } rules.options
      (shorter.trans rightFits) rightTombs
  have storesLeft (tree : Tree K V) :=
    @put_leaf K V tree window.leftPid { left with
      entries := left.entries ++ [(key, value)] } rules.options
    (longer.trans_le leftFits) leftTombs
  have storesParent (tree : Tree K V) :=
    @put_parent K V window rules.options tree (page_fits roomy inside)
      (window.page.setKeyAt (window.front.length + 1) next) (List.length_modify _ _ _).le
  simp only [Tree.borrowRightLeaf, parent_page inside, right_child inside,
    Tree.writePage, if_neg free, Tree.leafPage, atLeft, atRight, if_neg (Nat.not_le.mpr lends),
      bind, Except.bind, moved, storesLeft, storesRight,
    Tree.firstKey, storesParent, put_swap inside]

theorem merge_leaves_merges (roomy : Roomy rules) (inside : window.In rules tree root height level)
    (atLeft : tree.pages window.leftPid = some (.inl left))
    (atRight : tree.pages window.rightPid = some (.inl right))
    (fits : left.getSize + right.getSize ≤ rules.options.LEAF_PAGE_SLOT_CNT)
    (leftTombs : left.tombstones.length ≤ rules.options.LEAF_PAGE_TOMB_CNT)
    (rightTombs : right.tombstones.length ≤ rules.options.LEAF_PAGE_TOMB_CNT) :
    Tree.mergeLeaves rules.options tree window.parent window.leftPid window.rightPid
      (window.front.length + 1) =
      .ok (window.put tree (.inl (right.moveAllTo left)) (.inl { right with entries := [] })
        (window.page.removeAt (window.front.length + 1)), window.rightPid) := by
  have longer : (left.entries ++ right.entries).length = left.getSize + right.getSize :=
    List.length_append
  have storesLeft :=
    @put_leaf K V tree window.leftPid (right.moveAllTo left) rules.options (longer.trans_le fits)
      leftTombs
  have storesRight (tree : Tree K V) :=
    @put_leaf K V tree window.rightPid { right with entries := [] } rules.options
      (Nat.zero_le _) rightTombs
  have storesParent (tree : Tree K V) :=
    @put_parent K V window rules.options tree (page_fits roomy inside)
      (window.page.removeAt (window.front.length + 1)) (List.length_eraseIdx_le _ _)
  simp only [Tree.mergeLeaves, parent_page inside, Tree.leafPage, atLeft, atRight, bind,
    Except.bind, storesLeft, storesRight, storesParent, put]

end Leaves

section Nodes
variable [Inhabited K] {left right : InternalPage K} {key first : K} {child value : PageId}
  {lent rest : List (K × PageId)}

omit [Inhabited K] in
theorem right_key (inside : window.In rules tree root height level) :
    Tree.keyAt window.page (window.front.length + 1) = .ok window.rightKey := by
  simp [Tree.keyAt, inside.list]

theorem borrow_left_node_declines (inside : window.In rules tree root height level)
    (atLeft : tree.pages window.leftPid = some (.inr left))
    (atRight : tree.pages window.rightPid = some (.inr right)) (free : window.leftPid ∉ writeSet)
    (declines : left.getSize ≤ left.getMinSize) :
    Tree.borrowLeftInternal rules.options writeSet tree window.rightPid window.parent
      (window.front.length + 1) =
      .ok none := by
  simp only [Tree.borrowLeftInternal, Nat.add_sub_cancel, left_child inside, Tree.writePage,
    if_neg free, Tree.internalPage, atLeft, atRight, inside.found, if_pos declines,
      bind, Except.bind]

theorem borrow_left_node_lends (roomy : Roomy rules)
    (inside : window.In rules tree root height level)
    (atLeft : tree.pages window.leftPid = some (.inr left))
    (atRight : tree.pages window.rightPid = some (.inr right)) (free : window.leftPid ∉ writeSet)
    (lends : left.getMinSize < left.getSize) (leftList : left.entries = lent ++ [(key, child)])
    (rightList : right.entries = (first, value) :: rest)
    (leftFits : left.getSize ≤ rules.options.INTERNAL_PAGE_SLOT_CNT)
    (rightFits : right.getSize + 1 ≤ rules.options.INTERNAL_PAGE_SLOT_CNT) :
    Tree.borrowLeftInternal rules.options writeSet tree window.rightPid window.parent
      (window.front.length + 1) =
      .ok (some (window.put tree (.inr { left with entries := lent })
        (.inr { right with entries := (first, child) :: (window.rightKey, value) :: rest })
        (window.page.setKeyAt (window.front.length + 1) key))) := by
  have moved : left.moveLastToFrontOf right window.rightKey = ({ left with entries := lent },
      { right with entries := (first, child) :: (window.rightKey, value) :: rest }, key) := by
    simp [InternalPage.moveLastToFrontOf, leftList, rightList]
  have shorter : lent.length ≤ left.getSize := by
    rw [InternalPage.getSize, leftList, List.length_append]
    omega
  have longer : ((first, child) :: (window.rightKey, value) :: rest).length =
      right.getSize + 1 := by
    rw [InternalPage.getSize, rightList]
    rfl
  have storesLeft :=
    @put_internal K V tree rules.options window.leftPid { left with entries := lent }
      (shorter.trans leftFits)
  have storesRight (tree : Tree K V) := @put_internal K V tree rules.options window.rightPid
    { right with entries := (first, child) :: (window.rightKey, value) :: rest }
      (longer.trans_le rightFits)
  have storesParent (tree : Tree K V) :=
    @put_parent K V window rules.options tree (page_fits roomy inside)
      (window.page.setKeyAt (window.front.length + 1) key) (List.length_modify _ _ _).le
  simp only [Tree.borrowLeftInternal, Nat.add_sub_cancel, left_child inside, Tree.writePage,
    if_neg free, Tree.internalPage, atLeft, atRight, inside.found, if_neg (Nat.not_le.mpr lends),
      bind, Except.bind,
    right_key inside, moved, storesLeft, storesRight, storesParent, put]

theorem borrow_right_node_declines (inside : window.In rules tree root height level)
    (atLeft : tree.pages window.leftPid = some (.inr left))
    (atRight : tree.pages window.rightPid = some (.inr right)) (free : window.rightPid ∉ writeSet)
    (declines : right.getSize ≤ right.getMinSize) :
    Tree.borrowRightInternal rules.options writeSet tree window.leftPid window.parent
      window.front.length =
      .ok none := by
  simp only [Tree.borrowRightInternal, right_child inside, Tree.writePage, if_neg free,
    Tree.internalPage, atLeft, atRight, inside.found, if_pos declines, bind, Except.bind]

omit [Inhabited K] in
theorem merge_nodes_merges (roomy : Roomy rules) (inside : window.In rules tree root height level)
    (atLeft : tree.pages window.leftPid = some (.inr left))
    (atRight : tree.pages window.rightPid = some (.inr right))
    (rightList : right.entries = (first, value) :: rest)
    (fits : left.getSize + right.getSize ≤ rules.options.INTERNAL_PAGE_SLOT_CNT) :
    Tree.mergeInternals rules.options tree window.parent window.leftPid window.rightPid
      (window.front.length + 1) =
      .ok (window.put tree
        (.inr { left with entries := left.entries ++ (window.rightKey, value) :: rest })
        (.inr { right with entries := [] }) (window.page.removeAt (window.front.length + 1)),
          window.rightPid) := by
  have moved : right.moveAllTo left window.rightKey =
      { left with entries := left.entries ++ (window.rightKey, value) :: rest } := by
    simp [InternalPage.moveAllTo, rightList]
  have nonempty : right.entries ≠ [] := by simp [rightList]
  have longer : (left.entries ++ (window.rightKey, value) :: rest).length =
      left.getSize + right.getSize := by
    rw [InternalPage.getSize, InternalPage.getSize, rightList, List.length_append]
    rfl
  have storesLeft := @put_internal K V tree rules.options window.leftPid
    { left with entries := left.entries ++ (window.rightKey, value) :: rest } (longer.trans_le fits)
  have storesRight (tree : Tree K V) := @put_internal K V tree rules.options window.rightPid
    { right with entries := [] } (Nat.zero_le _)
  have storesParent (tree : Tree K V) :=
    @put_parent K V window rules.options tree (page_fits roomy inside)
      (window.page.removeAt (window.front.length + 1)) (List.length_eraseIdx_le _ _)
  simp only [Tree.mergeInternals, Tree.internalPage, atLeft, atRight, inside.found,
    bind, Except.bind, right_key inside, if_neg nonempty, moved, storesLeft, storesRight,
      storesParent, put]

end Nodes

end Window

section Loop
variable {K V : Type}

/-! What leaves and internal pages have in common. -/

def BPlusTreePage.getSize : Page K V → Nat
  | .inl leaf => leaf.getSize
  | .inr page => page.getSize

def BPlusTreePage.getMinSize : Page K V → Nat
  | .inl leaf => leaf.getMinSize
  | .inr page => page.getMinSize

def CanLend (tree : Tree K V) (pid : PageId) : Prop :=
  ∃ page, tree.pages pid = some page ∧ BPlusTreePage.getMinSize page < BPlusTreePage.getSize page

def LeftOf (tree : Tree K V) (parent node left : PageId) : Prop :=
  ∃ page index, tree.pages parent = some (.inr page) ∧ page.valueIndex node = some (index + 1) ∧
    page.valueAt index = some left

def RightOf (tree : Tree K V) (parent node right : PageId) : Prop :=
  ∃ page index, tree.pages parent = some (.inr page) ∧ page.valueIndex node = some index ∧
    page.valueAt (index + 1) = some right

def Settles (tree : Tree K V) (left right : PageId) (move : LeafMoves.LeafMove) : Prop :=
  ∀ leftLeaf rightLeaf, tree.pages left = some (.inl leftLeaf) →
    tree.pages right = some (.inl rightLeaf) → move.Settled leftLeaf rightLeaf

/-- Where a page has an entry or a child less, the loop mends the tree: no page is dropped that has
no page beside it, no internal page asks the one on its right, and no tombstone is left behind. -/
def Mends (tree : Tree K V) (node : PageId) : List PageId → Prop
  | [] => True
  | parent :: upper =>
      CanLend tree node ∨
        (∃ left, LeftOf tree parent node left ∧ CanLend tree left ∧
          Settles tree left node .moveLastToFrontOf) ∨
            ((∀ left, LeftOf tree parent node left → ¬CanLend tree left) ∧
            (∃ leaf, tree.pages node = some (.inl leaf)) ∧
          ∃ right, RightOf tree parent node right ∧ CanLend tree right ∧
            Settles tree node right .moveFirstToEndOf) ∨
        ((∀ other, LeftOf tree parent node other ∨ RightOf tree parent node other →
          ¬CanLend tree other) ∧
            ((∃ left, LeftOf tree parent node left ∧ Settles tree left node .moveAllTo) ∨
              ((∀ left, ¬LeftOf tree parent node left) ∧ ∃ right, RightOf tree parent node right ∧
                Settles tree node right .moveAllTo)) ∧
          Mends tree parent upper)

def Less : Page K V → Page K V → Prop
  | .inl old, .inl new =>
      new.maxSize = old.maxSize ∧ new.getSize + 1 = old.getSize ∧
        (old.tombstones = [] → new.tombstones = [])
  | .inr old, .inr new => new.maxSize = old.maxSize ∧ new.getSize + 1 = old.getSize
  | _, _ => False

theorem less_small {old new : Page K V} (less : Less old new) :
    Tree.isSmall new = true ↔ ¬BPlusTreePage.getMinSize old < BPlusTreePage.getSize old := by
  cases old with
  | inl old =>
      cases new with
      | inl new =>
          obtain ⟨maxSize, size, -⟩ := less
          simp only [Tree.isSmall, BPlusTreePage.getMinSize, BPlusTreePage.getSize,
            LeafPage.getMinSize, maxSize, decide_eq_true_eq]
          omega
      | inr new => exact less.elim
  | inr old =>
      cases new with
      | inl new => exact less.elim
      | inr new =>
          obtain ⟨maxSize, size⟩ := less
          simp only [Tree.isSmall, BPlusTreePage.getMinSize, BPlusTreePage.getSize,
            InternalPage.getMinSize, maxSize, decide_eq_true_eq]
          omega

section Rounds
variable {options : Options} {tree after : Tree K V} {node parent other gone : PageId} {index : Nat}
  {borrowLeft borrowRight : Except Fault (Option (Tree K V))}
  {merge : PageId → PageId → Nat → Except Fault (Tree K V × PageId)} {parentPage : InternalPage K}

theorem repair_left (lends : borrowLeft = .ok (some after)) :
    Tree.repairNode options tree node parent (index + 1) borrowLeft borrowRight merge parentPage =
      .ok (after, none) := by
  simp only [Tree.repairNode, Nat.succ_pos, if_true, lends, bind, Except.bind]

theorem repair_right (left : 0 < index → borrowLeft = .ok none)
    (there : index + 1 < parentPage.getSize) (lends : borrowRight = .ok (some after)) :
    Tree.repairNode options tree node parent index borrowLeft borrowRight merge parentPage =
      .ok (after, none) := by
  by_cases first : 0 < index
  · simp only [Tree.repairNode, if_pos first, left first, if_pos there, lends, bind, Except.bind]
  · simp only [Tree.repairNode, if_neg first, if_pos there, lends, bind, Except.bind]

theorem repair_merge_left (declines : borrowLeft = .ok none)
    (right : index + 1 + 1 < parentPage.getSize → borrowRight = .ok none)
    (child : Tree.childAt parentPage index = .ok other)
    (merged : merge other node (index + 1) = .ok (after, gone)) :
    Tree.repairNode options tree node parent (index + 1) borrowLeft borrowRight merge parentPage =
      .ok (after, some gone) := by
  by_cases there : index + 1 + 1 < parentPage.getSize
  · simp only [Tree.repairNode, Nat.succ_pos, if_true, declines, if_pos there, right there,
      Nat.add_sub_cancel, child, merged, bind, Except.bind]
  · simp only [Tree.repairNode, Nat.succ_pos, if_true, declines, if_neg there, Nat.add_sub_cancel,
      child, merged, bind, Except.bind]

theorem repair_merge_right (there : 0 + 1 < parentPage.getSize) (declines : borrowRight = .ok none)
    (child : Tree.childAt parentPage (0 + 1) = .ok other)
    (merged : merge node other (0 + 1) = .ok (after, gone)) :
    Tree.repairNode options tree node parent 0 borrowLeft borrowRight merge parentPage =
      .ok (after, some gone) := by
  simp only [Tree.repairNode, Nat.lt_irrefl, if_false, if_pos there, declines, child, merged,
    bind, Except.bind]

end Rounds

variable [LinearOrder K] {rules : Rules} {base tree : Tree K V} {root node parent : PageId}
  {height level : Nat} {writeSet doomed path upper : List PageId} {before after : Row K PageId}
  {fence : WithBot K}

/-- The loop at a page that has an entry or a child less than in the tree in which the
removal began. At this level and above, nothing else has changed yet. -/
structure Short (rules : Rules) (base tree : Tree K V) (root : PageId) (height level : Nat)
    (writeSet doomed path : List PageId) (before : Row K PageId) (fence : WithBot K) (node : PageId)
    (after : Row K PageId) : Prop where
  ground : Standing rules Set.univ base root height
  full : Filled rules {root} base
  way : Descent InternalPage.entries base.pages root path before fence node after
  depth : level + path.length = height
  stands : Standing rules Set.univ tree root height
  filled : Filled rules {root, node} tree
  fresh : Fresh tree
  kept : ∀ pid above low, level < above → TreeForest rules Set.univ base.pages above [(low, pid)] →
    tree.pages pid = base.pages pid
  siblings : ∀ slot ∈ before ++ after, tree.pages slot.2 = base.pages slot.2
  smaller : ∃ old new, base.pages node = some old ∧ tree.pages node = some new ∧ Less old new
  writes : ∃ lower, writeSet = lower ++ node :: path ∧
    ∀ pid ∈ lower, ∃ above low, above < level ∧
      TreeForest rules Set.univ base.pages above [(low, pid)]
  before : ∀ pid, Reached tree pid → Reached base pid
  gone : ∀ pid ∈ doomed, ¬Reached tree pid ∧ Reached base pid
  rest : ∀ pid, Reached base pid → Reached tree pid ∨ pid ∈ doomed

section Facts
variable (short : Short rules base tree root height level writeSet doomed path before
  fence node after) {slot : WithBot K × PageId}

include short

theorem short_ground :
    TreeForest rules Set.univ base.pages (level + path.length) [((⊥ : WithBot K), root)] :=
  short.depth ▸ short.ground.forest

theorem short_row : TreeForest rules Set.univ base.pages level (before ++ (fence, node) :: after) :=
  descent_row short.way ▸ forest_fringe (short_ground short)

theorem short_unique : ((before ++ (fence, node) :: after).map Prod.snd).Nodup := by
  apply pages_nodup (short_row short)
  have lowest : fringe InternalPage.entries base.pages level (before ++ (fence, node) :: after) =
      leavesOf base.pages root height := by
    rw [← descent_row short.way, fringe_fringe, Nat.add_comm, short.depth]
  rw [lowest]
  exact short.ground.unique

theorem short_apart : ∀ slot ∈ before ++ after, slot.2 ≠ node := by
  have unique := short_unique short
  rw [List.map_append, List.map_cons, List.nodup_middle, List.nodup_cons, ← List.map_append]
    at unique
  exact fun slot member same => unique.1 (List.mem_map.mpr ⟨slot, member, same⟩)

theorem path_higher : ∀ pid ∈ path, ∃ above low, level < above ∧
    TreeForest rules Set.univ base.pages above [(low, pid)] :=
      descent_levels short.way (short_ground short)

theorem sibling_free (member : slot ∈ before ++ after) :
    slot.2 ∉ writeSet := by
  obtain ⟨lower, rfl, below⟩ := short.writes
  have inRow : slot ∈ before ++ (fence, node) :: after := by
    simp only [List.mem_append, List.mem_cons] at member ⊢
    tauto
  have here := forest_mem (short_row short) inRow
  intro locked
  rcases List.mem_append.mp locked with inLower | inWay
  · obtain ⟨above, low, lower, there⟩ := below slot.2 inLower
    have := height_unique here there
    omega
  · rcases List.mem_cons.mp inWay with same | inPath
    · exact short_apart short slot member same
    · obtain ⟨above, low, higher, there⟩ := path_higher short slot.2 inPath
      have := height_unique here there
      omega

theorem sibling_lends (member : slot ∈ before ++ after) {page : Page K V}
    (found : tree.pages slot.2 = some page) :
    CanLend base slot.2 ↔ BPlusTreePage.getMinSize page < BPlusTreePage.getSize page := by
  rw [short.siblings slot member] at found
  constructor
  · rintro ⟨other, there, lends⟩
    obtain rfl := Option.some.inj (found.symm.trans there)
    exact lends
  · exact fun lends => ⟨page, found, lends⟩

end Facts

/-! Where a page lies under its parent. -/

structure Under (base : Tree K V) (root : PageId) (parent : PageId) (upper : List PageId)
    (before : Row K PageId) (fence : WithBot K) (node : PageId) (after above : Row K PageId)
    (low : WithBot K) (beside : Row K PageId) (page : InternalPage K) (left : List (K × PageId))
    (key : K) (right : List (K × PageId)) : Prop where
  way : Descent InternalPage.entries base.pages root upper above low parent beside
  found : base.pages parent = some (.inr page)
  list : page.entries = left ++ (key, node) :: right
  before : before = expand InternalPage.entries base.pages above ++ refence low left
  after : after = raise right ++ expand InternalPage.entries base.pages beside

omit [LinearOrder K] in
theorem under_parent
    (way : Descent InternalPage.entries base.pages root (parent :: upper) before fence node after) :
    ∃ above low beside page left key right,
      Under base root parent upper before fence node after above low beside page left
        key right := by
  cases way with
  | down way found list => exact ⟨_, _, _, _, _, _, _, way, found, list, rfl, rfl⟩

section Under
variable {above beside : Row K PageId} {low : WithBot K} {page : InternalPage K}
  {left right : List (K × PageId)} {key : K} {other : PageId}
  (short : Short rules base tree root height level writeSet doomed (parent :: upper) before
    fence node after)
  (under : Under base root parent upper before fence node after above low beside page
    left key right)

include under

omit [LinearOrder K] in
theorem left_slot (member : other ∈ left.map Prod.snd) :
    ∃ slot ∈ before ++ after, slot.2 = other := by
  rw [← refence_pages low] at member
  obtain ⟨slot, inside, same⟩ := List.mem_map.mp member
  refine ⟨slot, ?_, same⟩
  rw [under.before]
  exact List.mem_append_left _ (List.mem_append_right _ inside)

omit [LinearOrder K] in
theorem right_slot (member : other ∈ right.map Prod.snd) :
    ∃ slot ∈ before ++ after, slot.2 = other := by
  rw [← raise_pages] at member
  obtain ⟨slot, inside, same⟩ := List.mem_map.mp member
  refine ⟨slot, ?_, same⟩
  rw [under.after]
  exact List.mem_append_right _ (List.mem_append_left _ inside)

include short

omit under in
theorem under_ground :
    TreeForest rules Set.univ base.pages (level + 1 + upper.length) [((⊥ : WithBot K), root)] := by
  have ground := short_ground short
  rwa [List.length_cons, show level + (upper.length + 1) =
    level + 1 + upper.length by omega] at ground

theorem under_upper :
    TreeForest rules Set.univ base.pages (level + 1) (above ++ (low, parent) :: beside) :=
  descent_row under.way ▸ forest_fringe (under_ground short)

theorem under_same : ∀ slot ∈ above ++ (low, parent) :: beside, tree.pages slot.2 =
    base.pages slot.2 :=
  fun slot member =>
    short.kept slot.2 (level + 1) slot.1 (Nat.lt_succ_self _)
      (forest_mem (under_upper short under) member)

theorem under_found : tree.pages parent = some (.inr page) :=
  (under_same short under (low, parent) (by simp)).trans under.found

theorem under_way : Descent InternalPage.entries tree.pages root upper above low parent beside :=
  descent_kept under.way (under_ground short) fun pid above low higher =>
    short.kept pid above low (by omega)

omit under in
theorem under_depth : level + 1 + upper.length = height := by
  have depth := short.depth
  rw [List.length_cons] at depth
  omega

theorem under_place : page.valueIndex node = some left.length := by
  apply NodeMoves.value_index_at under.list
  intro inLeft
  obtain ⟨slot, member, same⟩ := left_slot under inLeft
  exact short_apart short slot member same

theorem left_window {front : List (K × PageId)} {leftKey : K} {leftPid : PageId}
    (list : left = front ++ [(leftKey, leftPid)]) :
    Window.In ⟨upper, above, low, parent, beside, page, front, leftKey, leftPid, key, node,
      right⟩ rules tree root
      height level := by
  refine ⟨short.stands, under_way short under, under_depth short, under_found short under, ?_⟩
  simpa [list] using under.list

theorem right_window {back : List (K × PageId)} {rightKey : K} {rightPid : PageId}
    (list : right = (rightKey, rightPid) :: back) :
    Window.In ⟨upper, above, low, parent, beside, page, left, key, node, rightKey, rightPid,
      back⟩ rules tree root
      height level := by
  refine ⟨short.stands, under_way short under, under_depth short, under_found short under, ?_⟩
  simpa [list] using under.list

theorem left_of_iff : LeftOf base parent node other ↔
    ∃ front leftKey, left = front ++ [(leftKey, other)] := by
  have place := under_place short under
  constructor
  -- the entry before the one at `ValueIndex` is the last of the left part
  · rintro ⟨content, index, found, there, value⟩
    obtain rfl := Sum.inr.inj (Option.some.inj (found.symm.trans under.found))
    have size : left.length = index + 1 := Option.some.inj (place.symm.trans there)
    rcases List.eq_nil_or_concat left with rfl | ⟨front, ⟨leftKey, leftPid⟩, rfl⟩
    · cases size
    · have same : index = front.length := by
        rw [List.length_concat] at size
        omega
      rw [InternalPage.valueAt, under.list, same] at value
      have first : leftPid = other := by simpa using value
      exact ⟨front, leftKey, by rw [List.concat_eq_append, first]⟩
  · rintro ⟨front, leftKey, rfl⟩
    refine ⟨page, front.length, under.found, by simpa using place, ?_⟩
    simp [InternalPage.valueAt, under.list]

theorem right_of_iff : RightOf base parent node other ↔
    ∃ rightKey back, right = (rightKey, other) :: back := by
  have place := under_place short under
  constructor
  · rintro ⟨content, index, found, there, value⟩
    obtain rfl := Sum.inr.inj (Option.some.inj (found.symm.trans under.found))
    obtain rfl : left.length = index := Option.some.inj (place.symm.trans there)
    rw [InternalPage.valueAt, under.list] at value
    cases right with
    | nil => simp at value
    | cons entry back =>
        have first : entry.2 = other := by simpa using value
        exact ⟨entry.1, back, by rw [← first]⟩
  · rintro ⟨rightKey, back, rfl⟩
    refine ⟨page, left.length, under.found, place, ?_⟩
    simp [InternalPage.valueAt, under.list]

end Under

inductive Outcome (rules : Rules) (base tree : Tree K V) (root : PageId) (height : Nat)
    (node parent : PageId) (upper : List PageId) (page : InternalPage K)
    (row : Row K PageId) : Tree K V × Option PageId → Prop where
  | settled {result : Tree K V} :
      Window.Round rules {root, node} {root} [] tree result root height → Window.Keeps tree result →
      Outcome rules base tree root height node parent upper page row (result, none)
  | climbed {result : Tree K V} {gone : PageId} {smaller : InternalPage K}
      {slot : WithBot K × PageId} :
      Window.Round rules {root, node} {root, parent} [gone] tree result root height →
        Window.Keeps tree result →
      ¬Reached result gone → Reached tree gone → Mends base parent upper → slot ∈ row →
      result.pages parent = some (.inr smaller) → Less (.inr page : Page K V) (.inr smaller) →
      (∀ pid, pid ≠ parent → pid ≠ node → pid ≠ slot.2 → result.pages pid = tree.pages pid) →
      Outcome rules base tree root height node parent upper page row (result, some gone)

/-- The page is repaired, and the round has one of its outcomes. -/
def RoundEnds [Inhabited K] (rules : Rules) (base tree : Tree K V) (root : PageId) (height : Nat)
    (writeSet : List PageId) (node parent : PageId) (upper : List PageId) (page : InternalPage K)
    (row : Row K PageId) (index : Nat) (content : Page K V) : Prop :=
  ∃ result, Tree.repairPage rules.options writeSet tree node parent index page content =
    .ok result ∧ Outcome rules base tree root height node parent upper page row result

namespace Window
variable {window : Window K}

theorem less_parent (inside : window.In rules tree root height level) :
    Less (.inr window.page : Page K V) (.inr (window.page.removeAt (window.front.length + 1))) := by
  refine ⟨rfl, ?_⟩
  have size := window_size inside
  have list := remove_list inside
  rw [size, InternalPage.getSize, list]
  simp only [List.length_append, List.length_cons, List.length_nil]
  omega

end Window

section Rounds
variable {above beside : Row K PageId} {low : WithBot K} {page : InternalPage K}
  {left right : List (K × PageId)} {key : K} {other : PageId} (roomy : Roomy rules)
  (short : Short rules base tree root height level writeSet doomed (parent :: upper) before
    fence node after)
  (under : Under base root parent upper before fence node after above low beside page
    left key right) {content : Page K V}

include short under

/-- What a page that is not the root has at least, if it is not the short one. -/
theorem parent_full (notShort : parent ≠ node) : parent ∉ ({root} : Set PageId) →
    rules.lowNode ≤ page.getSize := by
  intro notRoot
  have found := under_found short under
  have member : (low, parent) ∈ fringe InternalPage.entries tree.pages upper.length
    [((⊥ : WithBot K), root)] := by
    rw [descent_row (under_way short under)]
    simp
  apply short.filled parent (.inr page) (reached_row short.stands.top _ _ member) _ found
  simp only [Set.mem_insert_iff, Set.mem_singleton_iff, not_or] at notRoot ⊢
  exact ⟨notRoot, notShort⟩

omit under in
theorem sibling_full {slot : WithBot K × PageId} (member : slot ∈ before ++ after)
    (found : base.pages slot.2 = some content) : Full rules content := by
  have inRow : slot ∈ before ++ (fence, node) :: after := by
    simp only [List.mem_append, List.mem_cons] at member ⊢
    tauto
  apply short.full slot.2 content _ _ found
  · rw [← descent_row short.way] at inRow
    exact reached_row short.ground.top _ _ inRow
  · simp only [Set.mem_singleton_iff]
    exact beside_not_root short.way (short_ground short) slot member

omit under in
theorem node_full (found : base.pages node = some content) :
    Full rules content := by
  apply short.full node content _ _ found
  · have inRow : (fence, node) ∈ before ++ (fence, node) :: after := by simp
    rw [← descent_row short.way] at inRow
    exact reached_row short.ground.top _ _ inRow
  · rintro atRoot
    -- the root would be a page of two heights
    have here := forest_fence ⊥ (forest_mem (short_row short) (show (fence, node) ∈ _ by simp))
    rw [Set.mem_singleton_iff.mp atRoot] at here
    have := height_unique here short.ground.forest
    have := under_depth short
    omega

end Rounds

theorem excused {first second : PageId} {more : Set PageId} (shortIs : node = first ∨ node = second)
    (atRoot : root ∈ more) :
    ∀ pid, pid ∉ more → pid ≠ first → pid ≠ second → pid ∉ ({root, node} : Set PageId) := by
  rintro pid strict notFirst notSecond (rfl | same)
  · exact strict atRoot
  · obtain rfl := Set.mem_singleton_iff.mp same
    exact shortIs.elim notFirst notSecond

/-! Which of the pages beside it a short page turns to. -/

def LeftSpent (base : Tree K V) (left : List (K × PageId)) (row : Row K PageId) : Prop :=
  ∀ front leftKey (slot : WithBot K × PageId), left = front ++ [(leftKey, slot.2)] → slot ∈ row →
    ¬CanLend base slot.2

def RightSpent (base : Tree K V) (right : List (K × PageId)) (row : Row K PageId) : Prop :=
  ∀ rightKey back (slot : WithBot K × PageId), right = (rightKey, slot.2) :: back → slot ∈ row →
    ¬CanLend base slot.2

inductive Choice (base : Tree K V) (node : PageId) (left right : List (K × PageId))
    (row : Row K PageId)
    (mended : Prop) : Prop where
  | fromLeft {front : List (K × PageId)} {leftKey : K} {slot : WithBot K × PageId} :
      left = front ++ [(leftKey, slot.2)] → slot ∈ row → CanLend base slot.2 →
      Settles base slot.2 node .moveLastToFrontOf → Choice base node left right row mended
  | fromRight {back : List (K × PageId)} {rightKey : K} {slot : WithBot K × PageId} :
      (∃ leaf, base.pages node = some (.inl leaf)) →
        right = (rightKey, slot.2) :: back → slot ∈ row → CanLend base slot.2 →
          Settles base node slot.2 .moveFirstToEndOf → LeftSpent base left row →
      Choice base node left right row mended
  | intoLeft {front : List (K × PageId)} {leftKey : K} {slot : WithBot K × PageId} :
      left = front ++ [(leftKey, slot.2)] → slot ∈ row → ¬CanLend base slot.2 →
      Settles base slot.2 node .moveAllTo → mended → RightSpent base right row →
        Choice base node left right row mended
  | fromBehind {back : List (K × PageId)} {rightKey : K} {slot : WithBot K × PageId} :
      left = [] → right = (rightKey, slot.2) :: back → slot ∈ row → ¬CanLend base slot.2 →
      Settles base node slot.2 .moveAllTo → mended → Choice base node left right row mended

section Choices
variable {above beside : Row K PageId} {low : WithBot K} {page : InternalPage K}
  {left right : List (K × PageId)} {key : K}
  (short : Short rules base tree root height level writeSet doomed (parent :: upper) before
    fence node after)
  (under : Under base root parent upper before fence node after above low beside page
    left key right)

include under

omit [LinearOrder K] in
theorem left_neighbour (more : left ≠ []) : ∃ front leftKey, ∃ slot : WithBot K × PageId,
    left = front ++ [(leftKey, slot.2)] ∧ slot ∈ before ++ after := by
  rcases List.eq_nil_or_concat left with nothing | ⟨front, ⟨leftKey, leftPid⟩, list⟩
  · exact absurd nothing more
  · rw [List.concat_eq_append] at list
    obtain ⟨slot, member, rfl⟩ := left_slot under (show leftPid ∈ left.map Prod.snd by simp [list])
    exact ⟨front, leftKey, slot, list, member⟩

omit [LinearOrder K] in
theorem right_neighbour (more : right ≠ []) : ∃ rightKey back, ∃ slot : WithBot K × PageId,
    right = (rightKey, slot.2) :: back ∧ slot ∈ before ++ after := by
  obtain ⟨⟨rightKey, rightPid⟩, back, list⟩ := List.exists_cons_of_ne_nil more
  obtain ⟨slot, member, rfl⟩ := right_slot under (show rightPid ∈ right.map Prod.snd by simp [list])
  exact ⟨rightKey, back, slot, list, member⟩

omit [LinearOrder K] in
theorem more_behind (behind : left.length + 1 < page.getSize) : right ≠ [] := by
  rintro rfl
  rw [InternalPage.getSize, under.list, List.length_append] at behind
  exact absurd behind (lt_irrefl _)

include short

theorem choice (tight : ¬CanLend base node) (mends : Mends base node (parent :: upper)) :
    Choice base node left right (before ++ after) (Mends base parent upper) := by
  rcases mends with lends | ⟨other, place, lends, settles⟩ |
    ⟨spent, isLeaf, other, place, lends, settles⟩ |
    ⟨full, place, mended⟩
  · exact absurd lends tight
  · obtain ⟨front, leftKey, list⟩ := (left_of_iff short under).mp place
    obtain ⟨slot, member, rfl⟩ := left_slot under (show other ∈ left.map Prod.snd by simp [list])
    exact Choice.fromLeft list member lends settles
  · obtain ⟨rightKey, back, list⟩ := (right_of_iff short under).mp place
    obtain ⟨slot, member, rfl⟩ := right_slot under (show other ∈ right.map Prod.snd by simp [list])
    have leftSpent : LeftSpent base left (before ++ after) := fun front leftKey slot list _ =>
      spent slot.2 ((left_of_iff short under).mpr ⟨front, leftKey, list⟩)
    exact Choice.fromRight isLeaf list member lends settles leftSpent
  · rcases place with ⟨other, place, settles⟩ | ⟨first, other, place, settles⟩
    · obtain ⟨front, leftKey, list⟩ := (left_of_iff short under).mp place
      obtain ⟨slot, member, rfl⟩ := left_slot under (show other ∈ left.map Prod.snd by simp [list])
      have rightSpent : RightSpent base right (before ++ after) := fun rightKey back slot list _ =>
        full slot.2 (Or.inr ((right_of_iff short under).mpr ⟨rightKey, back, list⟩))
      exact Choice.intoLeft list member (full _ (Or.inl place)) settles mended rightSpent
    · obtain ⟨rightKey, back, list⟩ := (right_of_iff short under).mp place
      obtain ⟨slot, member, rfl⟩ :=
        right_slot under (show other ∈ right.map Prod.snd by simp [list])
      have alone : left = [] := by
        rcases List.eq_nil_or_concat left with nothing | ⟨front, ⟨leftKey, leftPid⟩, concat⟩
        · exact nothing
        · rw [List.concat_eq_append] at concat
          exact absurd ((left_of_iff short under).mpr ⟨front, leftKey, concat⟩) (first leftPid)
      exact Choice.fromBehind alone list member (full _ (Or.inr place)) settles mended

end Choices

/-! A leaf. -/

section Leaves
variable {above beside : Row K PageId} {low : WithBot K} {page : InternalPage K}
  {left right : List (K × PageId)} {key : K} {other : PageId} {leaf : LeafPage K V}
  (roomy : Roomy rules)
  (short : Short rules base tree root height 0 writeSet doomed (parent :: upper) before
    fence node after)
  (under : Under base root parent upper before fence node after above low beside page
    left key right)
  (exact : rules.exact) (tight : ¬CanLend base node) (found : tree.pages node = some (.inl leaf))
  {slot : WithBot K × PageId} {sibling : LeafPage K V} {move : LeafMoves.LeafMove}
  {front : List (K × PageId)} {leftKey : K} {back : List (K × PageId)} {rightKey : K}

include short found

/-- The leaf in which the removal took place has one entry less than half of its page. -/
theorem short_leaf (tight : ¬CanLend base node) : leaf.getSize + 1 ≤ rules.options.leafMaxSize / 2 ∧
    rules.lowLeaf ≤ leaf.getSize + 1 ∧ GoodLeaf rules Set.univ node leaf := by
  obtain ⟨old, new, was, is, less⟩ := short.smaller
  obtain rfl := Option.some.inj (is.symm.trans found)
  obtain ⟨oldLeaf, there, good⟩ := short_row short (fence, node) (by simp)
  obtain rfl := Option.some.inj (was.symm.trans there)
  obtain ⟨maxSize, size, -⟩ := less
  have enough : rules.lowLeaf ≤ oldLeaf.getSize := node_full short there
  have small : oldLeaf.getSize ≤ oldLeaf.getMinSize := Nat.le_of_not_lt fun lends =>
    tight ⟨_, there, lends⟩
  have half : oldLeaf.getMinSize = rules.options.leafMaxSize / 2 := congrArg (· / 2) good.maxSize
  obtain ⟨now, isNow, goodNow⟩ : ∃ now, tree.pages node = some (.inl now) ∧
      GoodLeaf rules Set.univ node now := by
    have way := descent_kept short.way (short_ground short) short.kept
    have ground : TreeForest rules Set.univ tree.pages (0 + (parent :: upper).length)
      [((⊥ : WithBot K), root)] :=
      short.depth ▸ short.stands.forest
    exact (descent_row way ▸ forest_fringe ground : TreeForest rules Set.univ tree.pages 0 _)
      (fence, node) (by simp)
  obtain rfl := Sum.inl.inj (Option.some.inj (isNow.symm.trans found))
  exact ⟨by omega, by omega, goodNow⟩

omit found in
theorem beside_leaf (member : slot ∈ before ++ after) : ∃ sibling,
    tree.pages slot.2 = some (.inl sibling) ∧ GoodLeaf rules Set.univ slot.2 sibling ∧
      rules.lowLeaf ≤ sibling.getSize ∧ sibling.getMinSize = rules.options.leafMaxSize / 2 ∧
      (CanLend base slot.2 ↔ sibling.getMinSize < sibling.getSize) := by
  have inRow : slot ∈ before ++ (fence, node) :: after := by
    simp only [List.mem_append, List.mem_cons] at member ⊢
    tauto
  obtain ⟨sibling, there, good⟩ := short_row short slot inRow
  have here : tree.pages slot.2 = some (.inl sibling) := (short.siblings slot member).trans there
  exact ⟨sibling, here, good, sibling_full short member there, congrArg (· / 2) good.maxSize,
    sibling_lends short member here⟩

include under in
theorem leaf_left_declines (spent : LeftSpent base left (before ++ after))
    (positive : 0 < left.length) :
    Tree.borrowLeftLeaf rules.options writeSet tree node parent left.length = .ok none := by
  obtain ⟨front, leftKey, slot, list, member⟩ :=
    left_neighbour under (List.ne_nil_of_length_pos positive)
  have inside := left_window short under list
  obtain ⟨sibling, there, -, -, -, canLend⟩ := beside_leaf short member
  have full := spent front leftKey slot list member
  have length : left.length = front.length + 1 := by rw [list, List.length_append]; rfl
  rw [length]
  exact Window.borrow_left_declines inside there found (sibling_free short member)
    (Nat.le_of_not_lt fun lends => full (canLend.mpr lends))

include under in
theorem leaf_right_declines (spent : RightSpent base right (before ++ after))
    (behind : left.length + 1 < page.getSize) :
    Tree.borrowRightLeaf rules.options writeSet tree node parent left.length = .ok none := by
  obtain ⟨rightKey, back, slot, list, member⟩ := right_neighbour under (more_behind under behind)
  have inside := right_window short under list
  obtain ⟨sibling, there, -, -, -, canLend⟩ := beside_leaf short member
  have full := spent rightKey back slot list member
  exact Window.borrow_right_declines inside found there (sibling_free short member)
    (Nat.le_of_not_lt fun lends => full (canLend.mpr lends))

/-- Removing an entry leaves no tombstones where there were none. -/
theorem settled_left {other : PageId} (there : base.pages other = some (.inl sibling))
    (settles : Settles base other node move) :
    move.Settled sibling leaf := by
  obtain ⟨old, new, was, is, less⟩ := short.smaller
  obtain rfl := Option.some.inj (is.symm.trans found)
  obtain ⟨oldLeaf, atNode, -⟩ := short_row short (fence, node) (by simp)
  obtain rfl := Option.some.inj (was.symm.trans atNode)
  obtain ⟨-, -, bare⟩ := less
  have settled := settles sibling oldLeaf there atNode
  cases move with
  | split => trivial
  | moveLastToFrontOf => exact ⟨settled.1, bare settled.2⟩
  | moveFirstToEndOf => exact bare settled
  | moveAllTo => exact bare settled

omit found in
theorem settled_right {other : PageId} (there : base.pages other = some (.inl sibling))
    (settles : Settles base node other move)
    (notLast : move ≠ .moveLastToFrontOf) : move.Settled leaf sibling := by
  obtain ⟨oldLeaf, atNode, -⟩ := short_row short (fence, node) (by simp)
  have settled := settles oldLeaf sibling atNode there
  cases move with
  | split => trivial
  | moveLastToFrontOf => exact absurd rfl notLast
  | moveFirstToEndOf => exact settled
  | moveAllTo => exact settled

variable [Inhabited K]

include roomy under exact

theorem leaf_from_left (tight : ¬CanLend base node) (list : left = front ++ [(leftKey, slot.2)])
    (member : slot ∈ before ++ after) (lends : CanLend base slot.2)
    (settles : Settles base slot.2 node .moveLastToFrontOf) :
    RoundEnds rules base tree root height writeSet node parent upper page (before ++ after)
      left.length (.inl leaf) := by
  have inside := left_window short under list
  obtain ⟨small, enough, good⟩ := short_leaf short found tight
  obtain ⟨sibling, there, siblingGood, full, half, canLend⟩ := beside_leaf short member
  have spare := canLend.mp lends
  have room := siblingGood.room
  have leafSlots := roomy.leafSlots
  have atLeastTwo := roomy.leaf
  have lowLeaf := roomy.lowLeaf
  rcases List.eq_nil_or_concat sibling.entries with nothing | ⟨rest, ⟨lentKey, lentValue⟩, entries⟩
  · rw [LeafPage.getSize, nothing] at spare
    exact absurd spare (Nat.not_lt_zero _)
  · rw [List.concat_eq_append] at entries
    have size : sibling.getSize = rest.length + 1 := by
      rw [LeafPage.getSize, entries, List.length_append]
      rfl
    have longer : ((lentKey, lentValue) :: leaf.entries).length = leaf.getSize + 1 := rfl
    have stored :=
      Window.borrow_left_lends roomy inside there found (sibling_free short member) spare entries
        (by omega) (by omega) siblingGood.tombstones.1 good.tombstones.1
    have sound : Window.Sound sibling leaf { sibling with entries := rest }
      { leaf with entries := (lentKey, lentValue) :: leaf.entries } := by
      have settled := settled_left short found (short.siblings slot member ▸ there) settles
      have moved := Window.settled_sound exact siblingGood good
        (show LeafMoves.LeafMove.moveLastToFrontOf.Called sibling leaf from spare) settled
      simpa [LeafMoves.LeafMove.apply, LeafPage.moveLastToFrontOf, entries] using moved
    have notNode : parent ≠ node := Window.parent_not_right inside
    obtain ⟨round, keeps⟩ :=
      @Window.leaves_share K V _ _ rules tree root height sibling leaf {root, node} {root} _ rest
      ((lentKey, lentValue) :: leaf.entries) leaf.entries lentKey lentValue inside there
        found sound rfl
      (by rw [entries]; simp) rfl (List.ne_nil_of_length_pos (by omega)) (by omega) (by omega)
        (by omega) (by omega)
      (parent_full short under notNode) (excused (Or.inr rfl) rfl)
    refine ⟨_, ?_, Outcome.settled round keeps⟩
    have length : left.length = front.length + 1 := by rw [list, List.length_append]; rfl
    rw [Tree.repairPage, length]
    exact repair_left stored

theorem leaf_from_right (tight : ¬CanLend base node) (list : right = (rightKey, slot.2) :: back)
    (member : slot ∈ before ++ after) (lends : CanLend base slot.2)
    (settles : Settles base node slot.2 .moveFirstToEndOf) (declines : 0 < left.length →
      Tree.borrowLeftLeaf rules.options writeSet tree node parent left.length =
        .ok none) :
    RoundEnds rules base tree root height writeSet node parent upper page (before ++ after)
      left.length (.inl leaf) := by
  have inside := right_window short under list
  obtain ⟨small, enough, good⟩ := short_leaf short found tight
  obtain ⟨sibling, there, siblingGood, full, half, canLend⟩ := beside_leaf short member
  have spare := canLend.mp lends
  have room := siblingGood.room
  have leafSlots := roomy.leafSlots
  have atLeastTwo := roomy.leaf
  have lowLeaf := roomy.lowLeaf
  have size : sibling.entries.length = sibling.getSize := rfl
  match entries : sibling.entries with
  | [] =>
      rw [entries, List.length_nil] at size
      omega
  | [entry] =>
      rw [entries, List.length_singleton] at size
      omega
  | (lentKey, lentValue) :: (nextKey, nextValue) :: rest =>
      rw [entries, List.length_cons] at size
      have longer : (leaf.entries ++ [(lentKey, lentValue)]).length = leaf.getSize + 1 :=
        List.length_append
      have stored :=
        Window.borrow_right_lends roomy inside found there
          (sibling_free short member) spare entries
          (by omega) (by omega) good.tombstones.1 siblingGood.tombstones.1
      have sound : Window.Sound leaf sibling { leaf with
          entries := leaf.entries ++ [(lentKey, lentValue)] }
          { sibling with entries := (nextKey, nextValue) :: rest } := by
        have settled : LeafMoves.LeafMove.moveFirstToEndOf.Settled leaf sibling :=
          settled_right short (short.siblings slot member ▸ there) settles (by simp)
        have moved := Window.settled_sound exact good siblingGood
          (show LeafMoves.LeafMove.moveFirstToEndOf.Called leaf sibling from spare) settled
        simpa [LeafMoves.LeafMove.apply, LeafPage.moveFirstToEndOf, entries] using moved
      have notNode : parent ≠ node := Window.parent_not_left inside
      obtain ⟨round, keeps⟩ :=
          @Window.leaves_share K V _ _ rules tree root height leaf sibling {root, node} {root} _
        (leaf.entries ++ [(lentKey, lentValue)])
          ((nextKey, nextValue) :: rest) rest nextKey nextValue inside found there
        sound rfl (by rw [entries]; simp) rfl (by simp) (by omega) (by omega) (by omega) (by omega)
        (parent_full short under notNode) (excused (Or.inl rfl) rfl)
      refine ⟨_, ?_, Outcome.settled round keeps⟩
      rw [Tree.repairPage]
      have behind : left.length + 1 < page.getSize := by
        rw [InternalPage.getSize, under.list, list]
        simp
      exact repair_right declines behind stored

theorem leaf_into_left (tight : ¬CanLend base node) (list : left = front ++ [(leftKey, slot.2)])
    (member : slot ∈ before ++ after) (full : ¬CanLend base slot.2)
    (settles : Settles base slot.2 node .moveAllTo) (mends : Mends base parent upper)
    (declines : left.length + 1 < page.getSize →
      Tree.borrowRightLeaf rules.options writeSet tree node parent left.length =
        .ok none) :
    RoundEnds rules base tree root height writeSet node parent upper page (before ++ after)
      left.length (.inl leaf) := by
  have inside := left_window short under list
  obtain ⟨small, enough, good⟩ := short_leaf short found tight
  obtain ⟨sibling, there, siblingGood, low, half, canLend⟩ := beside_leaf short member
  have spent : sibling.getSize ≤ sibling.getMinSize := Nat.le_of_not_lt fun lends =>
    full (canLend.mpr lends)
  have leafSlots := roomy.leafSlots
  have atLeastTwo := roomy.leaf
  have reached := Window.children_reached inside
  have merged :=
    Window.merge_leaves_merges roomy inside there found (by omega) siblingGood.tombstones.1
      good.tombstones.1
  have sound := Window.settled_sound exact siblingGood good
    (show LeafMoves.LeafMove.moveAllTo.Called sibling leaf from trivial)
    (settled_left short found (short.siblings slot member ▸ there) settles)
  obtain ⟨round, keeps, gone⟩ :=
    @Window.leaves_merge K V _ _ rules tree root height sibling leaf {root, node}
      {root, parent} _ inside there found sound rfl (by omega) (by omega)
        (Set.mem_insert_of_mem _ rfl)
      (excused (Or.inr rfl) (Set.mem_insert _ _))
  refine ⟨_, ?_, Outcome.climbed round keeps gone reached.2 mends member Window.put_parent_page
    (Window.less_parent inside) fun pid notParent notNode notSibling =>
      Window.put_elsewhere notParent notSibling notNode⟩
  have length : left.length = front.length + 1 := by rw [list, List.length_append]; rfl
  rw [length] at declines
  rw [Tree.repairPage, length]
  exact repair_merge_left
    (Window.borrow_left_declines inside there found (sibling_free short member) spent) declines
    (Window.left_child inside) merged

theorem leaf_from_behind (tight : ¬CanLend base node) (first : left = [])
    (list : right = (rightKey, slot.2) :: back) (member : slot ∈ before ++ after)
    (full : ¬CanLend base slot.2) (settles : Settles base node slot.2 .moveAllTo)
    (mends : Mends base parent upper) :
    RoundEnds rules base tree root height writeSet node parent upper page (before ++ after)
      left.length (.inl leaf) := by
  have inside := right_window short under list
  obtain ⟨small, enough, good⟩ := short_leaf short found tight
  obtain ⟨sibling, there, siblingGood, low, half, canLend⟩ := beside_leaf short member
  have spent : sibling.getSize ≤ sibling.getMinSize := Nat.le_of_not_lt fun lends =>
    full (canLend.mpr lends)
  have leafSlots := roomy.leafSlots
  have atLeastTwo := roomy.leaf
  have reached := Window.children_reached inside
  have merged := Window.merge_leaves_merges roomy inside found there (by omega) good.tombstones.1
    siblingGood.tombstones.1
  have declines := Window.borrow_right_declines inside found there (sibling_free short member) spent
  have child := Window.right_child inside
  have sound := Window.settled_sound exact good siblingGood
    (show LeafMoves.LeafMove.moveAllTo.Called leaf sibling from trivial)
    (settled_right short (short.siblings slot member ▸ there) settles (by simp))
  obtain ⟨round, keeps, gone⟩ :=
    @Window.leaves_merge K V _ _ rules tree root height leaf sibling {root, node}
      {root, parent} _ inside found there sound rfl (by omega) (by omega)
        (Set.mem_insert_of_mem _ rfl)
      (excused (Or.inl rfl) (Set.mem_insert _ _))
  refine ⟨_, ?_, Outcome.climbed round keeps gone reached.2 mends member Window.put_parent_page
    (Window.less_parent inside) fun pid notParent notNode notSibling =>
      Window.put_elsewhere notParent notNode notSibling⟩
  have behind : 0 + 1 < page.getSize := by
    rw [InternalPage.getSize, under.list, list, first]
    simp
  subst first
  rw [Tree.repairPage]
  exact repair_merge_right behind declines child merged

theorem leaf_round (tight : ¬CanLend base node) (mends : Mends base node (parent :: upper)) :
    RoundEnds rules base tree root height writeSet node parent upper page (before ++ after)
      left.length (.inl leaf) := by
  cases choice short under tight mends with
  | fromLeft list member lends settles =>
      exact leaf_from_left roomy short under exact found tight list member lends settles
  | fromRight _ list member lends settles spent =>
      exact leaf_from_right roomy short under exact found tight list member lends settles
        (leaf_left_declines short under found spent)
  | intoLeft list member full settles mended spent =>
      exact leaf_into_left roomy short under exact found tight list member full settles mended
        (leaf_right_declines short under found spent)
  | fromBehind first list member full settles mended =>
      exact leaf_from_behind roomy short under exact found tight first list member full
        settles mended

end Leaves

/-! An internal page. -/

section Nodes
variable {above beside : Row K PageId} {low : WithBot K} {page : InternalPage K}
  {left right : List (K × PageId)} {key : K} {small : InternalPage K} (roomy : Roomy rules)
  (short : Short rules base tree root height (level + 1) writeSet doomed (parent :: upper) before
    fence node after)
  (under : Under base root parent upper before fence node after above low beside page
    left key right)
  (found : tree.pages node = some (.inr small)) {slot : WithBot K × PageId}
  {front : List (K × PageId)} {leftKey : K}

include short found

theorem short_node (tight : ¬CanLend base node) :
    small.getSize + 1 ≤ rules.options.internalMaxSize / 2 ∧ rules.lowNode ≤ small.getSize + 1 ∧
      small.entries ≠ [] ∧ ∃ old : InternalPage K, base.pages node = some (.inr old) := by
  obtain ⟨old, new, was, is, less⟩ := short.smaller
  obtain rfl := Option.some.inj (is.symm.trans found)
  obtain ⟨oldNode, there, _, good⟩ := (short_row short).1 (fence, node) (by simp)
  obtain rfl := Option.some.inj (was.symm.trans there)
  obtain ⟨maxSize, size⟩ := less
  have enough : rules.lowNode ≤ oldNode.getSize := node_full short there
  have tightSize : oldNode.getSize ≤ oldNode.getMinSize := Nat.le_of_not_lt fun lends =>
    tight ⟨_, there, lends⟩
  have half : oldNode.getMinSize = rules.options.internalMaxSize / 2 :=
    congrArg (· / 2) good.maxSize
  obtain ⟨now, isNow, nonempty⟩ : ∃ now, tree.pages node = some (.inr now) ∧ now.entries ≠ [] := by
    have way := descent_kept short.way (short_ground short) short.kept
    have ground : TreeForest rules Set.univ tree.pages (level + 1 + (parent :: upper).length)
        [((⊥ : WithBot K), root)] := short.depth ▸ short.stands.forest
    have row : TreeForest rules Set.univ tree.pages (level + 1) _ :=
      descent_row way ▸ forest_fringe ground
    obtain ⟨now, isNow, nonempty, _⟩ := row.1 (fence, node) (by simp)
    exact ⟨now, isNow, nonempty⟩
  obtain rfl := Sum.inr.inj (Option.some.inj (isNow.symm.trans found))
  exact ⟨by omega, by omega, nonempty, _, there⟩

omit found in
theorem beside_node (member : slot ∈ before ++ after) : ∃ sibling,
    tree.pages slot.2 = some (.inr sibling) ∧ sibling.entries ≠ [] ∧
      sibling.getSize ≤ rules.options.internalMaxSize ∧ rules.lowNode ≤ sibling.getSize ∧
      sibling.getMinSize = rules.options.internalMaxSize / 2 ∧
      (CanLend base slot.2 ↔ sibling.getMinSize < sibling.getSize) := by
  have inRow : slot ∈ before ++ (fence, node) :: after := by
    simp only [List.mem_append, List.mem_cons] at member ⊢
    tauto
  obtain ⟨sibling, there, nonempty, good⟩ := (short_row short).1 slot inRow
  have here : tree.pages slot.2 = some (.inr sibling) := (short.siblings slot member).trans there
  exact ⟨sibling, here, nonempty, good.room, sibling_full short member there,
      congrArg (· / 2) good.maxSize, sibling_lends short member here⟩

variable [Inhabited K]

include under in
theorem node_right_declines (spent : RightSpent base right (before ++ after))
    (behind : left.length + 1 < page.getSize) :
    Tree.borrowRightInternal rules.options writeSet tree node parent left.length = .ok none := by
  obtain ⟨rightKey, back, slot, list, member⟩ := right_neighbour under (more_behind under behind)
  have inside := right_window short under list
  obtain ⟨sibling, there, -, -, -, -, canLend⟩ := beside_node short member
  have full := spent rightKey back slot list member
  exact Window.borrow_right_node_declines inside found there (sibling_free short member)
    (Nat.le_of_not_lt fun lends => full (canLend.mpr lends))

include roomy under

theorem node_from_left (tight : ¬CanLend base node) (list : left = front ++ [(leftKey, slot.2)])
    (member : slot ∈ before ++ after) (lends : CanLend base slot.2) :
    RoundEnds rules base tree root height writeSet node parent upper page (before ++ after)
      left.length (.inr small) := by
  have inside := left_window short under list
  obtain ⟨tightSize, enough, nonempty, -⟩ := short_node short found tight
  obtain ⟨sibling, there, -, room, full, half, canLend⟩ := beside_node short member
  have spare := canLend.mp lends
  have nodeSlots := roomy.nodeSlots
  have atLeastTwo := roomy.node
  have lowNode := roomy.lowNode
  obtain ⟨⟨first, value⟩, rest, smallList⟩ := List.exists_cons_of_ne_nil nonempty
  rcases List.eq_nil_or_concat sibling.entries with nothing | ⟨lent, ⟨lentKey, child⟩, entries⟩
  · rw [InternalPage.getSize, nothing] at spare
    exact absurd spare (Nat.not_lt_zero _)
  · rw [List.concat_eq_append] at entries
    have size : sibling.getSize = lent.length + 1 := by
      rw [InternalPage.getSize, entries, List.length_append]
      rfl
    have stored :=
      Window.borrow_left_node_lends roomy inside there found
        (sibling_free short member) spare entries
        smallList (by omega) (by omega)
    have notNode : parent ≠ node := Window.parent_not_right inside
    obtain ⟨round, keeps⟩ :=
      @Window.nodes_lend K V _ _ rules tree root height level sibling small {root, node} {root}
        _ lent rest lentKey first child value inside there found entries smallList
        (List.ne_nil_of_length_pos (by omega)) rfl (by omega) (by omega) enough
          (parent_full short under notNode)
        (excused (Or.inr rfl) rfl)
    refine ⟨_, ?_, Outcome.settled round keeps⟩
    have length : left.length = front.length + 1 := by rw [list, List.length_append]; rfl
    rw [Tree.repairPage, length]
    exact repair_left stored

theorem node_into_left (tight : ¬CanLend base node) (list : left = front ++ [(leftKey, slot.2)])
    (member : slot ∈ before ++ after) (full : ¬CanLend base slot.2)
    (mends : Mends base parent upper) (declines : left.length + 1 < page.getSize →
      Tree.borrowRightInternal rules.options writeSet tree node parent left.length =
        .ok none) :
    RoundEnds rules base tree root height writeSet node parent upper page (before ++ after)
      left.length (.inr small) := by
  have inside := left_window short under list
  obtain ⟨tightSize, enough, nonempty, -⟩ := short_node short found tight
  obtain ⟨sibling, there, -, room, low, half, canLend⟩ := beside_node short member
  have spent : sibling.getSize ≤ sibling.getMinSize := Nat.le_of_not_lt fun lends =>
    full (canLend.mpr lends)
  have nodeSlots := roomy.nodeSlots
  obtain ⟨⟨first, value⟩, rest, smallList⟩ := List.exists_cons_of_ne_nil nonempty
  have merged := Window.merge_nodes_merges roomy inside there found smallList (by omega)
  obtain ⟨round, keeps, gone⟩ :=
    @Window.nodes_merge K V _ _ rules tree root height level sibling small {root, node}
      {root, parent} _ rest first value inside there found smallList rfl (by omega) (by omega)
      (Set.mem_insert_of_mem _ rfl) (excused (Or.inr rfl) (Set.mem_insert _ _))
  have reached := Window.children_reached inside
  refine ⟨_, ?_, Outcome.climbed round keeps gone reached.2 mends member Window.put_parent_page
    (Window.less_parent inside) fun pid notParent notNode notSibling =>
      Window.put_elsewhere notParent notSibling notNode⟩
  have length : left.length = front.length + 1 := by rw [list, List.length_append]; rfl
  rw [length] at declines
  rw [Tree.repairPage, length]
  exact repair_merge_left
    (Window.borrow_left_node_declines inside there found (sibling_free short member) spent)
    declines (Window.left_child inside) merged

theorem node_from_behind {back : List (K × PageId)} {rightKey : K} (tight : ¬CanLend base node)
    (first : left = []) (list : right = (rightKey, slot.2) :: back)
    (member : slot ∈ before ++ after) (full : ¬CanLend base slot.2)
    (mends : Mends base parent upper) :
    RoundEnds rules base tree root height writeSet node parent upper page (before ++ after)
      left.length (.inr small) := by
  have inside := right_window short under list
  obtain ⟨tightSize, enough, -, -⟩ := short_node short found tight
  obtain ⟨sibling, there, nonempty, room, low, half, canLend⟩ := beside_node short member
  have spent : sibling.getSize ≤ sibling.getMinSize := Nat.le_of_not_lt fun lends =>
    full (canLend.mpr lends)
  have nodeSlots := roomy.nodeSlots
  obtain ⟨⟨firstKey, value⟩, rest, siblingList⟩ := List.exists_cons_of_ne_nil nonempty
  have merged := Window.merge_nodes_merges roomy inside found there siblingList (by omega)
  have declines :=
    Window.borrow_right_node_declines inside found there (sibling_free short member) spent
  have child := Window.right_child inside
  obtain ⟨round, keeps, gone⟩ :=
    @Window.nodes_merge K V _ _ rules tree root height level small sibling {root, node}
      {root, parent} _ rest firstKey value inside found there siblingList rfl (by omega) (by omega)
      (Set.mem_insert_of_mem _ rfl) (excused (Or.inl rfl) (Set.mem_insert _ _))
  have reached := Window.children_reached inside
  refine ⟨_, ?_, Outcome.climbed round keeps gone reached.2 mends member Window.put_parent_page
    (Window.less_parent inside) fun pid notParent notNode notSibling =>
      Window.put_elsewhere notParent notNode notSibling⟩
  have behind : 0 + 1 < page.getSize := by
    rw [InternalPage.getSize, under.list, list, first]
    simp
  subst first
  rw [Tree.repairPage]
  exact repair_merge_right behind declines child merged

theorem node_round (tight : ¬CanLend base node) (mends : Mends base node (parent :: upper)) :
    RoundEnds rules base tree root height writeSet node parent upper page (before ++ after)
      left.length (.inr small) := by
  cases choice short under tight mends with
  | fromLeft list member lends _ =>
      exact node_from_left roomy short under found tight list member lends
  | fromRight isLeaf _ _ _ _ _ =>
      obtain ⟨leaf, there⟩ := isLeaf
      obtain ⟨-, -, -, old, was⟩ := short_node short found tight
      cases there.symm.trans was
  | intoLeft list member full _ mended spent =>
      exact node_into_left roomy short under found tight list member full mended
        (node_right_declines short under found spent)
  | fromBehind first list member full _ mended =>
      exact node_from_behind roomy short under found tight first list member full mended

end Nodes

end Loop

end BusTub.BPlusTree
