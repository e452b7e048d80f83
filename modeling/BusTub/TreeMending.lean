import BusTub.TreeInsert
import BusTub.LeafMoves
import BusTub.NodeMoves

/-!
How a B+ tree is mended below a page that has lost an entry or a child: it borrows
from the page beside it or is merged with it, and then its parent has a child less.
Whatever happens to two neighbours under one parent is said by the row of their level,
of which the part in front of them and the part behind them stay as they are.
-/

namespace BusTub.BPlusTree

open SearchForest LinkedChain

section Reach
variable {K V : Type} [LinearOrder K] {rules : Rules} {exempt more : Set PageId}
  {tree other : Tree K V} {root pid : PageId} {height : Nat}

omit [LinearOrder K] in
/-- Where pages under the root have no children but such that were under it, nothing new is. -/
theorem reached_before (top : other.rootPageId = tree.rootPageId)
    (children : ∀ pid page, Reached tree pid → other.pages pid = some (.inr page) →
      ∀ entry ∈ page.entries, Reached tree entry.2) (reached : Reached other pid) :
    Reached tree pid := by
  induction reached with
  | root here => exact Reached.root (top.symm.trans here)
  | child _ found inside ih => exact children _ _ ih found _ inside

theorem stands_same (standing : Standing rules exempt tree root height)
    (top : other.rootPageId = tree.rootPageId)
    (same : ∀ pid, Reached tree pid → other.pages pid = tree.pages pid) :
    Standing rules exempt other root height ∧ ∀ key value, Holds other key value ↔
      Holds tree key value := by
  have rows : ∀ depth ≤ height,
      ∀ slot ∈ fringe InternalPage.entries tree.pages depth [((⊥ : WithBot K), root)],
        other.pages slot.2 = tree.pages slot.2 :=
    fun depth _ slot member => same slot.2 (reached_row standing.top depth slot member)
  obtain ⟨forest, leaves⟩ := forest_same standing.forest rows
  have lowest := rows height (le_refl _)
  have stands : Standing rules exempt other root height := by
    constructor
    case top => exact top.trans standing.top
    case forest => exact forest
    case ordered =>
      rw [leavesOf, leaves]
      exact ordered_congr (keys_congr lowest) standing.ordered
    case unique =>
      rw [leavesOf, leaves]
      exact standing.unique
    case chained =>
      rw [leavesOf, leaves]
      apply chained_congr _ standing.chained
      intro page member
      obtain ⟨slot, inside, rfl⟩ := List.mem_map.mp member
      simp only [links, lowest slot inside]
  refine ⟨stands, fun key value => ?_⟩
  rw [holds_iff stands, holds_iff standing, leavesOf, leaves]
  exact held_congr lowest

def Full (rules : Rules) : Page K V → Prop
  | .inl leaf => rules.lowLeaf ≤ leaf.getSize
  | .inr page => rules.lowNode ≤ page.getSize

def Filled (rules : Rules) (exempt : Set PageId) (tree : Tree K V) : Prop :=
  ∀ pid page, Reached tree pid → pid ∉ exempt → tree.pages pid = some page → Full rules page

theorem standing_filled (standing : Standing rules exempt tree root height) :
    Filled rules exempt tree := by
  intro pid page reached strict found
  obtain ⟨depth, low, fence, member⟩ := row_reached standing.top standing.forest reached
  obtain ⟨rest, rfl⟩ : ∃ n, height = n + depth := ⟨height - depth, by omega⟩
  have here := forest_mem (forest_fringe standing.forest) member
  cases rest with
  | zero =>
      obtain ⟨leaf, there, good⟩ := here _ List.mem_cons_self
      obtain rfl := Option.some.inj (there.symm.trans found)
      exact good.low strict
  | succ rest =>
      obtain ⟨node, there, _, good⟩ := here.1 _ List.mem_cons_self
      obtain rfl := Option.some.inj (there.symm.trans found)
      exact good.low strict

theorem childless_unreached {page : InternalPage K}
    (standing : Standing rules exempt tree root height) (found : tree.pages pid = some (.inr page))
    (childless : page.entries = []) :
    ¬Reached tree pid := by
  intro reached
  obtain ⟨depth, low, fence, member⟩ := row_reached standing.top standing.forest reached
  obtain ⟨rest, rfl⟩ : ∃ n, height = n + depth := ⟨height - depth, by omega⟩
  have here := forest_mem (forest_fringe standing.forest) member
  cases rest with
  | zero =>
      obtain ⟨leaf, there, _⟩ := here _ List.mem_cons_self
      cases there.symm.trans found
  | succ rest =>
      obtain ⟨node, there, more, _⟩ := here.1 _ List.mem_cons_self
      obtain rfl := Sum.inr.inj (Option.some.inj (there.symm.trans found))
      exact more childless

/-- A tree in whatever state its pages are, if they are full enough. -/
theorem filled_stands (standing : Standing rules exempt tree root height)
    (filled : Filled rules more tree) :
    Standing rules more tree root height := by
  refine ⟨standing.top, ?_, standing.ordered, standing.unique, standing.chained⟩
  apply forest_better standing.forest
  intro depth _ slot member
  have reached := reached_row standing.top depth slot member
  constructor
  · exact fun leaf found good =>
      ⟨good.maxSize, good.room, good.tombstones, fun strict =>
        filled slot.2 (.inl leaf) reached strict found⟩
  · exact fun page found good =>
      ⟨good.maxSize, good.room, fun strict => filled slot.2 (.inr page) reached strict found⟩

end Reach

/-- A page is taken out of the chain by the link of the page in front of it. -/
theorem chained_remove {link : PageId → Option PageId} {left right : List PageId}
    {pid gone : PageId} (unique : (left ++ pid :: gone :: right).Nodup)
    (chained : Chained link (left ++ pid :: gone :: right)) :
    Chained (Function.update link pid (link gone)) (left ++ pid :: right) := by
  cases left with
  | nil => exact @chain_remove PageId link pid [] right none _ gone unique chained
  | cons first left =>
      have chain :=
        @chain_remove PageId link first (left ++ [pid]) right none _ gone (by simpa using unique)
          (by rw [List.append_assoc]; exact chained)
      simpa [Chained] using chain

/-! ### Two neighbours -/

structure Window (K : Type) where
  path : List PageId
  above : Row K PageId
  fence : WithBot K
  parent : PageId
  beside : Row K PageId
  page : InternalPage K
  front : List (K × PageId)
  leftKey : K
  leftPid : PageId
  rightKey : K
  rightPid : PageId
  back : List (K × PageId)

namespace Window
variable {K V : Type}

def before (window : Window K) (pages : PageId → Option (Page K V)) : Row K PageId :=
  expand InternalPage.entries pages window.above ++ refence window.fence window.front

def after (window : Window K) (pages : PageId → Option (Page K V)) : Row K PageId :=
  raise window.back ++ expand InternalPage.entries pages window.beside

def leftFence (window : Window K) : WithBot K := fenceAt window.fence window.front window.leftKey

def row (window : Window K) (pages : PageId → Option (Page K V)) (middle : List (K × PageId)) :
    Row K PageId :=
  window.before pages ++ (window.leftFence, window.leftPid) :: (raise middle ++ window.after pages)

def old (window : Window K) (pages : PageId → Option (Page K V)) : Row K PageId :=
  window.row pages [(window.rightKey, window.rightPid)]

structure In [LinearOrder K] (window : Window K) (rules : Rules) (tree : Tree K V) (root : PageId)
    (height level : Nat) : Prop where
  standing : Standing rules Set.univ tree root height
  way : Descent InternalPage.entries tree.pages root window.path window.above window.fence
    window.parent window.beside
  depth : level + 1 + window.path.length = height
  found : tree.pages window.parent = some (.inr window.page)
  list : window.page.entries =
    window.front ++ (window.leftKey, window.leftPid) ::
      (window.rightKey, window.rightPid) :: window.back

structure Mended (window : Window K) (tree other : Tree K V) (page : InternalPage K)
    (middle : List (K × PageId)) : Prop where
  top : other.rootPageId = tree.rootPageId
  atParent : other.pages window.parent = some (.inr page)
  maxSize : page.maxSize = window.page.maxSize
  list : page.entries = window.front ++ (window.leftKey, window.leftPid) :: (middle ++ window.back)
  elsewhere : ∀ pid, pid ≠ window.parent → pid ≠ window.leftPid → pid ≠ window.rightPid →
    other.pages pid = tree.pages pid

section Facts
variable [LinearOrder K] {window : Window K} {rules : Rules} {tree other : Tree K V} {root : PageId}
  {height level : Nat} {page : InternalPage K} {middle : List (K × PageId)}
  {left right : LeafPage K V}

theorem in_ground (inside : window.In rules tree root height level) :
    TreeForest rules Set.univ tree.pages (level + 1 + window.path.length)
      [((⊥ : WithBot K), root)] :=
  inside.depth ▸ inside.standing.forest

theorem in_upper (inside : window.In rules tree root height level) :
    TreeForest rules Set.univ tree.pages (level + 1)
    (window.above ++ (window.fence, window.parent) :: window.beside) :=
  descent_row inside.way ▸ forest_fringe (in_ground inside)

theorem in_row (inside : window.In rules tree root height level) :
    expand InternalPage.entries tree.pages
    (window.above ++ (window.fence, window.parent) :: window.beside) = window.old tree.pages := by
  rw [expand_append, expand_cons, kids_node inside.found, inside.list, refence_cut]
  simp [old, row, before, after, leftFence]

theorem in_lower (inside : window.In rules tree root height level) :
    TreeForest rules Set.univ tree.pages level (window.old tree.pages) :=
      in_row inside ▸ (in_upper inside).2

theorem in_leaves (inside : window.In rules tree root height level) :
    leavesOf tree.pages root height =
      fringe InternalPage.entries tree.pages level (window.old tree.pages) := by
  have shift : height = window.path.length + (level + 1) := by
    rw [← inside.depth]
    omega
  rw [leavesOf, shift, ← fringe_fringe, descent_row inside.way, fringe, in_row inside]

theorem in_unique (inside : window.In rules tree root height level) :
    ((window.old tree.pages).map Prod.snd).Nodup :=
  pages_nodup (in_lower inside) (in_leaves inside ▸ inside.standing.unique)

theorem level_apart (inside : window.In rules tree root height level)
    {slot next : WithBot K × PageId}
    (higher : slot ∈ window.above ++ (window.fence, window.parent) :: window.beside)
    (lower : next ∈ window.old tree.pages) : slot.2 ≠ next.2 := by
  intro same
  have one := forest_mem (in_upper inside) higher
  have two := forest_fence slot.1 (forest_mem (in_lower inside) lower)
  rw [← same] at two
  have := height_unique one two
  omega

omit [LinearOrder K] in
theorem left_member : (window.leftFence, window.leftPid) ∈ window.old tree.pages := by
  simp [old, row]

omit [LinearOrder K] in
theorem right_member :
    ((window.rightKey : WithBot K), window.rightPid) ∈ window.old tree.pages := by
  simp [old, row]

omit [LinearOrder K] in
theorem parent_member :
    (window.fence, window.parent) ∈ window.above ++ (window.fence, window.parent) ::
      window.beside := by
  simp

theorem in_apart (inside : window.In rules tree root height level) :
    ∀ slot ∈ window.before tree.pages ++ window.after tree.pages,
      slot.2 ≠ window.parent ∧ slot.2 ≠ window.leftPid ∧ slot.2 ≠ window.rightPid := by
  intro slot member
  have inOld : slot ∈ window.old tree.pages := by
    simp only [old, row, List.mem_append, List.mem_cons] at member ⊢
    tauto
  have unique := in_unique inside
  rw [old, row, List.map_append, List.map_cons, List.map_append, List.nodup_middle, List.nodup_cons]
    at unique
  refine ⟨fun same => level_apart inside parent_member inOld same.symm, fun same => unique.1 ?_,
    fun same => ?_⟩
  · rcases List.mem_append.mp member with inBefore | inAfter
    · exact List.mem_append_left _ (List.mem_map.mpr ⟨slot, inBefore, same⟩)
    · exact List.mem_append_right _
        (List.mem_append_right _ (List.mem_map.mpr ⟨slot, inAfter, same⟩))
  · have rest := unique.2
    rw [raise_cons, raise_nil, List.map_cons, List.map_nil, List.cons_append, List.nil_append,
        List.nodup_middle, List.nodup_cons, ← List.map_append] at rest
    exact rest.1 (List.mem_map.mpr ⟨slot, member, same⟩)

theorem left_not_right (inside : window.In rules tree root height level) :
    window.leftPid ≠ window.rightPid := by
  intro same
  have unique := in_unique inside
  rw [old, row, List.map_append, List.map_cons, List.map_append, List.nodup_middle, List.nodup_cons]
    at unique
  apply unique.1
  simp [same]

theorem parent_not_left (inside : window.In rules tree root height level) :
    window.parent ≠ window.leftPid :=
  level_apart inside parent_member (@left_member K V window tree)

theorem parent_not_right (inside : window.In rules tree root height level) :
    window.parent ≠ window.rightPid :=
  level_apart inside parent_member (@right_member K V window tree)

theorem mended_kept (inside : window.In rules tree root height level)
    (mended : window.Mended tree other page middle) :
    ∀ pid above low, level + 1 < above → TreeForest rules Set.univ tree.pages above [(low, pid)] →
      other.pages pid = tree.pages pid := by
  intro pid above low higher there
  have atLevel : ∀ slot ∈ window.old tree.pages, pid ≠ slot.2 := by
    rintro slot member rfl
    have := height_unique there (forest_mem (in_lower inside) member)
    omega
  apply mended.elsewhere
  · rintro rfl
    have := height_unique there (forest_mem (in_upper inside) parent_member)
    omega
  · exact atLevel _ left_member
  · exact atLevel _ right_member

/-- The row of the two pages as it is afterwards decides about the tree. -/
theorem mended_row (inside : window.In rules tree root height level)
    (mended : window.Mended tree other page middle)
    (room : page.getSize ≤ rules.options.internalMaxSize)
    (lower : TreeForest rules Set.univ other.pages level (window.row tree.pages middle)) :
    TreeForest rules Set.univ other.pages height [((⊥ : WithBot K), root)] ∧
      leavesOf other.pages root height =
        fringe InternalPage.entries other.pages level (window.row tree.pages middle) := by
  have upper := in_upper inside
  have upperUnique :
      ((window.above ++ (window.fence, window.parent) :: window.beside).map Prod.snd).Nodup := by
    apply pages_nodup upper
    rw [fringe, in_row inside, ← in_leaves inside]
    exact inside.standing.unique
  rw [List.map_append, List.map_cons, List.nodup_middle, List.nodup_cons, ← List.map_append]
    at upperUnique
  have others : ∀ slot ∈ window.above ++ window.beside, other.pages slot.2 = tree.pages slot.2 := by
    intro slot member
    have inUpper : slot ∈ window.above ++ (window.fence, window.parent) :: window.beside := by
      simp only [List.mem_append, List.mem_cons] at member ⊢
      tauto
    apply mended.elsewhere
    · exact fun same => upperUnique.1 (List.mem_map.mpr ⟨slot, member, same⟩)
    · exact level_apart inside inUpper left_member
    · exact level_apart inside inUpper right_member
  have below : expand InternalPage.entries other.pages
    (window.above ++ (window.fence, window.parent) :: window.beside) =
      window.row tree.pages middle := by
    rw [expand_replaced mended.atParent (fun slot member =>
        others slot (List.mem_append_left _ member))
      (fun slot member => others slot (List.mem_append_right _ member)), mended.list, refence_cut]
    simp [row, before, after, leftFence]
  have whole : TreeForest rules Set.univ other.pages (level + 1)
    (window.above ++ (window.fence, window.parent) :: window.beside) := by
    refine ⟨fun slot member => ?_, below ▸ lower⟩
    simp only [List.mem_append, List.mem_cons] at member
    rcases member with inAbove | rfl | inBeside
    · rw [others slot (List.mem_append_left _ inAbove)]
      exact upper.1 slot (List.mem_append_left _ inAbove)
    · obtain ⟨old, there, _, good⟩ := upper.1 (window.fence, window.parent) parent_member
      obtain rfl := Sum.inr.inj (Option.some.inj (there.symm.trans inside.found))
      exact ⟨page, mended.atParent, by simp [mended.list], mended.maxSize.trans good.maxSize, room,
        fun strict => absurd (Set.mem_univ _) strict⟩
    · rw [others slot (List.mem_append_right _ inBeside)]
      exact upper.1 slot (List.mem_append_right _ (List.mem_cons_of_mem _ inBeside))
  obtain ⟨forest, leaves⟩ := forest_lift inside.way (in_ground inside) (in_ground inside)
    (mended_kept inside mended) whole
  rw [inside.depth] at forest leaves
  refine ⟨forest, leaves.trans ?_⟩
  rw [fringe, below]

omit [LinearOrder K] in
theorem mended_same (mended : window.Mended tree other page middle) {row : Row K PageId}
    (apart : ∀ slot ∈ row, slot.2 ≠ window.parent ∧ slot.2 ≠ window.leftPid ∧
      slot.2 ≠ window.rightPid) :
    ∀ slot ∈ row, other.pages slot.2 = tree.pages slot.2 := by
  intro slot member
  obtain ⟨notParent, notLeft, notRight⟩ := apart slot member
  exact mended.elsewhere _ notParent notLeft notRight

/-! Internal pages: their children stay in one row. -/

structure NodesMoved (window : Window K) (rules : Rules) (other : Tree K V)
    (left right : InternalPage K) (middle : List (K × PageId)) : Prop where
  nodes : ∀ slot ∈ (window.leftFence, window.leftPid) :: raise middle, ∃ page,
    other.pages slot.2 = some (.inr page) ∧ page.entries ≠ [] ∧ GoodNode rules Set.univ slot.2 page
  children : expand InternalPage.entries other.pages
    ((window.leftFence, window.leftPid) :: raise middle) =
    refence window.leftFence left.entries ++ refence (window.rightKey : WithBot K) right.entries

theorem nodes_stand {leftNode rightNode : InternalPage K}
    (inside : window.In rules tree root height (level + 1))
    (mended : window.Mended tree other page middle)
    (room : page.getSize ≤ rules.options.internalMaxSize)
    (atLeft : tree.pages window.leftPid = some (.inr leftNode))
    (atRight : tree.pages window.rightPid = some (.inr rightNode))
    (moved : window.NodesMoved rules other leftNode rightNode middle) :
    Standing rules Set.univ other root height ∧
      leavesOf other.pages root height = leavesOf tree.pages root height ∧
      ∀ key value, Holds other key value ↔ Holds tree key value := by
  have lower := in_lower inside
  have same := mended_same mended (in_apart inside)
  have oldChildren : expand InternalPage.entries tree.pages (window.old tree.pages) =
      expand InternalPage.entries other.pages (window.row tree.pages middle) := by
    rw [row, expand_append, ← List.cons_append, expand_append, moved.children,
      expand_congr fun slot member => same slot (List.mem_append_left _ member),
      expand_congr fun slot member => same slot (List.mem_append_right _ member)]
    simp [old, row, kids_node atLeft, kids_node atRight]
  have levelOf : ∀ slot ∈ window.old tree.pages, TreeForest rules Set.univ tree.pages
    (level + 1) [slot] :=
    fun slot member => forest_mem lower member
  have apart : Apart InternalPage.entries (GoodLeaf rules Set.univ) (GoodNode rules Set.univ)
    tree.pages other.pages
    level (expand InternalPage.entries tree.pages (window.old tree.pages)) := by
    intro pid changed
    by_cases atParent : pid = window.parent
    · rw [atParent]
      exact Or.inr ⟨_, level + 2, forest_mem (in_upper inside) parent_member, Or.inl (by omega)⟩
    · by_cases here : pid = window.leftPid
      · exact Or.inr ⟨_, level + 1, here ▸ levelOf _ left_member, Or.inl (by omega)⟩
      · by_cases there : pid = window.rightPid
        · exact Or.inr ⟨_, level + 1, there ▸ levelOf _ right_member, Or.inl (by omega)⟩
        · exact absurd (mended.elsewhere pid atParent here there) changed
  obtain ⟨deeper, sameLeaves⟩ := forest_frame apart lower.2 lower.2
  have newLower : TreeForest rules Set.univ other.pages (level + 1)
    (window.row tree.pages middle) := by
    refine ⟨fun slot member => ?_, oldChildren ▸ deeper⟩
    rw [row, ← List.cons_append, List.mem_append, List.mem_append] at member
    rcases member with inBefore | inPair | inAfter
    · rw [same slot (List.mem_append_left _ inBefore)]
      exact lower.1 slot (List.mem_append_left _ inBefore)
    · exact moved.nodes slot inPair
    · rw [same slot (List.mem_append_right _ inAfter)]
      exact lower.1 slot
        (List.mem_append_right _ (List.mem_cons_of_mem _ (List.mem_append_right _ inAfter)))
  obtain ⟨forest, leaves⟩ := mended_row inside mended room newLower
  have allLeaves : leavesOf other.pages root height = leavesOf tree.pages root height := by
    rw [leaves, fringe, ← oldChildren, sameLeaves, in_leaves inside, fringe]
  -- none of the pages that have changed is a leaf
  have lowest : ∀ slot ∈ leavesOf tree.pages root height, other.pages slot.2 =
      tree.pages slot.2 := by
    intro slot member
    have ground : TreeForest rules Set.univ tree.pages 0 (leavesOf tree.pages root height) := by
      apply forest_fringe
      rw [Nat.zero_add]
      exact inside.standing.forest
    obtain ⟨leaf, found, _⟩ := ground slot member
    apply mended.elsewhere
    · rintro atParent
      cases (atParent ▸ found).symm.trans inside.found
    · rintro here
      cases (here ▸ found).symm.trans atLeft
    · rintro there
      cases (there ▸ found).symm.trans atRight
  have stands : Standing rules Set.univ other root height := by
    refine ⟨mended.top.trans inside.standing.top, forest, ?_,
      allLeaves ▸ inside.standing.unique, ?_⟩
    · rw [allLeaves]
      exact ordered_congr (keys_congr lowest) inside.standing.ordered
    · rw [allLeaves]
      apply chained_congr _ inside.standing.chained
      intro pid member
      obtain ⟨slot, there, rfl⟩ := List.mem_map.mp member
      simp only [links, lowest slot there]
  refine ⟨stands, allLeaves, fun key value => ?_⟩
  rw [holds_iff stands, holds_iff inside.standing, allLeaves]
  exact held_congr lowest

/-! Leaves: their entries stay in one row. -/

theorem leaves_row (inside : window.In rules tree root height 0)
    (mended : window.Mended tree other page middle)
    (room : page.getSize ≤ rules.options.internalMaxSize)
    (leaves : ∀ slot ∈ (window.leftFence, window.leftPid) :: raise middle, ∃ leaf,
      other.pages slot.2 = some (.inl leaf) ∧ GoodLeaf rules Set.univ slot.2 leaf) :
    TreeForest rules Set.univ other.pages height [((⊥ : WithBot K), root)] ∧
      leavesOf other.pages root height = window.row tree.pages middle := by
  have same := mended_same mended (in_apart inside)
  have lower := in_lower inside
  apply mended_row inside mended room
  intro slot member
  rw [row, ← List.cons_append, List.mem_append, List.mem_append] at member
  rcases member with inBefore | inPair | inAfter
  · rw [same slot (List.mem_append_left _ inBefore)]
    exact lower slot (List.mem_append_left _ inBefore)
  · exact leaves slot inPair
  · rw [same slot (List.mem_append_right _ inAfter)]
    exact lower slot
      (List.mem_append_right _ (List.mem_cons_of_mem _ (List.mem_append_right _ inAfter)))

structure PairRange (window : Window K) (pages : PageId → Option (Page K V))
    (left right : LeafPage K V) : Prop where
  sorted : ((left.entries ++ right.entries).map Prod.fst).Pairwise (· < ·)
  low : ∀ entry ∈ left.entries ++ right.entries, window.leftFence ≤ entry.1
  high : ∀ entry ∈ left.entries ++ right.entries, ∀ next ∈ window.after pages,
    (entry.1 : WithBot K) < next.1
  fence : window.leftFence < window.rightKey
  middle : ∀ entry ∈ right.entries, window.rightKey ≤ entry.1
  last : ∀ next ∈ window.after pages, window.leftFence < next.1

theorem pair_range (inside : window.In rules tree root height 0)
    (atLeft : tree.pages window.leftPid = some (.inl left))
    (atRight : tree.pages window.rightPid = some (.inl right)) :
    window.PairRange tree.pages left right := by
  have ordered := inside.standing.ordered
  rw [in_leaves inside, fringe, old, row, ordered_append, ordered_cons] at ordered
  obtain ⟨-, ⟨⟨leftSorted, leftLow⟩, rest, leftHigh⟩, -⟩ := ordered
  rw [raise_cons, raise_nil, List.singleton_append, ordered_cons] at rest
  obtain ⟨⟨rightSorted, rightLow⟩, -, rightHigh⟩ := rest
  simp only [keys_leaf atLeft, keys_leaf atRight]
    at leftSorted leftLow leftHigh rightSorted rightLow rightHigh
  have across := leftHigh ((window.rightKey : WithBot K), window.rightPid) (by simp)
  have toAfter : ∀ next ∈ window.after tree.pages, next ∈
      raise [(window.rightKey, window.rightPid)] ++
      window.after tree.pages := fun next member => List.mem_append_right _ member
  have keyOf {leaf : LeafPage K V} : ∀ entry ∈ leaf.entries, entry.1 ∈ leaf.entries.map Prod.fst :=
    fun entry member => List.mem_map_of_mem member
  constructor
  case sorted =>
    rw [List.map_append, List.pairwise_append]
    refine ⟨leftSorted, rightSorted, fun one inLeft two inRight => ?_⟩
    exact WithBot.coe_lt_coe.mp (lt_of_lt_of_le (across.2 one inLeft) (rightLow two inRight))
  case low =>
    intro entry member
    rcases List.mem_append.mp member with inLeft | inRight
    · exact leftLow _ (keyOf entry inLeft)
    · exact across.1.le.trans (rightLow _ (keyOf entry inRight))
  case high =>
    intro entry member next inAfter
    rcases List.mem_append.mp member with inLeft | inRight
    · exact (leftHigh next (toAfter next inAfter)).2 _ (keyOf entry inLeft)
    · exact (rightHigh next inAfter).2 _ (keyOf entry inRight)
  case fence => exact across.1
  case middle => exact fun entry inRight => WithBot.coe_le_coe.mp (rightLow _ (keyOf entry inRight))
  case last => exact fun next inAfter => (leftHigh next (toAfter next inAfter)).1

omit [LinearOrder K] in
theorem old_unfolds (pages : PageId → Option (Page K V)) :
    window.old pages = window.before pages ++
      ((window.leftFence, window.leftPid) :: [((window.rightKey : WithBot K), window.rightPid)] ++
        window.after pages) := by
  simp [old, row]

theorem leaves_merged {merged : LeafPage K V} (inside : window.In rules tree root height 0)
    (mended : window.Mended tree other page [])
    (room : page.getSize ≤ rules.options.internalMaxSize)
    (atLeft : tree.pages window.leftPid = some (.inl left))
    (atRight : tree.pages window.rightPid = some (.inl right))
    (here : other.pages window.leftPid = some (.inl merged))
    (good : GoodLeaf rules Set.univ window.leftPid merged)
    (entries : merged.entries = left.entries ++ right.entries)
    (link : merged.nextPageId = right.nextPageId) :
    Standing rules Set.univ other root height ∧ leavesOf other.pages root height =
      window.row tree.pages [] := by
  have same := mended_same mended (in_apart inside)
  have range := pair_range inside atLeft atRight
  have ordered := inside.standing.ordered
  have unique := inside.standing.unique
  have chained := inside.standing.chained
  rw [in_leaves inside, fringe, old_unfolds] at ordered unique chained
  obtain ⟨forest, leaves⟩ := leaves_row inside mended room fun slot member => by
    obtain rfl := List.mem_singleton.mp member
    exact ⟨merged, here, good⟩
  have rowIs : window.row tree.pages [] = window.before tree.pages ++
      ((window.leftFence, window.leftPid) :: [] ++ window.after tree.pages) := rfl
  refine ⟨⟨mended.top.trans inside.standing.top, forest, ?_, ?_, ?_⟩, leaves⟩
  · rw [leaves, rowIs]
    have sameKeys := keys_congr same
    apply ordered_replace ordered _ _ (fun slot member =>
      sameKeys slot (List.mem_append_left _ member))
      (fun slot member => sameKeys slot (List.mem_append_right _ member))
    · rw [ordered_cons]
      simp only [keys_leaf here, entries]
      refine ⟨⟨range.sorted, fun key member => ?_⟩, ⟨List.Pairwise.nil, by simp⟩, by simp⟩
      obtain ⟨entry, inPair, rfl⟩ := List.mem_map.mp member
      exact range.low entry inPair
    · intro slot member next inAfter
      obtain rfl := List.mem_singleton.mp member
      simp only [keys_leaf here, entries]
      refine ⟨range.last next inAfter, fun key inside => ?_⟩
      obtain ⟨entry, inPair, rfl⟩ := List.mem_map.mp inside
      exact range.high entry inPair next inAfter
  · rw [leaves, rowIs]
    exact List.Nodup.sublist (List.Sublist.map Prod.snd (by simp)) unique
  · rw [leaves, rowIs]
    simp only [List.map_append, List.map_cons, List.cons_append, List.nil_append]
      at chained unique ⊢
    apply chained_congr _ (chained_remove unique chained)
    intro pid member
    by_cases atPid : pid = window.leftPid
    · rw [atPid, Function.update_self]
      simp only [links, here, atRight, link]
    · rw [Function.update_of_ne atPid]
      have inRow : pid ∈ (window.before tree.pages ++ window.after tree.pages).map Prod.snd := by
        simp only [List.map_append, List.mem_append, List.mem_cons] at member ⊢
        tauto
      obtain ⟨slot, there, rfl⟩ := List.mem_map.mp inRow
      simp only [links, same slot there]

theorem leaves_shared {newLeft newRight : LeafPage K V} {key : K} {value : V} {rest : List (K × V)}
    (inside : window.In rules tree root height 0)
    (mended : window.Mended tree other page [(key, window.rightPid)])
    (room : page.getSize ≤ rules.options.internalMaxSize)
    (atLeft : tree.pages window.leftPid = some (.inl left))
    (atRight : tree.pages window.rightPid = some (.inl right))
    (here : other.pages window.leftPid = some (.inl newLeft))
    (there : other.pages window.rightPid = some (.inl newRight))
    (leftGood : GoodLeaf rules Set.univ window.leftPid newLeft)
    (rightGood : GoodLeaf rules Set.univ window.rightPid newRight)
    (entries : newLeft.entries ++ newRight.entries = left.entries ++ right.entries)
    (nonempty : newLeft.entries ≠ []) (first : newRight.entries = (key, value) :: rest)
    (leftLink : newLeft.nextPageId = left.nextPageId)
    (rightLink : newRight.nextPageId = right.nextPageId) :
    Standing rules Set.univ other root height ∧
      leavesOf other.pages root height = window.row tree.pages [(key, window.rightPid)] := by
  have same := mended_same mended (in_apart inside)
  have range := pair_range inside atLeft atRight
  have ordered := inside.standing.ordered
  have unique := inside.standing.unique
  have chained := inside.standing.chained
  rw [in_leaves inside, fringe, old_unfolds] at ordered unique chained
  obtain ⟨forest, leaves⟩ := leaves_row inside mended room fun slot member => by
    rcases List.mem_cons.mp member with rfl | atEnd
    · exact ⟨newLeft, here, leftGood⟩
    · obtain rfl := List.mem_singleton.mp atEnd
      exact ⟨newRight, there, rightGood⟩
  have rowIs : window.row tree.pages [(key, window.rightPid)] = window.before tree.pages ++
    ((window.leftFence, window.leftPid) :: [((key : WithBot K), window.rightPid)] ++
      window.after tree.pages) := by
    simp [row]
  have rowPids : (window.row tree.pages [(key, window.rightPid)]).map Prod.snd =
      (window.old tree.pages).map Prod.snd := by
    simp [row, old]
  obtain ⟨sorted, low, high, -, -, last⟩ := range
  rw [← entries] at sorted low high
  have inLeft : ∀ entry ∈ newLeft.entries, entry ∈ newLeft.entries ++ newRight.entries :=
    fun entry member => List.mem_append_left _ member
  have inRight : ∀ entry ∈ newRight.entries, entry ∈ newLeft.entries ++ newRight.entries :=
    fun entry member => List.mem_append_right _ member
  have firstIn : (key, value) ∈ newRight.entries := first ▸ List.mem_cons_self
  rw [List.map_append, List.pairwise_append] at sorted
  obtain ⟨leftSorted, rightSorted, across⟩ := sorted
  have below : ∀ entry ∈ newLeft.entries, entry.1 < key := fun entry member =>
    across _ (List.mem_map_of_mem member) _ (List.mem_map_of_mem firstIn)
  have fenceBelow : window.leftFence < key := by
    obtain ⟨entry, others, list⟩ := List.exists_cons_of_ne_nil nonempty
    have member : entry ∈ newLeft.entries := list ▸ List.mem_cons_self
    exact lt_of_le_of_lt (low entry (inLeft entry member))
      (WithBot.coe_lt_coe.mpr (below entry member))
  refine ⟨⟨mended.top.trans inside.standing.top, forest, ?_, ?_, ?_⟩, leaves⟩
  · rw [leaves, rowIs]
    have sameKeys := keys_congr same
    apply ordered_replace ordered _ _ (fun slot member =>
      sameKeys slot (List.mem_append_left _ member))
      (fun slot member => sameKeys slot (List.mem_append_right _ member))
    · rw [ordered_cons, ordered_cons]
      simp only [keys_leaf here, keys_leaf there]
      refine ⟨⟨leftSorted, fun place member => ?_⟩,
        ⟨⟨rightSorted, fun place member => ?_⟩, ⟨List.Pairwise.nil, by simp⟩, by simp⟩,
          fun next member => ?_⟩
      · obtain ⟨entry, inPage, rfl⟩ := List.mem_map.mp member
        exact low entry (inLeft entry inPage)
      · rw [first, List.map_cons] at member rightSorted
        rcases List.mem_cons.mp member with rfl | later
        · exact le_refl _
        · exact WithBot.coe_le_coe.mpr ((List.pairwise_cons.mp rightSorted).1 place later).le
      · obtain rfl := List.mem_singleton.mp member
        refine ⟨fenceBelow, fun place inPage => ?_⟩
        obtain ⟨entry, there, rfl⟩ := List.mem_map.mp inPage
        exact WithBot.coe_lt_coe.mpr (below entry there)
    · intro slot member next inAfter
      rcases List.mem_cons.mp member with rfl | atEnd
      · simp only [keys_leaf here]
        refine ⟨last next inAfter, fun place inPage => ?_⟩
        obtain ⟨entry, there, rfl⟩ := List.mem_map.mp inPage
        exact high entry (inLeft entry there) next inAfter
      · obtain rfl := List.mem_singleton.mp atEnd
        simp only [keys_leaf there]
        refine ⟨high (key, value) (inRight _ firstIn) next inAfter, fun place inPage => ?_⟩
        obtain ⟨entry, there, rfl⟩ := List.mem_map.mp inPage
        exact high entry (inRight entry there) next inAfter
  · rw [leaves, rowPids]
    rw [← old_unfolds] at unique
    exact unique
  · rw [leaves, rowPids]
    rw [← old_unfolds] at chained
    apply chained_congr _ chained
    intro pid member
    by_cases atLeftPid : pid = window.leftPid
    · simp only [links, atLeftPid, here, atLeft, leftLink]
    · by_cases atRightPid : pid = window.rightPid
      · simp only [links, atRightPid, there, atRight, rightLink]
      · have inRow : pid ∈ (window.before tree.pages ++ window.after tree.pages).map Prod.snd := by
          simp only [old_unfolds, List.map_append, List.map_cons, List.map_nil, List.mem_append,
            List.mem_cons, List.not_mem_nil, or_false] at member ⊢
          tauto
        obtain ⟨slot, inside, rfl⟩ := List.mem_map.mp inRow
        simp only [links, same slot inside]

/-- What the leaves of the pair held decides what the tree holds. -/
theorem leaves_hold (inside : window.In rules tree root height 0)
    (mended : window.Mended tree other page middle)
    (stands : Standing rules Set.univ other root height)
    (leaves : leavesOf other.pages root height = window.row tree.pages middle)
    (atLeft : tree.pages window.leftPid = some (.inl left))
    (atRight : tree.pages window.rightPid = some (.inl right)) (lives : ∀ key value,
      HeldIn other.pages ((window.leftFence, window.leftPid) :: raise middle) key value ↔
        Live left key value ∨ Live right key value) (key : K) (value : V) :
    Holds other key value ↔ Holds tree key value := by
  have same := mended_same mended (in_apart inside)
  have pair := lives key value
  have none : ¬HeldIn tree.pages [] key value := by
    rintro ⟨slot, member, _⟩
    cases member
  rw [holds_iff stands, leaves, holds_iff inside.standing, in_leaves inside, fringe,
      old_unfolds, row, ← List.cons_append, held_append, held_append, pair, held_append,
        held_append, held_leaf atLeft, held_leaf atRight,
    held_congr fun slot member => same slot (List.mem_append_left _ member),
    held_congr fun slot member => same slot (List.mem_append_right _ member)]
  tauto

end Facts

/-! What the round at the two pages stores. -/

def put (window : Window K) (tree : Tree K V) (left right : Page K V)
    (page : InternalPage K) : Tree K V :=
  ((tree.setPage window.leftPid left).setPage window.rightPid right).setPage
    window.parent (.inr page)

section Rounds
variable [LinearOrder K] {window : Window K} {rules : Rules} {tree : Tree K V} {root : PageId}
  {height level : Nat} {writeSet : List PageId} {left right : Page K V} {page : InternalPage K}
  {pid : PageId} {leaf : LeafPage K V} {exempt : Set PageId}

omit [LinearOrder K] in
theorem put_elsewhere (notParent : pid ≠ window.parent) (notLeft : pid ≠ window.leftPid)
    (notRight : pid ≠ window.rightPid) :
    (window.put tree left right page).pages pid = tree.pages pid := by
  simp only [put, Tree.set_pages, Function.update_of_ne notParent, Function.update_of_ne notRight,
    Function.update_of_ne notLeft]

omit [LinearOrder K] in
theorem put_parent_page :
    (window.put tree left right page).pages window.parent = some (.inr page) :=
      Function.update_self _ _ _

omit [LinearOrder K] in
theorem put_mended {middle : List (K × PageId)} (maxSize : page.maxSize = window.page.maxSize)
    (list : page.entries = window.front ++ (window.leftKey, window.leftPid) ::
      (middle ++ window.back)) :
    window.Mended tree (window.put tree left right page) page middle :=
  ⟨rfl, put_parent_page, maxSize, list, fun _ => put_elsewhere⟩

theorem put_left (inside : window.In rules tree root height level) (left right : Page K V)
    (page : InternalPage K) :
    (window.put tree left right page).pages window.leftPid = some left := by
  simp only [put, Tree.set_pages, Function.update_of_ne (parent_not_left inside).symm,
    Function.update_of_ne (left_not_right inside), Function.update_self]

theorem put_right (inside : window.In rules tree root height level) (left right : Page K V)
    (page : InternalPage K) :
    (window.put tree left right page).pages window.rightPid = some right := by
  simp only [put, Tree.set_pages, Function.update_of_ne (parent_not_right inside).symm,
    Function.update_self]

theorem set_key_list (inside : window.In rules tree root height level) (key : K) :
    (window.page.setKeyAt (window.front.length + 1) key).entries =
      window.front ++ (window.leftKey, window.leftPid) ::
        ([(key, window.rightPid)] ++ window.back) := by
  have modified := @NodeMoves.modify_at _ (fun entry : K × PageId => (key, entry.2))
    (window.front ++ [(window.leftKey, window.leftPid)]) window.back
      (window.rightKey, window.rightPid)
  rw [InternalPage.setKeyAt, inside.list]
  simpa using modified

theorem remove_list (inside : window.In rules tree root height level) :
    (window.page.removeAt (window.front.length + 1)).entries =
      window.front ++ (window.leftKey, window.leftPid) :: ([] ++ window.back) := by
  have erased :=
    @NodeMoves.erase_at _ (window.front ++ [(window.leftKey, window.leftPid)]) window.back
      (window.rightKey, window.rightPid)
  rw [InternalPage.removeAt, inside.list]
  simpa using erased

theorem parent_page (inside : window.In rules tree root height level) :
    tree.internalPage window.parent = .ok window.page := by
  rw [Tree.internalPage, inside.found]

theorem left_child (inside : window.In rules tree root height level) :
    Tree.childAt window.page window.front.length = .ok window.leftPid := by
  simp [Tree.childAt, InternalPage.valueAt, inside.list]

theorem right_child (inside : window.In rules tree root height level) :
    Tree.childAt window.page (window.front.length + 1) = .ok window.rightPid := by
  simp [Tree.childAt, InternalPage.valueAt, inside.list]

theorem window_size (inside : window.In rules tree root height level) :
    window.page.getSize = window.front.length + window.back.length + 2 := by
  rw [InternalPage.getSize, inside.list]
  simp only [List.length_append, List.length_cons]
  omega

theorem window_room (inside : window.In rules tree root height level) :
    window.page.getSize ≤ rules.options.internalMaxSize := by
  obtain ⟨page, there, _, good⟩ := (in_upper inside).1 (window.fence, window.parent) parent_member
  obtain rfl := Sum.inr.inj (Option.some.inj (there.symm.trans inside.found))
  exact good.room

theorem pair_leaves (inside : window.In rules tree root height 0) : ∃ left right,
    tree.pages window.leftPid = some (.inl left) ∧ tree.pages window.rightPid = some (.inl right) ∧
      GoodLeaf rules Set.univ window.leftPid left ∧
      GoodLeaf rules Set.univ window.rightPid right := by
  obtain ⟨left, atLeft, leftGood⟩ := in_lower inside _ left_member
  obtain ⟨right, atRight, rightGood⟩ := in_lower inside _ right_member
  exact ⟨left, right, atLeft, atRight, leftGood, rightGood⟩

theorem pair_nodes (inside : window.In rules tree root height (level + 1)) : ∃ left right,
    tree.pages window.leftPid = some (.inr left) ∧ tree.pages window.rightPid = some (.inr right) ∧
      (left.entries ≠ [] ∧ GoodNode rules Set.univ window.leftPid left) ∧
      right.entries ≠ [] ∧ GoodNode rules Set.univ window.rightPid right := by
  obtain ⟨left, atLeft, leftGood⟩ := (in_lower inside).1 _ left_member
  obtain ⟨right, atRight, rightGood⟩ := (in_lower inside).1 _ right_member
  exact ⟨left, right, atLeft, atRight, leftGood, rightGood⟩

theorem window_reached (inside : window.In rules tree root height level) :
    Reached tree window.parent := by
  have member : (window.fence, window.parent) ∈
    fringe InternalPage.entries tree.pages window.path.length [((⊥ : WithBot K), root)] := by
    rw [descent_row inside.way]
    exact parent_member
  exact reached_row inside.standing.top _ _ member

theorem children_reached (inside : window.In rules tree root height level) :
    Reached tree window.leftPid ∧ Reached tree window.rightPid := by
  have parent := window_reached inside
  constructor
  · exact @Reached.child K V tree _ _ (window.leftKey, window.leftPid) parent inside.found
      (by simp [inside.list])
  · exact @Reached.child K V tree _ _ (window.rightKey, window.rightPid) parent inside.found
      (by simp [inside.list])

section Stored
variable {left right : Page K V} {page : InternalPage K} {exempt more : Set PageId}
  {after : Tree K V} {middle : List (K × PageId)}

theorem put_before (inside : window.In rules tree root height level)
    (pids : ∀ entry ∈ page.entries, entry.2 ∈ window.page.entries.map Prod.snd)
    (children : ∀ node, left = .inr node ∨ right = .inr node → ∀ entry ∈ node.entries,
      Reached tree entry.2)
    {pid : PageId} (reached : Reached (window.put tree left right page) pid) :
    Reached tree pid := by
  apply reached_before _ _ reached
  · rfl
  · intro pid node old found entry member
    by_cases atParent : pid = window.parent
    · rw [atParent, put_parent_page] at found
      obtain rfl := Sum.inr.inj (Option.some.inj found)
      obtain ⟨twin, inPage, same⟩ := List.mem_map.mp (pids entry member)
      rw [← same]
      exact Reached.child (window_reached inside) inside.found inPage
    · by_cases atLeft : pid = window.leftPid
      · rw [atLeft, put_left inside] at found
        exact children node (Or.inl (Option.some.inj found)) entry member
      · by_cases atRight : pid = window.rightPid
        · rw [atRight, put_right inside] at found
          exact children node (Or.inr (Option.some.inj found)) entry member
        · rw [put_elsewhere atParent atLeft atRight] at found
          exact Reached.child old found member

theorem mended_parent (inside : window.In rules tree root height level)
    (mended : window.Mended tree after page middle) :
    Reached after window.parent := by
  have way := descent_kept inside.way (in_ground inside) fun pid above low higher =>
    mended_kept inside mended pid above
    low higher
  have member : (window.fence, window.parent) ∈
    fringe InternalPage.entries after.pages window.path.length [((⊥ : WithBot K), root)] := by
    rw [descent_row way]
    exact parent_member
  exact reached_row (mended.top.trans inside.standing.top) _ _ member

theorem mended_children (inside : window.In rules tree root height level)
    (mended : window.Mended tree after page middle) :
    ∀ pid ∈ window.leftPid :: middle.map Prod.snd, Reached after pid := by
  have parent := mended_parent inside mended
  have whole : ∀ entry ∈ page.entries, Reached after entry.2 :=
    fun _ member => Reached.child parent mended.atParent member
  rw [mended.list] at whole
  intro pid member
  rcases List.mem_cons.mp member with rfl | inMiddle
  · exact whole (window.leftKey, window.leftPid) (by simp)
  · obtain ⟨entry, here, rfl⟩ := List.mem_map.mp inMiddle
    exact whole entry (by simp [here])

/-- Pages stay in the tree, but for the right one where it is taken out. -/
theorem mended_keeps (inside : window.In rules tree root height level)
    (mended : window.Mended tree after page middle)
    {lost : List PageId} (taken : ∀ pid, pid ∈ lost → pid = window.rightPid)
    (right : window.rightPid ∈ middle.map Prod.snd ∨ window.rightPid ∈ lost)
    (children : ∀ node, tree.pages window.leftPid = some (.inr node) ∨
      tree.pages window.rightPid = some (.inr node) → ∀ entry ∈ node.entries, Reached after entry.2)
    {pid : PageId} (reached : Reached tree pid) : Reached after pid ∨ pid ∈ lost := by
  have parent := mended_parent inside mended
  have whole : ∀ entry ∈ page.entries, Reached after entry.2 :=
    fun _ member => Reached.child parent mended.atParent member
  rw [mended.list] at whole
  induction reached with
  | root here => exact Or.inl (Reached.root (mended.top.trans here))
  | @child pid node entry old found member ih =>
      by_cases atParent : pid = window.parent
      · subst atParent
        obtain rfl := Sum.inr.inj (Option.some.inj (inside.found.symm.trans found))
        rw [inside.list] at member
        simp only [List.mem_append, List.mem_cons] at member
        rcases member with inFront | rfl | rfl | inBack
        · exact Or.inl (whole entry (List.mem_append_left _ inFront))
        · exact Or.inl (whole (window.leftKey, window.leftPid) (by simp))
        · rcases right with there | gone
          · exact Or.inl (mended_children inside mended _ (List.mem_cons_of_mem _ there))
          · exact Or.inr gone
        · exact Or.inl (whole entry (by simp [inBack]))
      · by_cases atLeft : pid = window.leftPid
        · exact Or.inl (children node (Or.inl (atLeft ▸ found)) entry member)
        · by_cases atRight : pid = window.rightPid
          · exact Or.inl (children node (Or.inr (atRight ▸ found)) entry member)
          · rcases ih with stays | gone
            · rw [← mended.elsewhere pid atParent atLeft atRight] at found
              exact Or.inl (Reached.child stays found member)
            · exact absurd (taken pid gone) atRight

theorem put_there (inside : window.In rules tree root height level) (pid : PageId) :
    (window.put tree left right page).pages pid = none ↔ tree.pages pid = none := by
  have lower := in_lower inside
  have leftThere : tree.pages window.leftPid ≠ none :=
    found_of_forest (forest_mem lower left_member)
  have rightThere : tree.pages window.rightPid ≠ none :=
    found_of_forest (forest_mem lower right_member)
  by_cases atParent : pid = window.parent
  · rw [atParent, put_parent_page, inside.found]
    simp
  · by_cases atLeft : pid = window.leftPid
    · rw [atLeft, put_left inside]
      simp [leftThere]
    · by_cases atRight : pid = window.rightPid
      · rw [atRight, put_right inside]
        simp [rightThere]
      · rw [put_elsewhere atParent atLeft atRight]

theorem put_fresh (inside : window.In rules tree root height level) (fresh : Fresh tree) :
    Fresh (window.put tree left right page) := by
  have lower := in_lower inside
  have leftThere : tree.pages window.leftPid ≠ none :=
    found_of_forest (forest_mem lower left_member)
  have rightThere : tree.pages window.rightPid ≠ none :=
    found_of_forest (forest_mem lower right_member)
  have parentThere : tree.pages window.parent ≠ none := by
    rw [inside.found]
    simp
  apply fresh_set (fresh_set (fresh_set fresh leftThere) _)
  · simp only [Tree.set_pages, Function.update_of_ne (parent_not_right inside),
      Function.update_of_ne (parent_not_left inside)]
    exact parentThere
  · rw [Tree.set_pages, Function.update_of_ne (left_not_right inside).symm]
    exact rightThere

theorem put_filled (inside : window.In rules tree root height level)
    (filled : Filled rules exempt tree)
    (before : ∀ pid, Reached (window.put tree left right page) pid → Reached tree pid)
    (wider : ∀ pid, pid ∉ more → pid ≠ window.leftPid → pid ≠ window.rightPid → pid ∉ exempt)
    (leftFull : Full rules left)
    (rightFull : Reached (window.put tree left right page) window.rightPid → Full rules right)
    (parentFull : window.parent ∉ more → rules.lowNode ≤ page.getSize) :
    Filled rules more (window.put tree left right page) := by
  intro pid content reached strict found
  by_cases atParent : pid = window.parent
  · subst atParent
    rw [put_parent_page] at found
    obtain rfl := Option.some.inj found
    exact parentFull strict
  · by_cases atLeft : pid = window.leftPid
    · subst atLeft
      rw [put_left inside] at found
      exact Option.some.inj found ▸ leftFull
    · by_cases atRight : pid = window.rightPid
      · subst atRight
        rw [put_right inside] at found
        exact Option.some.inj found ▸ rightFull reached
      · rw [put_elsewhere atParent atLeft atRight] at found
        exact filled pid content (before pid reached) (wider pid strict atLeft atRight) found

end Stored

structure Round (rules : Rules) (exempt more : Set PageId) (lost : List PageId)
    (tree after : Tree K V) (root : PageId) (height : Nat) : Prop where
  stands : Standing rules Set.univ after root height
  before : ∀ pid, Reached after pid → Reached tree pid
  kept : ∀ pid, Reached tree pid → Reached after pid ∨ pid ∈ lost
  there : ∀ pid, after.pages pid = none ↔ tree.pages pid = none
  fresh : Fresh tree → Fresh after
  filled : Filled rules exempt tree → Filled rules more after

def Keeps (tree after : Tree K V) : Prop := ∀ key value, Holds after key value ↔
    Holds tree key value

omit [LinearOrder K] in
theorem live_listed {key : K} {value : V} :
    ((key, value), true) ∈ LeafMoves.liveEntries leaf ↔ Live leaf key value := by
  rw [LeafMoves.liveEntries, LeafMoves.marked, List.mem_mapIdx, Live]
  constructor
  · rintro ⟨index, inside, same⟩
    obtain ⟨entry, live⟩ := Prod.mk.inj same
    exact ⟨index, List.getElem?_eq_some_iff.mpr ⟨inside, entry⟩,
      by simpa [LeafPage.isTombstone] using live⟩
  · rintro ⟨index, found, live⟩
    obtain ⟨inside, entry⟩ := List.getElem?_eq_some_iff.mp found
    exact ⟨index, inside, by simp [entry, LeafPage.isTombstone, live]⟩

structure Sound (left right newLeft newRight : LeafPage K V) : Prop where
  leftMarks : newLeft.tombstones.Nodup ∧ ∀ tombstone ∈ newLeft.tombstones, tombstone <
    newLeft.getSize
  rightMarks : newRight.tombstones.Nodup ∧ ∀ tombstone ∈ newRight.tombstones, tombstone <
    newRight.getSize
  live : ∀ key value, Live newLeft key value ∨ Live newRight key value ↔ Live left key value ∨
    Live right key value

omit [LinearOrder K] in
theorem good_valid (exact : rules.exact) (good : GoodLeaf rules exempt pid leaf) :
    LeafMoves.ValidTombstones rules.options.LEAF_PAGE_TOMB_CNT leaf :=
  ⟨(good.tombstones.2 exact).1, (good.tombstones.2 exact).2, good.tombstones.1⟩

omit [LinearOrder K] in
theorem settled_sound {first second : PageId} {left right : LeafPage K V} (exact : rules.exact)
    (leftGood : GoodLeaf rules exempt first left) (rightGood : GoodLeaf rules exempt second right)
    {move : LeafMoves.LeafMove} (called : move.Called left right)
    (settled : move.Settled left right) :
    Sound left right (move.apply left right).1 (move.apply left right).2 := by
  have leftOk := good_valid exact leftGood
  have rightOk := good_valid exact rightGood
  have keeps : move.Keeps rules.options.LEAF_PAGE_TOMB_CNT left right := by
    cases move with
    | split => exact LeafMoves.split_keeps called.1 leftOk
    | moveLastToFrontOf =>
        exact (LeafMoves.last_keeps_iff leftOk rightOk (Nat.zero_lt_of_lt called)).mpr settled
    | moveFirstToEndOf =>
        exact (LeafMoves.first_keeps_iff leftOk rightOk (Nat.zero_lt_of_lt called)).mpr settled
    | moveAllTo => exact (LeafMoves.all_keeps_iff leftOk rightOk).mpr settled
  obtain ⟨kept, leftValid, rightValid⟩ := keeps
  refine ⟨⟨leftValid.unique, leftValid.inside⟩, ⟨rightValid.unique, rightValid.inside⟩,
    fun key value => ?_⟩
  have same : ((key, value), true) ∈ (LeafMoves.liveEntries (move.apply left right).1 ++
      LeafMoves.liveEntries (move.apply left right).2).filter Prod.snd ↔
      ((key, value), true) ∈ (LeafMoves.liveEntries left ++ LeafMoves.liveEntries right).filter
        Prod.snd := by
    rw [kept.live]
  simpa only [List.mem_filter, List.mem_append, live_listed, and_true] using same

omit [LinearOrder K] in
theorem moved_good (good : GoodLeaf rules Set.univ pid leaf) {next : Option PageId}
    {entries : List (K × V)}
    (marks : leaf.tombstones.Nodup ∧ ∀ tombstone ∈ leaf.tombstones, tombstone < entries.length)
    (room : entries.length < rules.options.leafMaxSize) :
    GoodLeaf rules Set.univ pid { leaf with entries := entries, nextPageId := next } where
  maxSize := good.maxSize
  room := room
  tombstones := ⟨good.tombstones.1, fun _ => marks⟩
  low := fun strict => absurd (Set.mem_univ pid) strict

section Leaves
variable {left right : LeafPage K V} {exempt more : Set PageId}

theorem leaf_goods (inside : window.In rules tree root height 0)
    (atLeft : tree.pages window.leftPid = some (.inl left))
    (atRight : tree.pages window.rightPid = some (.inl right)) :
    GoodLeaf rules Set.univ window.leftPid left ∧
      GoodLeaf rules Set.univ window.rightPid right := by
  obtain ⟨one, two, atOne, atTwo, oneGood, twoGood⟩ := pair_leaves inside
  obtain rfl := Sum.inl.inj (Option.some.inj (atOne.symm.trans atLeft))
  obtain rfl := Sum.inl.inj (Option.some.inj (atTwo.symm.trans atRight))
  exact ⟨oneGood, twoGood⟩

omit [LinearOrder K] in
theorem leaves_childless {after : Tree K V} (atLeft : tree.pages window.leftPid = some (.inl left))
    (atRight : tree.pages window.rightPid = some (.inl right)) :
    ∀ node,
      tree.pages window.leftPid = some (.inr node) ∨ tree.pages window.rightPid = some (.inr node) →
        ∀ entry ∈ node.entries, Reached after entry.2 := by
  rintro node (found | found)
  · cases atLeft.symm.trans found
  · cases atRight.symm.trans found

theorem leaves_share {after : Tree K V} {leftEntries rightEntries rest : List (K × V)} {key : K}
    {value : V} (inside : window.In rules tree root height 0)
    (atLeft : tree.pages window.leftPid = some (.inl left))
    (atRight : tree.pages window.rightPid = some (.inl right))
    (sound : Sound left right { left with entries := leftEntries } { right with
      entries := rightEntries })
    (isAfter : after = window.put tree (.inl { left with entries := leftEntries })
      (.inl { right with entries := rightEntries })
        (window.page.setKeyAt (window.front.length + 1) key))
    (entries : leftEntries ++ rightEntries = left.entries ++ right.entries)
    (first : rightEntries = (key, value) :: rest) (nonempty : leftEntries ≠ [])
    (leftRoom : leftEntries.length < rules.options.leafMaxSize)
    (rightRoom : rightEntries.length < rules.options.leafMaxSize)
    (leftLow : rules.lowLeaf ≤ leftEntries.length) (rightLow : rules.lowLeaf ≤ rightEntries.length)
    (parentLow : window.parent ∉ more → rules.lowNode ≤ window.page.getSize)
    (wider : ∀ pid, pid ∉ more → pid ≠ window.leftPid → pid ≠ window.rightPid → pid ∉ exempt) :
    Round rules exempt more [] tree after root height ∧ Keeps tree after := by
  obtain ⟨leftGood, rightGood⟩ := leaf_goods inside atLeft atRight
  have list := set_key_list inside key
  have size : (window.page.setKeyAt (window.front.length + 1) key).getSize = window.page.getSize :=
    List.length_modify _ _ _
  have mended : window.Mended tree after (window.page.setKeyAt (window.front.length + 1) key)
      [(key, window.rightPid)] := isAfter ▸ put_mended rfl list
  have here : after.pages window.leftPid = some (.inl { left with entries := leftEntries }) :=
    isAfter ▸ put_left inside _ _ _
  have there : after.pages window.rightPid = some (.inl { right with entries := rightEntries }) :=
    isAfter ▸ put_right inside _ _ _
  obtain ⟨stands, leaves⟩ :=
    leaves_shared inside mended (size.trans_le (window_room inside)) atLeft atRight here there
    (moved_good leftGood sound.leftMarks leftRoom) (moved_good rightGood sound.rightMarks rightRoom)
      entries nonempty
    first rfl rfl
  have before : ∀ pid, Reached after pid → Reached tree pid := by
    intro pid
    rw [isAfter]
    apply put_before inside
    · intro entry member
      rw [list] at member
      rw [inside.list]
      simp only [List.mem_append, List.mem_cons, List.map_append, List.map_cons, List.not_mem_nil,
        or_false] at member ⊢
      rcases member with inFront | rfl | rfl | inBack
      · exact Or.inl (List.mem_map_of_mem inFront)
      · simp
      · simp
      · exact Or.inr (Or.inr (Or.inr (List.mem_map_of_mem inBack)))
    · rintro node (same | same)
      · cases same
      · cases same
  have kept : ∀ pid, Reached tree pid → Reached after pid ∨ pid ∈ [] := fun pid =>
    mended_keeps inside mended (fun _ member => absurd member List.not_mem_nil)
      (Or.inl List.mem_cons_self)
      (leaves_childless atLeft atRight)
  constructor
  · subst isAfter
    exact ⟨stands, before, kept, put_there inside, put_fresh inside, fun filled =>
      put_filled inside filled before wider leftLow
      (fun _ => rightLow) fun strict => (parentLow strict).trans size.ge⟩
  · apply leaves_hold inside mended stands leaves atLeft atRight
    intro place content
    have nothing : ¬HeldIn after.pages [] place content := by simp [HeldIn]
    rw [held_leaf here, raise_cons, raise_nil, held_leaf there, ← sound.live, ← or_assoc]
    exact or_iff_left nothing

/-- The left leaf after the right one has been merged into it. -/
theorem leaves_merge {after : Tree K V} (inside : window.In rules tree root height 0)
    (atLeft : tree.pages window.leftPid = some (.inl left))
    (atRight : tree.pages window.rightPid = some (.inl right))
    (sound : Sound left right (right.moveAllTo left) { right with entries := [] })
    (isAfter : after =
      window.put tree (.inl (right.moveAllTo left)) (.inl { right with entries := [] })
      (window.page.removeAt (window.front.length + 1)))
    (room : left.getSize + right.getSize < rules.options.leafMaxSize)
    (low : rules.lowLeaf ≤ left.getSize + right.getSize)
    (parentMore : window.parent ∈ more)
    (wider : ∀ pid, pid ∉ more → pid ≠ window.leftPid → pid ≠ window.rightPid → pid ∉ exempt) :
    Round rules exempt more [window.rightPid] tree after root height ∧ Keeps tree after ∧
      ¬Reached after window.rightPid := by
  obtain ⟨leftGood, rightGood⟩ := leaf_goods inside atLeft atRight
  have list := remove_list inside
  have size : (window.page.removeAt (window.front.length + 1)).getSize ≤ window.page.getSize :=
    List.length_eraseIdx_le _ _
  have mended : window.Mended tree after (window.page.removeAt (window.front.length + 1)) [] :=
    isAfter ▸ put_mended rfl list
  have here : after.pages window.leftPid = some (.inl (right.moveAllTo left)) :=
    isAfter ▸ put_left inside _ _ _
  have there : after.pages window.rightPid = some (.inl { right with entries := [] }) :=
    isAfter ▸ put_right inside _ _ _
  have length : (left.entries ++ right.entries).length = left.getSize + right.getSize :=
    List.length_append
  have good : GoodLeaf rules Set.univ window.leftPid (right.moveAllTo left) :=
    moved_good leftGood sound.leftMarks (length.trans_lt room)
  obtain ⟨stands, leaves⟩ :=
    leaves_merged inside mended (size.trans (window_room inside)) atLeft atRight here good rfl
    rfl
  have before : ∀ pid, Reached after pid → Reached tree pid := by
    intro pid
    rw [isAfter]
    apply put_before inside
    · intro entry member
      exact List.mem_map_of_mem ((List.eraseIdx_sublist _ _).subset member)
    · rintro node (same | same)
      · cases same
      · cases same
  have gone : ¬Reached after window.rightPid := by
    rw [reached_leaf stands.top stands.forest there, leaves]
    intro member
    obtain ⟨slot, inRow, same⟩ := List.mem_map.mp member
    rw [row, raise_nil, List.nil_append, List.mem_append, List.mem_cons] at inRow
    rcases inRow with inBefore | rfl | inAfter
    · exact (in_apart inside slot (List.mem_append_left _ inBefore)).2.2 same
    · exact left_not_right inside same
    · exact (in_apart inside slot (List.mem_append_right _ inAfter)).2.2 same
  have kept : ∀ pid, Reached tree pid → Reached after pid ∨ pid ∈ [window.rightPid] := fun pid =>
    mended_keeps inside mended (fun _ => List.mem_singleton.mp) (Or.inr List.mem_cons_self)
      (leaves_childless atLeft atRight)
  refine ⟨?_, ?_, gone⟩
  · subst isAfter
    refine ⟨stands, before, kept, put_there inside, put_fresh inside, fun filled =>
      put_filled inside filled before wider ?_
      (fun reached => absurd reached gone) fun strict => absurd parentMore strict⟩
    change rules.lowLeaf ≤ (left.entries ++ right.entries).length
    omega
  · apply leaves_hold inside mended stands leaves atLeft atRight
    intro place content
    have nothing : ¬HeldIn after.pages [] place content := by simp [HeldIn]
    have emptied : ¬Live { right with entries := [] } place content := by simp [Live]
    rw [held_leaf here, raise_nil, ← sound.live]
    exact or_congr_right (iff_of_false nothing emptied)

end Leaves

section Nodes
variable {left right : InternalPage K} {exempt more : Set PageId}

theorem node_goods (inside : window.In rules tree root height (level + 1))
    (atLeft : tree.pages window.leftPid = some (.inr left))
    (atRight : tree.pages window.rightPid = some (.inr right)) :
    (left.entries ≠ [] ∧ GoodNode rules Set.univ window.leftPid left) ∧
      right.entries ≠ [] ∧ GoodNode rules Set.univ window.rightPid right := by
  obtain ⟨one, two, atOne, atTwo, oneGood, twoGood⟩ := pair_nodes inside
  obtain rfl := Sum.inr.inj (Option.some.inj (atOne.symm.trans atLeft))
  obtain rfl := Sum.inr.inj (Option.some.inj (atTwo.symm.trans atRight))
  exact ⟨oneGood, twoGood⟩

omit [LinearOrder K] in
theorem node_room {pid : PageId} {page : InternalPage K} (good : GoodNode rules Set.univ pid page)
    (entries : List (K × PageId)) (room : entries.length ≤ rules.options.internalMaxSize) :
    GoodNode rules Set.univ pid { page with entries := entries } :=
  ⟨good.maxSize, room, fun strict => absurd (Set.mem_univ pid) strict⟩

theorem grandchildren_reached (inside : window.In rules tree root height level)
    (atLeft : tree.pages window.leftPid = some (.inr left))
    (atRight : tree.pages window.rightPid = some (.inr right)) :
    ∀ pid ∈ (left.entries ++ right.entries).map Prod.snd, Reached tree pid := by
  intro pid member
  obtain ⟨entry, inPair, rfl⟩ := List.mem_map.mp member
  rcases List.mem_append.mp inPair with inLeft | inRight
  · exact Reached.child (children_reached inside).1 atLeft inLeft
  · exact Reached.child (children_reached inside).2 atRight inRight

theorem nodes_lend {after : Tree K V} {lent rest : List (K × PageId)} {newKey first : K}
    {child value : PageId} (inside : window.In rules tree root height (level + 1))
    (atLeft : tree.pages window.leftPid = some (.inr left))
    (atRight : tree.pages window.rightPid = some (.inr right))
    (leftList : left.entries = lent ++ [(newKey, child)])
    (rightList : right.entries = (first, value) :: rest) (nonempty : lent ≠ [])
    (isAfter : after = window.put tree (.inr { left with entries := lent })
      (.inr { right with entries := (first, child) :: (window.rightKey, value) :: rest })
      (window.page.setKeyAt (window.front.length + 1) newKey))
    (room : right.getSize < rules.options.internalMaxSize)
    (leftLow : rules.lowNode + 1 ≤ left.getSize) (rightLow : rules.lowNode ≤ right.getSize + 1)
    (parentLow : window.parent ∉ more → rules.lowNode ≤ window.page.getSize)
    (wider : ∀ pid, pid ∉ more → pid ≠ window.leftPid → pid ≠ window.rightPid → pid ∉ exempt) :
    Round rules exempt more [] tree after root height ∧ Keeps tree after := by
  obtain ⟨⟨-, leftGood⟩, -, rightGood⟩ := node_goods inside atLeft atRight
  have list := set_key_list inside newKey
  have size : (window.page.setKeyAt (window.front.length + 1) newKey).getSize =
      window.page.getSize :=
    List.length_modify _ _ _
  have mended : window.Mended tree after (window.page.setKeyAt (window.front.length + 1) newKey)
      [(newKey, window.rightPid)] := isAfter ▸ put_mended rfl list
  have here : after.pages window.leftPid = some (.inr { left with entries := lent }) :=
    isAfter ▸ put_left inside _ _ _
  have there : after.pages window.rightPid =
      some (.inr { right with entries := (first, child) :: (window.rightKey, value) :: rest }) :=
    isAfter ▸ put_right inside _ _ _
  have leftSize : left.getSize = lent.length + 1 := by
    rw [InternalPage.getSize, leftList, List.length_append]
    rfl
  have rightSize : right.getSize = rest.length + 1 := by
    rw [InternalPage.getSize, rightList]
    rfl
  have moved : window.NodesMoved rules after left right [(newKey, window.rightPid)] := by
    constructor
    case nodes =>
      intro slot member
      have leftRoom := leftGood.room
      rcases List.mem_cons.mp member with rfl | atEnd
      · exact ⟨_, here, nonempty, node_room leftGood _ (by omega)⟩
      · obtain rfl := List.mem_singleton.mp atEnd
        refine ⟨_, there, List.cons_ne_nil _ _, node_room rightGood _ ?_⟩
        simp only [List.length_cons]
        omega
    case children =>
      rw [expand_cons, kids_node here, raise_cons, raise_nil, expand_cons, kids_node there,
          leftList, rightList, refence_append _ _ nonempty]
      simp [refence]
  obtain ⟨stands, -, keeps⟩ :=
    nodes_stand inside mended (size.trans_le (window_room inside)) atLeft atRight moved
  have before : ∀ pid, Reached after pid → Reached tree pid := by
    have old := grandchildren_reached inside atLeft atRight
    rw [leftList, rightList] at old
    intro pid
    rw [isAfter]
    apply put_before inside
    · intro entry member
      rw [list] at member
      rw [inside.list]
      simp only [List.mem_append, List.mem_cons, List.map_append, List.map_cons, List.not_mem_nil,
        or_false] at member ⊢
      rcases member with inFront | rfl | rfl | inBack
      · exact Or.inl (List.mem_map_of_mem inFront)
      · simp
      · simp
      · exact Or.inr (Or.inr (Or.inr (List.mem_map_of_mem inBack)))
    · rintro node (same | same) entry member
      · obtain rfl := Sum.inr.inj same
        apply old
        simp only [List.map_append, List.mem_append]
        exact Or.inl (Or.inl (List.mem_map_of_mem member))
      · obtain rfl := Sum.inr.inj same
        apply old
        simp only [List.mem_cons, List.map_append, List.map_cons, List.map_nil, List.mem_append,
          List.not_mem_nil, or_false] at member ⊢
        rcases member with rfl | rfl | later
        · simp
        · simp
        · exact Or.inr (Or.inr (List.mem_map_of_mem later))
  have kept : ∀ pid, Reached tree pid → Reached after pid ∨ pid ∈ [] := by
    intro pid
    apply mended_keeps inside mended (fun _ member => absurd member List.not_mem_nil)
      (Or.inl List.mem_cons_self)
    have inAfter := mended_children inside mended
    have underLeft : ∀ entry ∈ lent, Reached after entry.2 := fun _ member =>
      Reached.child (inAfter _ List.mem_cons_self) here member
    have underRight : ∀ entry ∈ (first, child) :: (window.rightKey, value) ::
        rest, Reached after entry.2 :=
      fun _ member => Reached.child (inAfter window.rightPid (by simp)) there member
    rintro node (found | found) entry member
    · obtain rfl := Sum.inr.inj (Option.some.inj (atLeft.symm.trans found))
      rw [leftList] at member
      rcases List.mem_append.mp member with stays | last
      · exact underLeft entry stays
      · obtain rfl := List.mem_singleton.mp last
        exact underRight (first, child) List.mem_cons_self
    · obtain rfl := Sum.inr.inj (Option.some.inj (atRight.symm.trans found))
      rw [rightList] at member
      rcases List.mem_cons.mp member with rfl | later
      · exact underRight (window.rightKey, value) (by simp)
      · exact underRight entry (by simp [later])
  refine ⟨?_, keeps⟩
  subst isAfter
  refine ⟨stands, before, kept, put_there inside, put_fresh inside, fun filled =>
    put_filled inside filled before wider ?_ (fun _ => ?_)
    fun strict => (parentLow strict).trans size.ge⟩
  · change rules.lowNode ≤ lent.length
    omega
  · change rules.lowNode ≤ ((first, child) :: (window.rightKey, value) :: rest).length
    simp only [List.length_cons]
    omega

theorem nodes_merge {after : Tree K V} {rest : List (K × PageId)} {first : K} {value : PageId}
    (inside : window.In rules tree root height (level + 1))
    (atLeft : tree.pages window.leftPid = some (.inr left))
    (atRight : tree.pages window.rightPid = some (.inr right))
    (rightList : right.entries = (first, value) :: rest) (isAfter : after = window.put tree
      (.inr { left with entries := left.entries ++ (window.rightKey, value) :: rest })
      (.inr { right with entries := [] }) (window.page.removeAt (window.front.length + 1)))
    (room : left.getSize + right.getSize ≤ rules.options.internalMaxSize)
    (low : rules.lowNode ≤ left.getSize + right.getSize)
    (parentMore : window.parent ∈ more)
    (wider : ∀ pid, pid ∉ more → pid ≠ window.leftPid → pid ≠ window.rightPid → pid ∉ exempt) :
    Round rules exempt more [window.rightPid] tree after root height ∧ Keeps tree after ∧
      ¬Reached after window.rightPid := by
  obtain ⟨⟨nonempty, leftGood⟩, -, rightGood⟩ := node_goods inside atLeft atRight
  have list := remove_list inside
  have size : (window.page.removeAt (window.front.length + 1)).getSize ≤ window.page.getSize :=
    List.length_eraseIdx_le _ _
  have mended : window.Mended tree after (window.page.removeAt (window.front.length + 1)) [] :=
    isAfter ▸ put_mended rfl list
  have here : after.pages window.leftPid =
      some (.inr { left with entries := left.entries ++ (window.rightKey, value) :: rest }) :=
    isAfter ▸ put_left inside _ _ _
  have there : after.pages window.rightPid = some (.inr { right with entries := [] }) :=
    isAfter ▸ put_right inside _ _ _
  have length : (left.entries ++ (window.rightKey, value) :: rest).length =
      left.getSize + right.getSize := by
    rw [InternalPage.getSize, InternalPage.getSize, rightList, List.length_append]
    rfl
  have moved : window.NodesMoved rules after left right [] := by
    constructor
    case nodes =>
      intro slot member
      obtain rfl := List.mem_singleton.mp member
      exact ⟨_, here, List.append_ne_nil_of_left_ne_nil nonempty _,
        node_room leftGood _ (length.trans_le room)⟩
    case children =>
      rw [raise_nil, expand_cons, kids_node here, expand_nil, rightList,
        refence_append _ _ nonempty]
      simp [refence]
  obtain ⟨stands, -, keeps⟩ :=
    nodes_stand inside mended (size.trans (window_room inside)) atLeft atRight moved
  have before : ∀ pid, Reached after pid → Reached tree pid := by
    have old := grandchildren_reached inside atLeft atRight
    rw [rightList] at old
    intro pid
    rw [isAfter]
    apply put_before inside
    · intro entry member
      exact List.mem_map_of_mem ((List.eraseIdx_sublist _ _).subset member)
    · rintro node (same | same) entry member
      · obtain rfl := Sum.inr.inj same
        apply old
        simp only [List.mem_append, List.mem_cons, List.map_append, List.map_cons] at member ⊢
        rcases member with inLeft | rfl | later
        · exact Or.inl (List.mem_map_of_mem inLeft)
        · simp
        · exact Or.inr (Or.inr (List.mem_map_of_mem later))
      · obtain rfl := Sum.inr.inj same
        cases member
  have gone : ¬Reached after window.rightPid := childless_unreached stands there rfl
  have kept : ∀ pid, Reached tree pid → Reached after pid ∨ pid ∈ [window.rightPid] := by
    intro pid
    apply mended_keeps inside mended (fun _ => List.mem_singleton.mp) (Or.inr List.mem_cons_self)
    have inAfter := mended_children inside mended
    have underLeft : ∀ entry ∈ left.entries ++ (window.rightKey, value) ::
        rest, Reached after entry.2 :=
      fun _ member => Reached.child (inAfter _ List.mem_cons_self) here member
    rintro node (found | found) entry member
    · obtain rfl := Sum.inr.inj (Option.some.inj (atLeft.symm.trans found))
      exact underLeft entry (List.mem_append_left _ member)
    · obtain rfl := Sum.inr.inj (Option.some.inj (atRight.symm.trans found))
      rw [rightList] at member
      rcases List.mem_cons.mp member with rfl | later
      · exact underLeft (window.rightKey, value) (by simp)
      · exact underLeft entry (by simp [later])
  refine ⟨?_, keeps, gone⟩
  subst isAfter
  refine ⟨stands, before, kept, put_there inside, put_fresh inside, fun filled =>
    put_filled inside filled before wider ?_
    (fun reached => absurd reached gone) fun strict => absurd parentMore strict⟩
  change rules.lowNode ≤ (left.entries ++ (window.rightKey, value) :: rest).length
  omega

end Nodes

end Rounds

end Window

end BusTub.BPlusTree
