import BusTub.TreeSearch
import Mathlib.Data.Int.Order.Basic
import Mathlib.Data.Set.Insert

/-!
What a B+ tree is: a forest under its root with all leaves on one level, keys in
order, sizes within their bounds and the leaves chained from left to right; and
what it holds. The tree is seen row by row: the fences of a row are the separators
in the pages above it.
-/

namespace BusTub.BPlusTree

open SearchForest LinkedChain

structure Rules where
  options : Options
  lowLeaf : Nat
  lowNode : Nat
  /-- Tombstones are indexes of different entries. -/
  exact : Prop

/-- Half of each page is in use, and tombstones are valid. -/
def fullRules (options : Options) : Rules where
  options := options
  lowLeaf := options.leafMaxSize / 2
  lowNode := options.internalMaxSize / 2
  exact := True

section Trees
variable {K V : Type}

def TombstonesOk (rules : Rules) (size : Nat) (tombstones : List Nat) : Prop :=
  tombstones.length ≤ rules.options.LEAF_PAGE_TOMB_CNT ∧
    (rules.exact → tombstones.Nodup ∧ ∀ tombstone ∈ tombstones, tombstone < size)

structure GoodLeaf (rules : Rules) (exempt : Set PageId) (pid : PageId)
    (leaf : LeafPage K V) : Prop where
  maxSize : leaf.maxSize = rules.options.leafMaxSize
  room : leaf.getSize < rules.options.leafMaxSize
  tombstones : TombstonesOk rules leaf.getSize leaf.tombstones
  low : pid ∉ exempt → rules.lowLeaf ≤ leaf.getSize

structure GoodNode (rules : Rules) (exempt : Set PageId) (pid : PageId)
    (page : InternalPage K) : Prop where
  maxSize : page.maxSize = rules.options.internalMaxSize
  room : page.getSize ≤ rules.options.internalMaxSize
  low : pid ∉ exempt → rules.lowNode ≤ page.getSize

abbrev TreeForest (rules : Rules) (exempt : Set PageId) (pages : PageId → Option (Page K V))
    (height : Nat) (row : Row K PageId) : Prop :=
  Forest InternalPage.entries pages (GoodLeaf rules exempt) (GoodNode rules exempt) height row

def keysOf (pages : PageId → Option (Page K V)) (pid : PageId) : List K :=
  match pages pid with
  | some (.inl leaf) => leaf.entries.map Prod.fst
  | _ => []

def links (pages : PageId → Option (Page K V)) (pid : PageId) : Option PageId :=
  match pages pid with
  | some (.inl leaf) => leaf.nextPageId
  | _ => none

abbrev leavesOf (pages : PageId → Option (Page K V)) (root : PageId) (height : Nat) :
    Row K PageId :=
  fringe InternalPage.entries pages height [((⊥ : WithBot K), root)]

def Chained (link : PageId → Option PageId) : List PageId → Prop
  | [] => True
  | first :: rest => Chain link first rest none

structure Standing [LinearOrder K] (rules : Rules) (exempt : Set PageId) (tree : Tree K V)
    (root : PageId) (height : Nat) : Prop where
  top : tree.rootPageId = some root
  forest : TreeForest rules exempt tree.pages height [((⊥ : WithBot K), root)]
  ordered : Ordered (keysOf tree.pages) (leavesOf tree.pages root height)
  unique : ((leavesOf tree.pages root height).map Prod.snd).Nodup
  chained : Chained (links tree.pages) ((leavesOf tree.pages root height).map Prod.snd)

structure Fresh (tree : Tree K V) : Prop where
  start : 0 ≤ tree.nextPageId
  taken : ∀ pid, tree.pages pid ≠ none → 0 ≤ pid ∧ pid < tree.nextPageId

def WellFormed [LinearOrder K] (rules : Rules) (tree : Tree K V) : Prop :=
  Fresh tree ∧ (tree.rootPageId = none ∨ ∃ root height, Standing rules {root} tree root height)

inductive Reached (tree : Tree K V) : PageId → Prop where
  | root {pid : PageId} : tree.rootPageId = some pid → Reached tree pid
  | child {pid : PageId} {page : InternalPage K} {entry : K × PageId} :
      Reached tree pid → tree.pages pid = some (.inr page) → entry ∈ page.entries →
        Reached tree entry.2

/-- An entry of a leaf that is not to be deleted. -/
def Live (leaf : LeafPage K V) (key : K) (value : V) : Prop :=
  ∃ index, leaf.entries[index]? = some (key, value) ∧ index ∉ leaf.tombstones

def Holds (tree : Tree K V) (key : K) (value : V) : Prop :=
  ∃ pid leaf, Reached tree pid ∧ tree.pages pid = some (.inl leaf) ∧ Live leaf key value

def Stored (tree : Tree K V) (key : K) : Prop :=
  ∃ pid leaf, Reached tree pid ∧ tree.pages pid = some (.inl leaf) ∧ key ∈ leaf.entries.map Prod.fst

end Trees

section Facts
variable {K V : Type} {rules : Rules} {tree : Tree K V} {root pid : PageId} {height : Nat}
  {leaf : LeafPage K V} {exempt : Set PageId} {pages : PageId → Option (Page K V)}

theorem exempt_mono {row : Row K PageId} {exempt more : Set PageId} (wider : exempt ⊆ more)
    (forest : TreeForest rules exempt pages height row) :
    TreeForest rules more pages height row :=
  forest_mono forest fun _ _ _ _ _ =>
    ⟨fun _ good =>
      ⟨good.maxSize, good.room, good.tombstones, fun strict => good.low fun inside =>
        strict (wider inside)⟩, fun _ good =>
          ⟨good.maxSize, good.room, fun strict => good.low fun inside => strict (wider inside)⟩⟩

theorem keys_leaf (found : pages pid = some (.inl leaf)) :
    keysOf pages pid = leaf.entries.map Prod.fst := by
  simp [keysOf, found]

theorem pages_bound {list : List PageId} (fresh : Fresh tree) (unique : list.Nodup)
    (there : ∀ page ∈ list, tree.pages page ≠ none) : list.length ≤ tree.depthBound := by
  have taken : ∀ page ∈ list, 0 ≤ page ∧ page < tree.nextPageId :=
    fun page member => fresh.taken page (there page member)
  have inside : ∀ page ∈ list.map Int.toNat, page ∈ List.range tree.nextPageId.toNat := by
    intro page member
    obtain ⟨pid, inList, rfl⟩ := List.mem_map.mp member
    have := taken pid inList
    rw [List.mem_range]
    lia
  have different : (list.map Int.toNat).Nodup := by
    refine List.Nodup.map_on ?_ unique
    intro x inX y inY same
    have := taken x inX
    have := taken y inY
    lia
  have bound := (List.subperm_of_subset different inside).length_le
  simp only [List.length_map, List.length_range] at bound
  exact bound

/-- The levels of a tree are fewer than the pages handed out. -/
theorem height_bound {fence : WithBot K} (fresh : Fresh tree)
    (forest : TreeForest rules exempt tree.pages height [(fence, root)]) :
    height < tree.depthBound := by
  obtain ⟨list, length, unique, there⟩ := way_pages forest
  have bound := pages_bound fresh unique fun page member => by
    obtain ⟨above, _, low, below⟩ := there page member
    exact found_of_forest below
  omega

theorem reached_row (top : tree.rootPageId = some root) (depth : Nat) :
    ∀ slot ∈ fringe InternalPage.entries tree.pages depth [((⊥ : WithBot K), root)],
      Reached tree slot.2 := by
  induction depth with
  | zero =>
      intro slot member
      rw [fringe, List.mem_singleton] at member
      subst member
      exact Reached.root top
  | succ depth ih =>
      intro slot member
      rw [fringe_succ, expand, List.mem_flatMap] at member
      obtain ⟨parent, above, inside⟩ := member
      have page : slot.2 ∈ (kids InternalPage.entries tree.pages parent.2).map Prod.snd := by
        rw [← refence_pages parent.1]
        exact List.mem_map_of_mem inside
      obtain ⟨entry, child, same⟩ := List.mem_map.mp page
      rw [← same]
      cases found : tree.pages parent.2 with
      | none => simp [kids, found] at child
      | some content =>
          cases content with
          | inl leaf => simp [kids, found] at child
          | inr node =>
              rw [kids_node found] at child
              exact Reached.child (ih parent above) found child

theorem row_reached (top : tree.rootPageId = some root)
    (forest : TreeForest rules exempt tree.pages height [((⊥ : WithBot K), root)])
    (reached : Reached tree pid) :
    ∃ depth ≤ height, ∃ fence,
      (fence, pid) ∈ fringe InternalPage.entries tree.pages depth [((⊥ : WithBot K), root)] := by
  induction reached with
  | root here =>
      obtain rfl := Option.some.inj (top.symm.trans here)
      exact ⟨0, Nat.zero_le _, ⊥, List.mem_cons_self⟩
  | @child pid page entry _ found inside ih =>
      obtain ⟨depth, low, fence, member⟩ := ih
      obtain ⟨rest, rfl⟩ : ∃ n, height = n + depth := ⟨height - depth, by omega⟩
      have here := forest_mem (forest_fringe forest) member
      cases rest with
      | zero =>
          obtain ⟨leaf, there, _⟩ := here _ List.mem_cons_self
          simp only at there
          rw [found] at there
          cases there
      | succ rest =>
          have page : entry.2 ∈ (refence fence page.entries).map Prod.snd := by
            rw [refence_pages]
            exact List.mem_map_of_mem inside
          obtain ⟨slot, inRow, same⟩ := List.mem_map.mp page
          refine ⟨depth + 1, by omega, slot.1, ?_⟩
          rw [fringe_succ, expand, List.mem_flatMap]
          refine ⟨(fence, pid), member, ?_⟩
          rw [kids_node found]
          rw [← same]
          exact inRow

theorem reached_leaf (top : tree.rootPageId = some root)
    (forest : TreeForest rules exempt tree.pages height [((⊥ : WithBot K), root)])
    (found : tree.pages pid = some (.inl leaf)) :
    Reached tree pid ↔ pid ∈ (leavesOf tree.pages root height).map Prod.snd := by
  constructor
  · intro reached
    obtain ⟨depth, low, fence, member⟩ := row_reached top forest reached
    obtain ⟨rest, rfl⟩ : ∃ n, height = n + depth := ⟨height - depth, by omega⟩
    have here := forest_mem (forest_fringe forest) member
    cases rest with
    | zero =>
        rw [Nat.zero_add]
        exact List.mem_map_of_mem member
    | succ rest =>
        obtain ⟨node, there, _⟩ := here.1 _ List.mem_cons_self
        simp only at there
        rw [found] at there
        cases there
  · intro member
    obtain ⟨slot, inside, rfl⟩ := List.mem_map.mp member
    exact reached_row top height slot inside

end Facts

end BusTub.BPlusTree
