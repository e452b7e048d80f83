import BusTub.TreeRuns
import Mathlib.Data.Finset.Card
import Mathlib.Algebra.GroupWithZero.Nat

/-!
How far down a B+ tree goes. Pages other than the root are half full, so that a search
reads as many pages as the logarithm of the number of keys, not more.
-/

namespace BusTub.BPlusTree

open SearchForest

section Rows
variable {P K L N : Type} {entries : N → List (K × P)} {pages : P → Option (L ⊕ N)}
  {OkLeaf : P → L → Prop} {OkNode : P → N → Prop} {height low : Nat} {row : Row K P}

theorem refence_length (fence : WithBot K) (list : List (K × P)) :
    (refence fence list).length = list.length := by
  cases list with
  | nil => rfl
  | cons first rest => simp [refence, raise]

theorem fringe_wide (forest : Forest entries pages OkLeaf OkNode height row)
    (wide : ∀ page node, OkNode page node → low ≤ (entries node).length) :
    low ^ height * row.length ≤ (fringe entries pages height row).length := by
  induction height generalizing row with
  | zero => simp [fringe]
  | succ height ih =>
      have next : low * row.length ≤ (expand entries pages row).length := by
        have nodes := forest.1
        clear ih forest
        induction row with
        | nil => simp
        | cons slot row below =>
            obtain ⟨node, found, _, good⟩ := nodes slot List.mem_cons_self
            have more := below fun slot member => nodes slot (List.mem_cons_of_mem _ member)
            have here := wide slot.2 node good
            rw [expand_cons, List.length_append, refence_length, kids_node found,
              List.length_cons, Nat.mul_succ]
            omega
      calc
        low ^ (height + 1) * row.length = low ^ height * (low * row.length) := by
          rw [Nat.pow_succ, Nat.mul_assoc]
        _ ≤ low ^ height * (expand entries pages row).length := Nat.mul_le_mul_left _ next
        _ ≤ _ := ih forest.2

end Rows

section Trees
variable {K V : Type} [LinearOrder K] {tree : Tree K V} {rules : Rules} {root : PageId}
  {height : Nat} {options : Options}

theorem below_strict (standing : Standing rules {root} tree root (height + 1)) :
    TreeForest rules ∅ tree.pages height
      (expand InternalPage.entries tree.pages [((⊥ : WithBot K), root)]) := by
  apply forest_better standing.forest.2
  intro depth shallow slot member
  have notRoot : slot.2 ≠ root := by
    intro same
    obtain ⟨rest, rfl⟩ : ∃ n, height = n + depth := ⟨height - depth, by omega⟩
    have here := forest_fence ⊥ (forest_mem (forest_fringe standing.forest.2) member)
    rw [same] at here
    have := height_unique here standing.forest
    omega
  constructor
  · exact fun leaf _ good => ⟨good.maxSize, good.room, good.tombstones, fun _ => good.low notRoot⟩
  · exact fun node _ good => ⟨good.maxSize, good.room, fun _ => good.low notRoot⟩

omit [LinearOrder K] in
theorem keys_enough {row : Row K PageId} (leaves : TreeForest rules ∅ tree.pages 0 row) :
    rules.lowLeaf * row.length ≤ (row.flatMap fun slot => keysOf tree.pages slot.2).length := by
  induction row with
  | nil => simp
  | cons slot row ih =>
      obtain ⟨leaf, found, good⟩ := leaves slot List.mem_cons_self
      have more := ih fun slot member => leaves slot (List.mem_cons_of_mem _ member)
      have low : rules.lowLeaf ≤ leaf.entries.length := good.low (Set.notMem_empty _)
      rw [List.flatMap_cons, List.length_append, keys_leaf found, List.length_map,
        List.length_cons, Nat.mul_succ]
      omega

/-- The pages that a search reads are few: one level more needs so many times as many keys. -/
theorem descent_is_short (wellFormed : WellFormed (fullRules options) tree)
    (top : tree.rootPageId = some root) (key : K) :
    ∃ path pid leaf,
      tree.descend (fun page => page.childFor key) tree.depthBound root [] = .ok (path, pid, leaf) ∧
        ∀ stored : Finset K, (∀ other, Stored tree other → other ∈ stored) → path ≠ [] →
          (options.internalMaxSize / 2) ^ (path.length - 1) * (options.leafMaxSize / 2) ≤
            stored.card := by
  obtain ⟨fresh, bare | ⟨root', height, standing⟩⟩ := wellFormed
  · cases bare.symm.trans top
  obtain rfl := Option.some.inj (standing.top.symm.trans top)
  obtain ⟨path, before, fence, pid, after, leaf, down, place⟩ :=
    descend_to_leaf fresh standing (searches_child_for key)
  refine ⟨path, pid, leaf, down, fun stored all deep => ?_⟩
  have depth := place.depth
  cases path with
  | nil => exact absurd rfl deep
  | cons parent upper =>
      obtain rfl : height = upper.length + 1 := depth.symm
      obtain ⟨first, isFirst⟩ : ∃ first, first =
          expand InternalPage.entries tree.pages [((⊥ : WithBot K), root')] :=
        ⟨_, rfl⟩
      obtain ⟨row, isRow⟩ : ∃ row, row = leavesOf tree.pages root' (upper.length + 1) := ⟨_, rfl⟩
      have below : TreeForest (fullRules options) ∅ tree.pages upper.length first :=
        isFirst ▸ below_strict standing
      have same : row = fringe InternalPage.entries tree.pages upper.length first := by
        rw [isRow, isFirst]
        rfl
      have children : 1 ≤ first.length := by
        obtain ⟨node, found, more, _⟩ := standing.forest.1 _ List.mem_cons_self
        have size := List.length_pos_iff.mpr more
        rw [isFirst, expand_cons, List.length_append, refence_length, kids_node found]
        omega
      have wide : (options.internalMaxSize / 2) ^ upper.length * first.length ≤ row.length :=
        same ▸ fringe_wide below fun page node good => good.low (Set.notMem_empty page)
      have leaves : TreeForest (fullRules options) ∅ tree.pages 0 row := by
        rw [same]
        apply forest_fringe
        rwa [Nat.zero_add]
      have enough := keys_enough leaves
      have rising := ordered_keys standing.ordered
      rw [← isRow] at rising
      have few : (row.flatMap fun slot => keysOf tree.pages slot.2).length ≤ stored.card := by
        rw [← List.toFinset_card_of_nodup (rising.imp ne_of_lt)]
        apply Finset.card_le_card
        intro other member
        obtain ⟨slot, inRow, inside⟩ := List.mem_flatMap.mp (List.mem_toFinset.mp member)
        exact all other ((stored_iff standing).mpr ⟨slot, isRow ▸ inRow, inside⟩)
      calc (options.internalMaxSize / 2) ^ upper.length * (options.leafMaxSize / 2)
          ≤ row.length * (options.leafMaxSize / 2) :=
            Nat.mul_le_mul_right _ ((Nat.le_mul_of_pos_right _ children).trans wide)
        _ = options.leafMaxSize / 2 * row.length := Nat.mul_comm _ _
        _ ≤ stored.card := enough.trans few

end Trees

theorem couple_short : ∃ path pid leaf,
    couple.descend (fun page => page.childFor 11) couple.depthBound 0 [] = .ok (path, pid, leaf) ∧
      ∀ stored : Finset Nat, (∀ other, Stored couple other → other ∈ stored) → path ≠ [] →
        (3 / 2) ^ (path.length - 1) * (4 / 2) ≤ stored.card :=
  descent_is_short couple_well_formed rfl 11

end BusTub.BPlusTree
