import BusTub.TreeShape

/-!
What the functions of single pages do to the entries of a page, to the keys and to
the entries that are live.
-/

namespace BusTub.BPlusTree

section Leaves
variable {K V : Type} {rules : Rules} {page newLeaf : LeafPage K V} {front back : List (K × V)}
  {key : K} {value : V} {tombstones : List Nat}

theorem insert_at_front {α : Type} (front back : List α) (item : α) :
    (front ++ back).insertIdx front.length item = front ++ item :: back := by
  induction front with
  | nil => simp
  | cons first front ih => simpa using ih

theorem leaf_insert_at (whole : page.entries = front ++ back) :
    (page.insertAt front.length key value).entries = front ++ (key, value) :: back := by
  rw [LeafPage.insertAt, whole]
  exact insert_at_front front back (key, value)

def shifted (index tombstone : Nat) : Nat := if index ≤ tombstone then tombstone + 1 else tombstone

theorem shifted_injective (index : Nat) : Function.Injective (shifted index) := by
  intro one two same
  unfold shifted at same
  split at same <;> split at same <;> omega

theorem mem_shifted {index place : Nat} :
    place ∈ tombstones.map (shifted index) ↔ (place < index ∧ place ∈ tombstones) ∨
      (index < place ∧ place - 1 ∈ tombstones) := by
  rw [List.mem_map]
  constructor
  · rintro ⟨tombstone, member, rfl⟩
    unfold shifted
    split
    · exact Or.inr ⟨by omega, by simpa using member⟩
    · exact Or.inl ⟨by omega, member⟩
  · rintro (⟨before, member⟩ | ⟨after, member⟩)
    · exact ⟨place, member, by unfold shifted; rw [if_neg (by omega)]⟩
    · exact ⟨place - 1, member, by unfold shifted; rw [if_pos (by omega)]; omega⟩

theorem insert_at_tombstones (index : Nat) :
    (page.insertAt index key value).tombstones = page.tombstones.map (shifted index) := rfl

theorem tombstones_inserted {size index : Nat} (good : TombstonesOk rules size tombstones) :
    TombstonesOk rules (size + 1) (tombstones.map (shifted index)) := by
  refine ⟨by simpa using good.1, fun exact => ?_⟩
  obtain ⟨unique, inside⟩ := good.2 exact
  refine ⟨unique.map (shifted_injective index), fun place member => ?_⟩
  rcases mem_shifted.mp member with ⟨_, old⟩ | ⟨_, old⟩
  · have := inside place old
    omega
  · have := inside _ old
    omega

theorem live_inserted {index : Nat} (inside : index ≤ page.entries.length) {k : K} {v : V} :
    Live (page.insertAt index key value) k v ↔ (k = key ∧ v = value) ∨ Live page k v := by
  unfold Live
  rw [insert_at_tombstones]
  have entries : ∀ place, (page.insertAt index key value).entries[place]? =
      if place < index then page.entries[place]? else if place = index then some
        (key, value) else page.entries[place - 1]? := by
    intro place
    rw [LeafPage.insertAt, List.getElem?_insertIdx]
    by_cases before : place < index
    · simp [before]
    · by_cases same : place = index
      · simp [same, inside]
      · simp [before, same]
  constructor
  · rintro ⟨place, found, alive⟩
    rw [entries] at found
    rw [mem_shifted, not_or] at alive
    rcases Nat.lt_trichotomy place index with before | same | after
    · rw [if_pos before] at found
      exact Or.inr ⟨place, found, fun old => alive.1 ⟨before, old⟩⟩
    · rw [if_neg (by omega), if_pos same] at found
      obtain ⟨rfl, rfl⟩ := Prod.mk.inj (Option.some.inj found)
      exact Or.inl ⟨rfl, rfl⟩
    · rw [if_neg (by omega), if_neg (by omega)] at found
      exact Or.inr ⟨place - 1, found, fun old => alive.2 ⟨after, old⟩⟩
  · rintro (⟨rfl, rfl⟩ | ⟨place, found, alive⟩)
    · refine ⟨index, by rw [entries]; simp, ?_⟩
      rw [mem_shifted]
      omega
    · by_cases before : place < index
      · refine ⟨place, by rw [entries, if_pos before]; exact found, ?_⟩
        rw [mem_shifted]
        rintro (⟨_, old⟩ | ⟨after, _⟩)
        · exact alive old
        · omega
      · refine ⟨place + 1, ?_, ?_⟩
        · rw [entries, if_neg (by omega), if_neg (by omega)]
          exact found
        · rw [mem_shifted]
          rintro (⟨after, _⟩ | ⟨_, old⟩)
          · omega
          · exact alive old

theorem tombstones_split (good : TombstonesOk rules page.getSize page.tombstones) :
    TombstonesOk rules (page.split newLeaf).1.getSize (page.split newLeaf).1.tombstones ∧
      TombstonesOk rules (page.split newLeaf).2.getSize (page.split newLeaf).2.tombstones := by
  have half : page.getSize / 2 ≤ page.getSize := Nat.div_le_self _ _
  constructor
  · refine ⟨(List.length_filter_le _ _).trans good.1, fun exact => ?_⟩
    obtain ⟨unique, inside⟩ := good.2 exact
    refine ⟨unique.filter _, fun place member => ?_⟩
    simp only [LeafPage.split, List.mem_filter, decide_eq_true_eq] at member
    simp only [LeafPage.split, LeafPage.getSize, List.length_take]
    simp only [LeafPage.getSize] at member half
    omega
  · refine ⟨?_, fun exact => ?_⟩
    · simp only [LeafPage.split, List.length_map]
      exact (List.length_filter_le _ _).trans good.1
    · obtain ⟨unique, inside⟩ := good.2 exact
      constructor
      · refine List.Nodup.map_on ?_ (unique.filter _)
        intro x inX y inY same
        simp only [List.mem_filter, decide_eq_true_eq] at inX inY
        omega
      · intro place member
        simp only [LeafPage.split, List.mem_map, List.mem_filter, decide_eq_true_eq] at member
        obtain ⟨old, ⟨there, above⟩, rfl⟩ := member
        have := inside old there
        simp only [LeafPage.split, LeafPage.getSize, List.length_drop]
        simp only [LeafPage.getSize] at this above
        omega

theorem live_split {k : K} {v : V} :
    Live page k v ↔ Live (page.split newLeaf).1 k v ∨ Live (page.split newLeaf).2 k v := by
  have half : page.getSize / 2 ≤ page.entries.length := Nat.div_le_self _ _
  unfold Live
  simp only [LeafPage.split, List.mem_filter, List.mem_map, decide_eq_true_eq, List.getElem?_drop]
  constructor
  · rintro ⟨place, found, alive⟩
    by_cases before : place < page.getSize / 2
    · exact Or.inl ⟨place,
        by rw [List.getElem?_take_of_lt before]; exact found, fun dead => alive dead.1⟩
    · refine Or.inr ⟨place - page.getSize / 2, ?_, ?_⟩
      · rw [show page.getSize / 2 + (place - page.getSize / 2) = place by omega]
        exact found
      · rintro ⟨old, ⟨dead, above⟩, same⟩
        obtain rfl : old = place := by omega
        exact alive dead
  · rintro (⟨place, found, alive⟩ | ⟨place, found, alive⟩)
    · have before : place < page.getSize / 2 := by
        have := (List.getElem?_eq_some_iff.mp found).1
        rw [List.length_take] at this
        omega
      rw [List.getElem?_take_of_lt before] at found
      exact ⟨place, found, fun dead => alive ⟨dead, before⟩⟩
    · exact ⟨_, found, fun dead => alive ⟨_, ⟨dead, Nat.le_add_right _ _⟩, by omega⟩⟩

end Leaves

section Nodes
variable {K : Type} {page newNode : InternalPage K} {left right : List (K × PageId)}
  {separator key : K} {child value : PageId}

theorem internal_insert_at (whole : page.entries = left ++ (separator, child) :: right) :
    (page.insertAt (left.length + 1) key value).entries = left ++ (separator, child) ::
      (key, value) :: right := by
  have := insert_at_front (left ++ [(separator, child)]) right (key, value)
  simp only [List.length_append, List.length_singleton, List.append_assoc, List.singleton_append]
    at this
  rw [InternalPage.insertAt, whole]
  exact this

open SearchForest in
/-- The two halves of a page have the children of the whole, with the key for the parent as the
fence between them. -/
theorem internal_split [Inhabited K] (fence : WithBot K) (size : 2 ≤ page.getSize) :
    refence fence (page.split newNode).1.entries ++ refence ((page.split newNode).2.1 : WithBot K)
      (page.split newNode).2.2.entries = refence fence page.entries := by
  have inside : page.getSize / 2 < page.entries.length := by
    unfold InternalPage.getSize at size ⊢
    omega
  have positive : 1 ≤ page.getSize / 2 := by omega
  have more : page.entries.take (page.getSize / 2) ≠ [] := by
    intro none
    have := congrArg List.length none
    rw [List.length_take, Nat.min_eq_left inside.le, List.length_nil] at this
    omega
  have whole : page.entries = page.entries.take (page.getSize / 2) ++
    page.entries.drop (page.getSize / 2) :=
    (List.take_append_drop _ _).symm
  have tail : page.entries.drop (page.getSize / 2) =
      page.entries[page.getSize / 2] :: page.entries.drop (page.getSize / 2 + 1) :=
        List.drop_eq_getElem_cons inside
  simp only [InternalPage.split]
  conv_rhs => rw [whole, refence_append fence _ more, tail]
  rw [tail, List.getElem?_eq_getElem inside]
  rfl

theorem internal_split_size [Inhabited K] : (page.split newNode).1.getSize = page.getSize / 2 ∧
    (page.split newNode).2.2.getSize = page.getSize - page.getSize / 2 := by
  constructor
  · simp only [InternalPage.split, InternalPage.getSize, List.length_take]
    omega
  · simp only [InternalPage.split, InternalPage.getSize, List.length_modifyHead, List.length_drop]

end Nodes

section Cuts
variable {K : Type} [LinearOrder K] {page : InternalPage K} {left right : List (K × PageId)}
  {separator key : K} {child : PageId}

theorem cut_unique {list other otherRight : List (K × PageId)} {otherSeparator : K}
    {otherChild : PageId} (cut : Cut list key left separator child right)
    (twin : Cut list key other otherSeparator otherChild otherRight) :
    left.length = other.length := by
  have here : list[left.length]? = some (separator, child) := by simp [cut.whole]
  have there : list[other.length]? = some (otherSeparator, otherChild) := by simp [twin.whole]
  rcases Nat.lt_trichotomy left.length other.length with before | same | after
  · have past : (otherSeparator, otherChild) ∈ right := by
      rw [cut.whole, List.getElem?_append_right before.le] at there
      obtain ⟨gap, same⟩ : ∃ n, other.length - left.length = n + 1 :=
        ⟨other.length - left.length - 1, by omega⟩
      rw [same, List.getElem?_cons_succ] at there
      exact List.mem_of_getElem? there
    have more : other ≠ [] := List.ne_nil_of_length_pos (by omega)
    exact absurd (twin.low more) (not_le.mpr (cut.high _ past))
  · exact same
  · have past : (separator, child) ∈ otherRight := by
      rw [twin.whole, List.getElem?_append_right after.le] at here
      obtain ⟨gap, same⟩ : ∃ n, left.length - other.length = n + 1 :=
        ⟨left.length - other.length - 1, by omega⟩
      rw [same, List.getElem?_cons_succ] at here
      exact List.mem_of_getElem? here
    have more : left ≠ [] := List.ne_nil_of_length_pos (by omega)
    exact absurd (cut.low more) (not_le.mpr (twin.high _ past))

theorem upper_bound_at (rising : Rising page.entries)
    (cut : Cut page.entries key left separator child right) :
    page.upperBound key = left.length + 1 := by
  have more : page.entries ≠ [] := by simp [cut.whole]
  obtain ⟨_, _, _, _, found, place⟩ := @upper_bound_cut K _ page key more rising
  rw [place, cut_unique found cut]

end Cuts

end BusTub.BPlusTree
