import BusTub.BPlusTreePages
import Mathlib.Data.List.Basic

/-!
Moving entries between a leaf and the one to its right. The tombstones of a leaf are
places in it, and only `Split` takes them along: the three moves that repair an
underflow leave the numbers of both leaves as they are, whichever entries these stand
for then.
-/

namespace BusTub.LeafMoves

open BPlusTree

section Marks
variable {α : Type} {entries front back : List α} {entry : α} {live other : Nat → Bool}

def marked (live : Nat → Bool) (entries : List α) :
    List (α × Bool) := entries.mapIdx fun index entry => (entry, live index)

theorem marked_length : (marked live entries).length = entries.length := List.length_mapIdx

theorem marked_cons :
    marked live (entry :: entries) = (entry, live 0) ::
      marked (fun index => live (index + 1)) entries :=
  List.mapIdx_cons

theorem marked_append :
    marked live (front ++ back) = marked live front ++
      marked (fun index => live (index + front.length)) back :=
  List.mapIdx_append

theorem marked_iff : marked live entries = marked other entries ↔
    ∀ index < entries.length, live index = other index := by
  induction entries generalizing live other with
  | nil => simp [marked]
  | cons entry entries ih =>
      rw [marked_cons, marked_cons, List.cons_eq_cons, ih, Prod.mk.injEq]
      constructor
      · rintro ⟨⟨-, first⟩, later⟩ index inside
        cases index with
        | zero => exact first
        | succ index => exact later index (Nat.lt_of_succ_lt_succ inside)
      · intro same
        exact ⟨⟨rfl, same 0 (Nat.succ_pos _)⟩, fun index inside =>
          same (index + 1) (Nat.succ_lt_succ inside)⟩

@[simp] theorem marked_nil : marked live ([] : List α) = [] := rfl

structure Kept (before after : List (α × Bool)) : Prop where
  sub : after.Sublist before
  live : after.filter Prod.snd = before.filter Prod.snd

theorem kept_iff_same {before after : List (α × Bool)} (size : after.length = before.length) :
    Kept before after ↔ after = before := by
  constructor
  · exact fun kept => kept.sub.eq_of_length size
  · rintro rfl
    exact ⟨List.Sublist.refl _, rfl⟩

end Marks

variable {K V : Type}

def liveEntries (page : LeafPage K V) :
    List ((K × V) × Bool) := marked (fun index => !page.isTombstone index) page.entries

/-- The tombstones are distinct places of the leaf, and there is room for them. -/
structure ValidTombstones (tombCnt : Nat) (page : LeafPage K V) : Prop where
  unique : page.tombstones.Nodup
  inside : ∀ tombstone ∈ page.tombstones, tombstone < page.getSize
  bound : page.tombstones.length ≤ tombCnt

/-- What moves entries between two leaves that are next to each other. -/
inductive LeafMove where
  | split
  | moveLastToFrontOf
  | moveFirstToEndOf
  | moveAllTo

namespace LeafMove

/-- The left and the right leaf afterwards. `Split` fills the right one, and
`MoveFirstToEndOf` and `MoveAllTo` are calls on it. -/
def apply (left right : LeafPage K V) : LeafMove → LeafPage K V × LeafPage K V
  | .split => left.split right
  | .moveLastToFrontOf => left.moveLastToFrontOf right
  | .moveFirstToEndOf => ((right.moveFirstToEndOf left).2, (right.moveFirstToEndOf left).1)
  | .moveAllTo => (right.moveAllTo left, { right with entries := [] })

/-- `Insert` has just made the leaf that `Split` fills, and an entry is borrowed only from a leaf
that has more than it needs. -/
def Called (left right : LeafPage K V) : LeafMove → Prop
  | .split => right.entries = [] ∧ right.tombstones = []
  | .moveLastToFrontOf => left.getMinSize < left.getSize
  | .moveFirstToEndOf => right.getMinSize < right.getSize
  | .moveAllTo => True

def Keeps (tombCnt : Nat) (left right : LeafPage K V) (move : LeafMove) : Prop :=
  Kept (liveEntries left ++ liveEntries right)
      (liveEntries (move.apply left right).1 ++ liveEntries (move.apply left right).2) ∧
    ValidTombstones tombCnt (move.apply left right).1 ∧
      ValidTombstones tombCnt (move.apply left right).2

/-- No tombstone of an entry has to be moved or renumbered, except by `Split`. -/
def Settled (left right : LeafPage K V) : LeafMove → Prop
  | .split => True
  | .moveLastToFrontOf => left.getSize - 1 ∉ left.tombstones ∧ right.tombstones = []
  | .moveFirstToEndOf => right.tombstones = []
  | .moveAllTo => right.tombstones = []

end LeafMove

section Moves
variable {tombCnt : Nat} {left right : LeafPage K V} {page : LeafPage K V}

theorem live_entries (page : LeafPage K V) :
    liveEntries page = marked (fun index => decide (index ∉ page.tombstones)) page.entries := by
  apply marked_iff.mpr
  intro index _
  simp [LeafPage.isTombstone]

theorem live_length (page : LeafPage K V) :
    (liveEntries page).length = page.getSize := marked_length

theorem bare_valid (bare : page.tombstones = []) :
    ValidTombstones tombCnt page := by
  refine ⟨?_, ?_, ?_⟩ <;> simp [bare]

/-- Places that are none of a leaf's tombstones, first to last. -/
theorem no_tombstones (valid : ∀ tombstone ∈ page.tombstones, tombstone < page.getSize)
    (first : 0 ∉ page.tombstones)
    (next : ∀ index < page.getSize - 1, index + 1 ∈ page.tombstones → index ∈ page.tombstones) :
    page.tombstones = [] := by
  apply List.eq_nil_iff_forall_not_mem.mpr
  intro index member
  induction index with
  | zero => exact first member
  | succ index ih =>
      have inside := valid (index + 1) member
      exact ih (next index (by omega) member)

theorem split_valid (valid : ValidTombstones tombCnt left) :
    ValidTombstones tombCnt (left.split right).1 ∧
      ValidTombstones tombCnt (left.split right).2 := by
  have half : left.getSize / 2 ≤ left.getSize := Nat.div_le_self _ _
  constructor
  · refine ⟨valid.unique.filter _, fun tombstone member => ?_,
      (List.length_filter_le _ _).trans valid.bound⟩
    simp only [LeafPage.split, List.mem_filter, decide_eq_true_eq] at member
    simp only [LeafPage.split, LeafPage.getSize, List.length_take]
    simp only [LeafPage.getSize] at member half
    omega
  · refine ⟨?_, fun tombstone member => ?_, ?_⟩
    · apply List.Nodup.map_on _ (valid.unique.filter _)
      intro first inFirst second inSecond same
      simp only [List.mem_filter, decide_eq_true_eq] at inFirst inSecond
      omega
    · simp only [LeafPage.split, List.mem_map, List.mem_filter, decide_eq_true_eq] at member
      obtain ⟨old, ⟨there, above⟩, rfl⟩ := member
      have inside := valid.inside old there
      simp only [LeafPage.split, LeafPage.getSize, List.length_drop]
      simp only [LeafPage.getSize] at inside above
      omega
    · simp only [LeafPage.split, List.length_map]
      exact (List.length_filter_le _ _).trans valid.bound

theorem split_live : liveEntries (left.split right).1 ++ liveEntries (left.split right).2 =
    liveEntries left := by
  have half : (left.entries.take (left.getSize / 2)).length = left.getSize / 2 :=
    List.length_take_of_le (Nat.div_le_self _ _)
  have whole : liveEntries left =
      marked (fun index => !left.isTombstone index)
        (left.entries.take (left.getSize / 2) ++ left.entries.drop (left.getSize / 2)) := by
    rw [List.take_append_drop]
    rfl
  rw [whole, marked_append, half]
  congr 1
  · apply marked_iff.mpr
    intro index inside
    have before : index < left.getSize / 2 := half ▸ inside
    simp [LeafPage.isTombstone, LeafPage.split, before]
  · apply marked_iff.mpr
    intro index _
    have found : index ∈ (left.split right).2.tombstones ↔
        index + left.getSize / 2 ∈ left.tombstones := by
      simp only [LeafPage.split, List.mem_map, List.mem_filter, decide_eq_true_eq]
      constructor
      · rintro ⟨old, ⟨there, above⟩, rfl⟩
        rwa [Nat.sub_add_cancel above]
      · exact fun there => ⟨_, ⟨there, Nat.le_add_left _ _⟩, Nat.add_sub_cancel _ _⟩
    simp [LeafPage.isTombstone, found]

theorem split_keeps (fresh : right.entries = []) (valid : ValidTombstones tombCnt left) :
    LeafMove.split.Keeps tombCnt left right := by
  have nothing : liveEntries right = [] := by rw [liveEntries, fresh]; rfl
  refine ⟨?_, split_valid valid⟩
  rw [nothing, List.append_nil, LeafMove.apply, split_live]
  exact ⟨List.Sublist.refl _, rfl⟩

theorem last_keeps_iff (valid : ValidTombstones tombCnt left)
    (other : ValidTombstones tombCnt right) (lends : 0 < left.getSize) :
    LeafMove.moveLastToFrontOf.Keeps tombCnt left right ↔
      left.getSize - 1 ∉ left.tombstones ∧ right.tombstones = [] := by
  obtain ⟨init, entry, whole⟩ : ∃ init entry, left.entries = init ++ [entry] :=
    ⟨_, _, (List.dropLast_append_getLast (List.ne_nil_of_length_pos lends)).symm⟩
  have size : left.getSize = init.length + 1 := by simp [LeafPage.getSize, whole]
  have moved :
    left.moveLastToFrontOf right =
      ({ left with entries := init }, { right with entries := entry :: right.entries }) := by
    simp [LeafPage.moveLastToFrontOf, whole]
  have same : Kept (liveEntries left ++ liveEntries right)
    (liveEntries { left with entries := init } ++
      liveEntries { right with entries := entry :: right.entries }) ↔
        (0 ∉ right.tombstones ↔ init.length ∉ left.tombstones) ∧
      ∀ index < right.getSize, index + 1 ∉ right.tombstones ↔ index ∉ right.tombstones := by
    rw [kept_iff_same (by simp [live_length, LeafPage.getSize, whole]; omega)]
    simp only [live_entries, whole, marked_append, marked_cons, marked_nil, List.append_assoc,
      List.cons_append, List.nil_append,
      List.append_cancel_left_eq, List.cons.injEq, Prod.mk.injEq, true_and,
        Nat.zero_add, marked_iff, decide_eq_decide]
    rfl
  have last : left.getSize - 1 = init.length := by omega
  rw [last, LeafMove.Keeps, LeafMove.apply, moved, same]
  constructor
  · rintro ⟨⟨first, next⟩, short, -⟩
    have unmarked : init.length ∉ left.tombstones :=
      fun member => Nat.lt_irrefl _ (short.inside _ member)
    refine ⟨unmarked, no_tombstones other.inside (first.mpr unmarked) fun index inside => ?_⟩
    have shifted := next index (by omega)
    tauto
  · rintro ⟨unmarked, bare⟩
    refine ⟨⟨by simp [bare, unmarked], by simp [bare]⟩,
        ⟨valid.unique, fun tombstone member => ?_, valid.bound⟩, bare_valid bare⟩
    have inside := valid.inside tombstone member
    have apart : tombstone ≠ init.length := fun equal => unmarked (equal ▸ member)
    show tombstone < init.length
    omega

theorem first_keeps_iff (valid : ValidTombstones tombCnt left)
    (other : ValidTombstones tombCnt right) (lends : 0 < right.getSize) :
    LeafMove.moveFirstToEndOf.Keeps tombCnt left right ↔ right.tombstones = [] := by
  obtain ⟨entry, rest, whole⟩ := List.exists_cons_of_ne_nil (List.ne_nil_of_length_pos lends)
  have size : right.getSize = rest.length + 1 := by simp [LeafPage.getSize, whole]
  have moved :
    right.moveFirstToEndOf left =
      ({ right with entries := rest }, { left with entries := left.entries ++ [entry] }) := by
    simp [LeafPage.moveFirstToEndOf, whole]
  have unmarked : left.entries.length ∉ left.tombstones :=
    fun member => Nat.lt_irrefl _ (valid.inside _ member)
  have same : Kept (liveEntries left ++ liveEntries right)
    (liveEntries { left with entries := left.entries ++ [entry] } ++
      liveEntries { right with entries := rest }) ↔ 0 ∉ right.tombstones ∧
        ∀ index < rest.length, index ∉ right.tombstones ↔ index + 1 ∉ right.tombstones := by
    rw [kept_iff_same (by simp [live_length, LeafPage.getSize, whole]; omega)]
    simp only [live_entries, whole, marked_append, marked_cons, marked_nil, List.append_assoc,
      List.cons_append, List.nil_append,
      List.append_cancel_left_eq, List.cons.injEq, Prod.mk.injEq, true_and,
        Nat.zero_add, marked_iff, decide_eq_decide,
      unmarked, not_false_eq_true, true_iff]
  rw [LeafMove.Keeps, LeafMove.apply, moved, same]
  constructor
  · rintro ⟨⟨first, next⟩, -, -⟩
    apply no_tombstones other.inside first
    intro index inside
    have shifted := next index (by omega)
    tauto
  · intro bare
    refine ⟨⟨by simp [bare], by simp [bare]⟩,
        ⟨valid.unique, fun tombstone member => ?_, valid.bound⟩, bare_valid bare⟩
    have inside := valid.inside tombstone member
    simp only [LeafPage.getSize, List.length_append] at inside ⊢
    omega

theorem all_keeps_iff (valid : ValidTombstones tombCnt left)
    (other : ValidTombstones tombCnt right) :
    LeafMove.moveAllTo.Keeps tombCnt left right ↔ right.tombstones = [] := by
  have unmarked : ∀ index, index + left.entries.length ∉ left.tombstones := by
    intro index member
    have inside := valid.inside _ member
    simp only [LeafPage.getSize] at inside
    omega
  have same : Kept (liveEntries left ++ liveEntries right)
    (liveEntries (right.moveAllTo left) ++ liveEntries { right with entries := [] }) ↔
    ∀ index < right.entries.length, index ∉ right.tombstones := by
    rw [kept_iff_same (by simp [live_length, LeafPage.moveAllTo, LeafPage.getSize])]
    simp only [live_entries, LeafPage.moveAllTo, marked_append, marked_nil, List.append_nil,
      List.append_cancel_left_eq, marked_iff,
      decide_eq_decide, unmarked, not_false_eq_true, true_iff]
  rw [LeafMove.Keeps, LeafMove.apply, same]
  constructor
  · rintro ⟨live, -, -⟩
    apply List.eq_nil_iff_forall_not_mem.mpr
    exact fun index member => live index (other.inside index member) member
  · intro bare
    refine ⟨by simp [bare], ⟨valid.unique, fun tombstone member => ?_,
      valid.bound⟩, bare_valid bare⟩
    have inside := valid.inside tombstone member
    simp only [LeafPage.moveAllTo, LeafPage.getSize, List.length_append] at inside ⊢
    omega

/-- A move of entries keeps what the two leaves hold, in order and with its marks, exactly when
no tombstone has to go along with it or to change its number; a split keeps it always. -/
theorem leaf_move_iff (valid : ValidTombstones tombCnt left) (other : ValidTombstones tombCnt right)
    (move : LeafMove) (called : move.Called left right) :
    move.Keeps tombCnt left right ↔ move.Settled left right := by
  cases move with
  | split => exact ⟨fun _ => trivial, fun _ => split_keeps called.1 valid⟩
  | moveLastToFrontOf => exact last_keeps_iff valid other (Nat.zero_lt_of_lt called)
  | moveFirstToEndOf => exact first_keeps_iff valid other (Nat.zero_lt_of_lt called)
  | moveAllTo => exact all_keeps_iff valid other

end Moves

def threeEntries : LeafPage Nat Nat where
  maxSize := 4
  entries := [(1, 10), (2, 20), (3, 30)]

def oneDeleted : LeafPage Nat Nat where
  maxSize := 4
  entries := [(4, 40)]
  tombstones := [0]

theorem borrow_from_left_decided :
    LeafMove.moveLastToFrontOf.Keeps 1 threeEntries oneDeleted ↔
      LeafMove.moveLastToFrontOf.Settled threeEntries oneDeleted :=
  leaf_move_iff (bare_valid rfl) ⟨by decide, by decide, by decide⟩ _ (by show 2 < 3; decide)

/-- The entry that is borrowed is deleted, and the one that was deleted is live. -/
theorem deleted_entry_revived : ¬ LeafMove.moveLastToFrontOf.Keeps 1 threeEntries oneDeleted := by
  intro keeps
  exact absurd keeps.1.live (by decide)

end BusTub.LeafMoves
