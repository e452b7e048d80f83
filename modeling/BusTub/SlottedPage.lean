import BusTub.ByteRegions
import BusTub.MachineIntegers
import BusTub.DiskManager

/-!
`storage/page/table_page.cpp` on the bytes of a page. The slot directory grows up
behind the header and the tuples grow down from the end; a page that is written
outside of its bytes is not defined any more. How the compiler lays out the
`std::tuple` of a slot in its 24 bytes is a parameter.
-/

namespace BusTub.TablePage

open ByteRegions MachineIntegers MachineIntegers.Outcome

def TABLE_PAGE_HEADER_SIZE : Nat := 8

def TUPLE_INFO_SIZE : Nat := 24

structure TupleMeta where
  ts : BitVec 64
  isDeleted : Bool
  deriving DecidableEq

structure TupleInfo where
  offset : UInt16
  size : UInt16
  metadata : TupleMeta
  deriving DecidableEq

/-- The layout of a `TupleInfo`: an assignment writes its members and leaves the padding. -/
structure TupleInfoFormat where
  assign : Block → TupleInfo → Block
  get : Block → TupleInfo
  assign_length : ∀ old info, old.length = TUPLE_INFO_SIZE →
    (assign old info).length = TUPLE_INFO_SIZE
  get_assign : ∀ old info, old.length = TUPLE_INFO_SIZE → get (assign old info) = info

inductive PageError where
  | tupleIdOutOfRange
  | tupleSizeMismatch
  deriving DecidableEq

def inPage {Result : Type} (access : Option Result) : Outcome PageError Result :=
  access.elim undefined returned

@[simp] theorem in_page_some {Result : Type} (result : Result) :
    inPage (some result) = returned result := rfl

/-! ### The page -/

def numTuples (page : Block) : Nat := (read page 4 2).elim 0 ofBytes

def numDeletedTuples (page : Block) : Nat := (read page 6 2).elim 0 ofBytes

def init (page : Block) : Outcome PageError Block := do
  let page ← inPage (write page 0 [255, 255, 255, 255])
  let page ← inPage (write page 4 (toBytes 2 0))
  inPage (write page 6 (toBytes 2 0))

def infoOffset (tupleId : Nat) : Nat := TABLE_PAGE_HEADER_SIZE + TUPLE_INFO_SIZE * tupleId

def getLength (tuple : Block) : Nat := tuple.length % 2 ^ 32

section Functions

variable (format : TupleInfoFormat)

def tupleInfo (page : Block) (tupleId : Nat) : Outcome PageError TupleInfo := do
  return format.get (← inPage (read page (infoOffset tupleId) TUPLE_INFO_SIZE))

def setTupleInfo (page : Block) (tupleId : Nat) (info : TupleInfo) : Outcome PageError Block := do
  let old ← inPage (read page (infoOffset tupleId) TUPLE_INFO_SIZE)
  inPage (write page (infoOffset tupleId) (format.assign old info))

def slotEndOffset (page : Block) : Outcome PageError Nat :=
  if numTuples page > 0 then do return (← tupleInfo format page (numTuples page - 1)).offset.toNat
  else returned BUSTUB_PAGE_SIZE

def getNextTupleOffset (page tuple : Block) : Outcome PageError (Option UInt16) := do
  let slotEndOffset ← slotEndOffset format page
  let tupleOffset := (slotEndOffset + 2 ^ 64 - getLength tuple) % 2 ^ 64
  let offsetSize := TABLE_PAGE_HEADER_SIZE + TUPLE_INFO_SIZE * (numTuples page + 1)
  return if tupleOffset < offsetSize then none else some (UInt16.ofNat tupleOffset)

def insertTuple (metadata : TupleMeta) (tuple page : Block) :
    Outcome PageError (Block × Option Nat) := do
  let tupleOffset ← getNextTupleOffset format page tuple
  match tupleOffset with
  | none => return (page, none)
  | some tupleOffset =>
      let tupleId := numTuples page
      let page ← setTupleInfo format page tupleId ⟨tupleOffset,
        UInt16.ofNat (getLength tuple), metadata⟩
      let page ← inPage (write page 4 (toBytes 2 (numTuples page + 1)))
      let page ← inPage (write page tupleOffset.toNat (tuple.take (getLength tuple)))
      return (page, some tupleId)

def getTuple (page : Block) (tupleId : Nat) : Outcome PageError (TupleMeta × Block) :=
  if tupleId ≥ numTuples page then raised .tupleIdOutOfRange
  else do
    let info ← tupleInfo format page tupleId
    return (info.metadata, ← inPage (read page info.offset.toNat info.size.toNat))

def updateTupleInPlaceUnsafe (metadata : TupleMeta) (tuple : Block) (tupleId : Nat) (page : Block) :
    Outcome PageError Block :=
  if tupleId ≥ numTuples page then raised .tupleIdOutOfRange
  else do
    let info ← tupleInfo format page tupleId
    if info.size.toNat ≠ getLength tuple then raised .tupleSizeMismatch
    else do
      let page ← (if !info.metadata.isDeleted && metadata.isDeleted then
        inPage (write page 6 (toBytes 2 (numDeletedTuples page + 1))) else returned page)
      let page ← setTupleInfo format page tupleId { info with metadata := metadata }
      inPage (write page info.offset.toNat (tuple.take (getLength tuple)))

end Functions

/-! ### What the slots hold -/

structure StoredTuple where
  metadata : TupleMeta
  data : Block
  deriving DecidableEq

def used (stored : List StoredTuple) (count : Nat) : Nat :=
  ((stored.take count).map fun tuple => tuple.data.length).sum

def offsetOf (stored : List StoredTuple) (tupleId : Nat) : Nat :=
  BUSTUB_PAGE_SIZE - used stored (tupleId + 1)

/-- The page holds the stored tuples, each below the one before it. -/
structure Holds (format : TupleInfoFormat) (page : Block) (stored : List StoredTuple) : Prop where
  size : page.length = BUSTUB_PAGE_SIZE
  count : numTuples page = stored.length
  room : infoOffset stored.length + used stored stored.length ≤ BUSTUB_PAGE_SIZE
  info : ∀ tupleId tuple, stored[tupleId]? = some tuple → tupleInfo format page tupleId =
    returned ⟨UInt16.ofNat (offsetOf stored tupleId), UInt16.ofNat tuple.data.length,
      tuple.metadata⟩
  bytes : ∀ tupleId tuple, stored[tupleId]? = some tuple →
    read page (offsetOf stored tupleId) tuple.data.length = some tuple.data

section Used

variable {stored : List StoredTuple} {tuple : StoredTuple} {tupleId : Nat}

theorem used_succ (found : stored[tupleId]? = some tuple) :
    used stored (tupleId + 1) = used stored tupleId + tuple.data.length := by
  simp [used, List.take_add_one, found]

theorem used_le (stored : List StoredTuple) {first second : Nat} (le : first ≤ second) :
    used stored first ≤ used stored second := by
  induction le with
  | refl => exact Nat.le_refl _
  | @step count _ ih =>
      cases found : stored[count]? with
      | none => simpa [used, List.take_add_one, found] using ih
      | some tuple =>
          have grows := used_succ found
          rw [Nat.succ_eq_add_one]
          omega

theorem used_append (stored : List StoredTuple) (tuple : StoredTuple) {count : Nat}
    (le : count ≤ stored.length) :
    used (stored ++ [tuple]) count = used stored count := by
  simp [used, List.take_append_of_le_length le]

theorem used_set {replaced : StoredTuple} (found : stored[tupleId]? = some tuple)
    (same : replaced.data.length = tuple.data.length) (count : Nat) :
    used (stored.set tupleId replaced) count = used stored count := by
  have lengths : (stored.set tupleId replaced).map (fun tuple => tuple.data.length) =
      stored.map fun tuple => tuple.data.length := by
    apply List.ext_getElem?
    intro index
    by_cases here : tupleId = index
    · subst here
      obtain ⟨bound, rfl⟩ := List.getElem?_eq_some_iff.mp found
      simp [bound, same]
    · simp [List.getElem?_set_ne here]
  rw [used, used, List.map_take, List.map_take, lengths]

end Used

section Represented

variable {format : TupleInfoFormat} {page after : Block} {stored : List StoredTuple}
  {tuple : StoredTuple} {tupleId : Nat} {data : Block} {other : Nat}

theorem info_offset_succ (tupleId : Nat) : infoOffset (tupleId + 1) = infoOffset tupleId + 24 := by
  simp only [infoOffset, TUPLE_INFO_SIZE, Nat.mul_add]
  omega

theorem info_offset_le {first second : Nat} (le : first ≤ second) :
    infoOffset first ≤ infoOffset second := by
  simp only [infoOffset, TUPLE_INFO_SIZE]
  omega

theorem header_le (tupleId : Nat) : 8 ≤ infoOffset tupleId := by
  simp only [infoOffset, TABLE_PAGE_HEADER_SIZE]
  omega

/-- A tuple lies between the directory and the tuple before it. -/
theorem Holds.bounds (holds : Holds format page stored) (found : stored[tupleId]? = some tuple) :
    infoOffset stored.length ≤ offsetOf stored tupleId ∧
      offsetOf stored tupleId + tuple.data.length + used stored tupleId = BUSTUB_PAGE_SIZE := by
  obtain ⟨bound, _⟩ := List.getElem?_eq_some_iff.mp found
  have grows := used_succ found
  have total : used stored (tupleId + 1) ≤ used stored stored.length := used_le stored bound
  have room := holds.room
  unfold offsetOf
  omega

theorem size_small : BUSTUB_PAGE_SIZE = 8192 := rfl

theorem stored_number {number : Nat} (small : number ≤ BUSTUB_PAGE_SIZE) :
    (UInt16.ofNat number).toNat = number := by
  rw [UInt16.toNat_ofNat', size_small] at *
  omega

theorem info_written (inside : infoOffset tupleId + 24 ≤ page.length) (info : TupleInfo) :
    ∃ after, setTupleInfo format page tupleId info = returned after ∧ after.length = page.length ∧
      tupleInfo format after tupleId = returned info ∧
      ∀ other length, Apart (infoOffset tupleId) 24 other length → read after other length =
        read page other length := by
  have reads := @read_inside page (infoOffset tupleId) 24 inside
  have oldLength := (read_length reads).1
  have length := format.assign_length _ info oldLength
  obtain ⟨after, writes⟩ :=
    @write_defined page (format.assign _ info) (infoOffset tupleId) (by rw [length]; exact inside)
  refine ⟨after, ?_, write_length writes, ?_, ?_⟩
  · simp only [setTupleInfo, TUPLE_INFO_SIZE, reads, in_page_some, returned_bind, writes]
  · have back := read_written writes
    rw [length] at back
    simp only [tupleInfo, back, in_page_some, returned_bind, format.get_assign _ info oldLength,
      pure_returned]
  · intro other otherLength apart
    apply read_apart writes
    rw [length]
    exact apart

theorem Holds.slot_end (holds : Holds format page stored) :
    slotEndOffset format page = returned (BUSTUB_PAGE_SIZE - used stored stored.length) := by
  unfold slotEndOffset
  rw [holds.count]
  by_cases any : stored.length > 0
  · have bound : stored.length - 1 < stored.length := by omega
    have last : stored[stored.length - 1]? = some stored[stored.length - 1] :=
      List.getElem?_eq_getElem bound
    have found := holds.info _ _ last
    have next : stored.length - 1 + 1 = stored.length := by omega
    have small : offsetOf stored (stored.length - 1) ≤ BUSTUB_PAGE_SIZE := Nat.sub_le _ _
    rw [if_pos any, found, returned_bind, pure_returned, stored_number small, offsetOf, next]
  · have empty : stored.length = 0 := by omega
    rw [if_neg any, empty]
    rfl

theorem short_length (short : data.length ≤ BUSTUB_PAGE_SIZE) :
    getLength data = data.length := by
  rw [getLength, size_small] at *
  omega

theorem Holds.next_offset (holds : Holds format page stored)
    (short : data.length ≤ BUSTUB_PAGE_SIZE - used stored stored.length) :
    getNextTupleOffset format page data =
      returned (if BUSTUB_PAGE_SIZE - used stored stored.length < infoOffset
        (stored.length + 1) + data.length then none
        else some (UInt16.ofNat (BUSTUB_PAGE_SIZE - used stored stored.length - data.length))) := by
  have length : getLength data = data.length := short_length (by omega)
  have small := size_small
  simp only [getNextTupleOffset, holds.slot_end, returned_bind, pure_returned, holds.count, length]
  have difference : (BUSTUB_PAGE_SIZE - used stored stored.length + 2 ^ 64 - data.length) % 2 ^ 64 =
      BUSTUB_PAGE_SIZE - used stored stored.length - data.length := by omega
  have same : TABLE_PAGE_HEADER_SIZE + TUPLE_INFO_SIZE * (stored.length + 1) =
    infoOffset (stored.length + 1) := rfl
  rw [difference, same]
  have fits : BUSTUB_PAGE_SIZE - used stored stored.length - data.length <
      infoOffset (stored.length + 1) ↔ BUSTUB_PAGE_SIZE - used stored stored.length <
        infoOffset (stored.length + 1) + data.length := by omega
  simp only [fits]

theorem count_written {count : Nat} (small : count < 65536)
    (sized : page.length = BUSTUB_PAGE_SIZE) :
    ∃ after, write page 4 (toBytes 2 count) = some after ∧ after.length = BUSTUB_PAGE_SIZE ∧
      numTuples after = count ∧ ∀ other length, Apart 4 2 other length →
      read after other length = read page other length := by
  have inside : 4 + (toBytes 2 count).length ≤ page.length := by
    rw [toBytes_length, sized, size_small]
    omega
  obtain ⟨after, writes⟩ := write_defined inside
  have back := read_written writes
  rw [toBytes_length] at back
  refine ⟨after, writes, (write_length writes).trans sized, ?_, ?_⟩
  · rw [numTuples, back]
    exact bytes_kept small
  · intro other length apart
    apply read_apart writes
    rw [toBytes_length]
    exact apart

theorem info_congr (same : read after (infoOffset tupleId) 24 = read page (infoOffset tupleId) 24) :
    tupleInfo format after tupleId = tupleInfo format page tupleId := by
  simp only [tupleInfo, TUPLE_INFO_SIZE, same]

theorem appended_last {added : StoredTuple} (behind : ¬tupleId < stored.length)
    (found : (stored ++ [added])[tupleId]? = some tuple) :
    tupleId = stored.length ∧ tuple = added := by
  rw [List.getElem?_append_right (by omega)] at found
  obtain ⟨bound, here⟩ := List.getElem?_eq_some_iff.mp found
  rw [List.length_singleton] at bound
  have first : tupleId - stored.length = 0 := by omega
  simp only [first, List.getElem_cons_zero] at here
  exact ⟨by omega, here.symm⟩

theorem Holds.inserted (holds : Holds format page stored) (metadata : TupleMeta)
    (fits : infoOffset (stored.length + 1) + data.length ≤
      BUSTUB_PAGE_SIZE - used stored stored.length) :
    ∃ after, insertTuple format metadata data page = returned (after, some stored.length) ∧
      Holds format after (stored ++ [⟨metadata, data⟩]) := by
  have small := size_small
  have header := header_le stored.length
  have directory := info_offset_succ stored.length
  have room := holds.room
  obtain ⟨offset, free⟩ : ∃ offset, offset =
    BUSTUB_PAGE_SIZE - used stored stored.length - data.length := ⟨_, rfl⟩
  have begins : (UInt16.ofNat offset).toNat = offset := stored_number (by omega)
  have length : getLength data = data.length := short_length (by omega)
  have whole : data.take data.length = data := List.take_length
  have next :=
    holds.next_offset (show data.length ≤ BUSTUB_PAGE_SIZE - used stored stored.length by omega)
  rw [if_neg (by omega), ← free] at next
  -- the three writes: the slot, the number of tuples, the bytes
  obtain ⟨first, setsInfo, firstSize, firstInfo, firstKeeps⟩ :=
    @info_written format page stored.length
      (by rw [holds.size]; omega) ⟨UInt16.ofNat offset, UInt16.ofNat data.length, metadata⟩
  have firstCount : numTuples first = stored.length := by
    rw [numTuples, firstKeeps 4 2 (.inr (by omega)), ← numTuples, holds.count]
  have few : stored.length + 1 < 65536 := by
    simp only [infoOffset, TUPLE_INFO_SIZE, TABLE_PAGE_HEADER_SIZE] at fits
    omega
  obtain ⟨second, writesCount, secondSize, secondCount, secondKeeps⟩ :=
    @count_written first (stored.length + 1) few (firstSize.trans holds.size)
  obtain ⟨third, writesData⟩ := @write_defined second data offset (by rw [secondSize]; omega)
  have thirdKeeps : ∀ other otherLength, Apart offset data.length other otherLength →
      read third other otherLength = read second other otherLength :=
        fun _ _ apart => read_apart writesData apart
  refine ⟨third, ?_, ?_⟩
  · simp only [insertTuple, next, returned_bind, holds.count, length, setsInfo, firstCount,
      writesCount, in_page_some, begins, whole, writesData, pure_returned]
  · have appended : ∀ tupleId, tupleId < stored.length →
        offsetOf (stored ++ [⟨metadata, data⟩]) tupleId = offsetOf stored tupleId :=
          fun tupleId bound => by
      rw [offsetOf, offsetOf, used_append stored _ bound]
    have total : used (stored ++ [⟨metadata, data⟩]) (stored.length + 1) =
      used stored stored.length + data.length := by
      have last : (stored ++ [⟨metadata, data⟩])[stored.length]? = some ⟨metadata, data⟩ := by simp
      rw [used_succ last, used_append stored _ (Nat.le_refl _)]
    have placed : offsetOf (stored ++ [⟨metadata, data⟩]) stored.length = offset := by
      rw [offsetOf, total]
      omega
    have kept : ∀ other otherLength, Apart (infoOffset stored.length) 24 other otherLength →
        Apart 4 2 other otherLength → Apart offset data.length other otherLength →
        read third other otherLength = read page other otherLength := fun _ _ info count bytes =>
      (thirdKeeps _ _ bytes).trans ((secondKeeps _ _ count).trans (firstKeeps _ _ info))
    constructor
    · rw [write_length writesData, secondSize]
    · rw [numTuples, thirdKeeps 4 2 (.inr (by omega)), ← numTuples, secondCount, List.length_append,
        List.length_singleton]
    · rw [List.length_append, List.length_singleton, total]
      omega
    · intro tupleId tuple found
      by_cases before : tupleId < stored.length
      · rw [List.getElem?_append_left before] at found
        have below : infoOffset (tupleId + 1) ≤ infoOffset stored.length := info_offset_le before
        have own := info_offset_succ tupleId
        have ownHeader := header_le tupleId
        rw [info_congr (kept _ _ (.inr (by omega)) (.inl (by omega)) (.inr (by omega))),
            holds.info _ _ found, appended _ before]
      · obtain ⟨here, rfl⟩ := appended_last before found
        subst here
        rw [info_congr (thirdKeeps _ _ (.inr (by omega))),
            info_congr (secondKeeps _ _ (.inl (by omega))), firstInfo, placed]
    · intro tupleId tuple found
      by_cases before : tupleId < stored.length
      · rw [List.getElem?_append_left before] at found
        have place := holds.bounds found
        have earlier : used stored (tupleId + 1) ≤ used stored stored.length :=
          used_le stored before
        have grows := used_succ found
        rw [appended _ before,
            kept _ _ (.inl (by omega)) (.inl (by omega)) (.inl (by unfold offsetOf at *; omega)),
              holds.bytes _ _ found]
      · obtain ⟨here, rfl⟩ := appended_last before found
        subst here
        rw [placed]
        exact read_written writesData

theorem set_here {replaced : StoredTuple} (bound : tupleId < stored.length)
    (found : (stored.set tupleId replaced)[tupleId]? = some tuple) : tuple = replaced := by
  rw [List.getElem?_set_self bound] at found
  exact (Option.some.inj found).symm

theorem info_apart (different : tupleId ≠ other) :
    Apart (infoOffset tupleId) 24 (infoOffset other) 24 := by
  simp only [Apart, infoOffset, TUPLE_INFO_SIZE]
  omega

theorem Holds.apart (holds : Holds format page stored) {otherTuple : StoredTuple}
    (different : tupleId ≠ other) (found : stored[tupleId]? = some tuple)
    (otherFound : stored[other]? = some otherTuple) :
    Apart (offsetOf stored tupleId) tuple.data.length (offsetOf stored other)
      otherTuple.data.length := by
  have place := holds.bounds found
  have otherPlace := holds.bounds otherFound
  have grows := used_succ found
  have otherGrows := used_succ otherFound
  rcases Nat.lt_or_gt_of_ne different with before | behind
  · have order : used stored (tupleId + 1) ≤ used stored other := used_le stored before
    exact .inr (by omega)
  · have order : used stored (other + 1) ≤ used stored tupleId := used_le stored behind
    exact .inl (by omega)

theorem deleted_counted (sized : page.length = BUSTUB_PAGE_SIZE) (counts : Bool) (number : Nat) :
    ∃ after, (if counts then inPage (write page 6 (toBytes 2 number)) else returned page) =
      returned after ∧ after.length = BUSTUB_PAGE_SIZE ∧
      ∀ other length, Apart 6 2 other length →
      read after other length = read page other length := by
  cases counts with
  | false => exact ⟨page, rfl, sized, fun _ _ _ => rfl⟩
  | true =>
      obtain ⟨after, writes⟩ :=
        @write_defined page (toBytes 2 number) 6 (by rw [toBytes_length, sized, size_small]; omega)
      refine ⟨after,
        by rw [if_pos rfl, writes, in_page_some], (write_length writes).trans sized, ?_⟩
      intro other length apart
      apply read_apart writes
      rw [toBytes_length]
      exact apart

/-- The bytes and the metadata of one slot are replaced where they lie. -/
theorem Holds.updated (holds : Holds format page stored) (metadata : TupleMeta)
    (found : stored[tupleId]? = some tuple) (same : data.length = tuple.data.length) :
    ∃ after, updateTupleInPlaceUnsafe format metadata data tupleId page = returned after ∧
      Holds format after (stored.set tupleId ⟨metadata, data⟩) := by
  obtain ⟨bound, _⟩ := List.getElem?_eq_some_iff.mp found
  have small := size_small
  have header := header_le tupleId
  have directory := info_offset_succ tupleId
  have below : infoOffset (tupleId + 1) ≤ infoOffset stored.length := info_offset_le bound
  have room := holds.room
  have place := holds.bounds found
  have begins : (UInt16.ofNat (offsetOf stored tupleId)).toNat = offsetOf stored tupleId :=
    stored_number (by omega)
  have sized : (UInt16.ofNat tuple.data.length).toNat = tuple.data.length :=
    stored_number (by omega)
  have length : getLength data = data.length := short_length (by omega)
  have whole : data.take data.length = data := List.take_length
  obtain ⟨first, counts, firstSize, firstKeeps⟩ := deleted_counted holds.size
    (!tuple.metadata.isDeleted && metadata.isDeleted) (numDeletedTuples page + 1)
  obtain ⟨second, setsInfo, secondSize, secondInfo, secondKeeps⟩ :=
    @info_written format first tupleId
      (by rw [firstSize]; omega)
      ⟨UInt16.ofNat (offsetOf stored tupleId), UInt16.ofNat tuple.data.length, metadata⟩
  obtain ⟨third, writesData⟩ := @write_defined second data (offsetOf stored tupleId)
    (by rw [secondSize, firstSize]; omega)
  have thirdKeeps : ∀ other otherLength, Apart (offsetOf stored tupleId) data.length
      other otherLength → read third other otherLength = read second other otherLength :=
        fun _ _ apart => read_apart writesData apart
  have kept : ∀ other otherLength, Apart 6 2 other otherLength →
      Apart (infoOffset tupleId) 24 other otherLength →
        Apart (offsetOf stored tupleId) data.length other otherLength →
      read third other otherLength = read page other otherLength := fun _ _ count info bytes =>
    (thirdKeeps _ _ bytes).trans ((secondKeeps _ _ info).trans (firstKeeps _ _ count))
  have usedSame : ∀ count, used (stored.set tupleId ⟨metadata, data⟩) count = used stored count :=
    fun count =>
      used_set found same count
  have placed : ∀ index, offsetOf (stored.set tupleId ⟨metadata, data⟩) index =
      offsetOf stored index :=
    fun index => by
    rw [offsetOf, offsetOf, usedSame]
  refine ⟨third, ?_, ?_⟩
  · have listed : ¬tupleId ≥ numTuples page := by
      rw [holds.count]
      omega
    simp only [updateTupleInPlaceUnsafe, listed, if_false, holds.info _ _ found, returned_bind,
      sized, length, same, ne_eq, not_true, counts, setsInfo, begins]
    rw [← same, whole, writesData, in_page_some]
  · constructor
    · rw [write_length writesData, secondSize, firstSize]
    · rw [numTuples, kept 4 2 (.inr (by omega)) (.inr (by omega)) (.inr (by omega)), ← numTuples,
          holds.count, List.length_set]
    · rw [List.length_set, usedSame]
      exact room
    · intro other otherTuple otherFound
      by_cases here : tupleId = other
      · subst here
        obtain rfl := (set_here bound otherFound).symm
        rw [info_congr (thirdKeeps _ _ (.inr (by omega))), secondInfo, placed, same]
      · rw [List.getElem?_set_ne here] at otherFound
        have otherHeader := header_le other
        have otherDirectory := info_offset_succ other
        have otherBelow : infoOffset (other + 1) ≤ infoOffset stored.length :=
          info_offset_le (List.getElem?_eq_some_iff.mp otherFound).1
        have order := info_apart here
        rw [info_congr (kept _ _ (.inl (by omega)) order (.inr (by omega))),
          holds.info _ _ otherFound, placed]
    · intro other otherTuple otherFound
      by_cases here : tupleId = other
      · subst here
        obtain rfl := (set_here bound otherFound).symm
        rw [placed]
        exact read_written writesData
      · rw [List.getElem?_set_ne here] at otherFound
        have otherPlace := holds.bounds otherFound
        rw [placed,
            kept _ _ (.inl (by omega)) (.inl (by omega)) (same ▸ holds.apart here found otherFound),
              holds.bytes _ _ otherFound]

theorem Holds.found (holds : Holds format page stored) (found : stored[tupleId]? = some tuple) :
    getTuple format page tupleId = returned (tuple.metadata, tuple.data) := by
  have bound := (List.getElem?_eq_some_iff.mp found).1
  have place := holds.bounds found
  have small := size_small
  have listed : ¬tupleId ≥ numTuples page := by
    rw [holds.count]
    omega
  have begins : (UInt16.ofNat (offsetOf stored tupleId)).toNat = offsetOf stored tupleId :=
    stored_number (by omega)
  have sized : (UInt16.ofNat tuple.data.length).toNat = tuple.data.length :=
    stored_number (by omega)
  simp only [getTuple, listed, if_false, holds.info _ _ found, returned_bind, begins, sized,
    holds.bytes _ _ found, in_page_some, pure_returned]

theorem init_holds {bytes : Block} (sized : bytes.length = BUSTUB_PAGE_SIZE) :
    ∃ page, init bytes = returned page ∧ Holds format page [] := by
  have small := size_small
  obtain ⟨first, writesNext⟩ := @write_defined bytes [255, 255, 255, 255] 0 (by simp [sized, small])
  have firstSize := (write_length writesNext).trans sized
  obtain ⟨second, writesCount, secondSize, secondCount, _⟩ :=
    @count_written first 0 (by decide) firstSize
  obtain ⟨third, writesDeleted⟩ :=
    @write_defined second (toBytes 2 0) 6 (by rw [toBytes_length, secondSize, small]; omega)
  have counted : numTuples third = 0 := by
    have apart : Apart 6 (toBytes 2 0).length 4 2 := by decide
    rw [numTuples, read_apart writesDeleted apart, ← numTuples, secondCount]
  refine ⟨third, ?_, (write_length writesDeleted).trans secondSize, counted,
    by decide, by simp, by simp⟩
  simp only [init, writesNext, writesCount, writesDeleted, in_page_some, returned_bind]

end Represented

/-! ### Runs -/

structure TupleData where
  data : Block
  small : data.length < 2 ^ 32

inductive Operation where
  | insertTuple (metadata : TupleMeta) (tuple : TupleData)
  | updateTupleInPlaceUnsafe (metadata : TupleMeta) (tuple : TupleData) (tupleId : Nat)

section Runs

variable (format : TupleInfoFormat) {tupleId : Nat} {operations : List Operation}

/-- One operation on the page, with what was last stored in each slot beside it. One that throws
leaves both alone; one that is not defined ends the run. -/
def step (page : Block) (stored : List StoredTuple) : Operation → Option (Block × List StoredTuple)
  | .insertTuple metadata tuple =>
      match insertTuple format metadata tuple.data page with
      | returned (page, some _) => some (page, stored ++ [⟨metadata, tuple.data⟩])
      | returned (page, none) => some (page, stored)
      | raised _ => some (page, stored)
      | undefined => none
  | .updateTupleInPlaceUnsafe metadata tuple tupleId =>
      match updateTupleInPlaceUnsafe format metadata tuple.data tupleId page with
      | returned page => some (page, stored.set tupleId ⟨metadata, tuple.data⟩)
      | raised _ => some (page, stored)
      | undefined => none

def run (page : Block) (stored : List StoredTuple) :
    List Operation → Option (Block × List StoredTuple)
  | [] => some (page, stored)
  | operation :: rest => (step format page stored operation).bind fun next => run next.1 next.2 rest

/-- A tuple that is inserted is not longer than the bytes from the page's start to the last
tuple. -/
def Reaches (page : Block) : Operation → Prop
  | .insertTuple _ tuple => ∀ slotEnd, slotEndOffset format page = returned slotEnd →
    tuple.data.length ≤ slotEnd
  | _ => True

/-- A tuple is refused just when it and its slot do not fit between the directory and the last
tuple. -/
def RefusedFull (page : Block) : Operation → Prop
  | .insertTuple metadata tuple => ∀ slotEnd, slotEndOffset format page = returned slotEnd →
      (insertTuple format metadata tuple.data page = returned (page, none) ↔
        slotEnd < infoOffset (numTuples page + 1) + tuple.data.length)
  | _ => True

/-- What holds of each operation of a run on the page that it comes to. -/
def Along (property : Block → Operation → Prop) (page : Block) (stored : List StoredTuple) :
    List Operation → Prop
  | [] => True
  | operation :: rest => property page operation ∧
      ∀ next, step format page stored operation = some next → Along property next.1 next.2 rest

/-- What the page promises: its tuples lie apart from each other and from the directory, and each
slot gives back what it was last given. -/
structure Integrity (page : Block) (stored : List StoredTuple) : Prop where
  count : numTuples page = stored.length
  inside : ∀ tupleId < numTuples page, ∀ info, tupleInfo format page tupleId = returned info →
    infoOffset (numTuples page) ≤ info.offset.toNat ∧ info.offset.toNat + info.size.toNat ≤
      BUSTUB_PAGE_SIZE
  apart : ∀ first < numTuples page, ∀ second < numTuples page, first ≠ second →
    ∀ firstInfo, tupleInfo format page first = returned firstInfo →
    ∀ secondInfo, tupleInfo format page second = returned secondInfo →
      Apart firstInfo.offset.toNat firstInfo.size.toNat secondInfo.offset.toNat
        secondInfo.size.toNat
  found : ∀ tupleId tuple, stored[tupleId]? = some tuple →
    getTuple format page tupleId = returned (tuple.metadata, tuple.data)

variable {format} {page : Block} {stored : List StoredTuple}

theorem Holds.listed (holds : Holds format page stored) (bound : tupleId < numTuples page) :
    ∃ tuple, stored[tupleId]? = some tuple := by
  rw [holds.count] at bound
  exact ⟨_, List.getElem?_eq_getElem bound⟩

theorem Holds.refused (holds : Holds format page stored) (metadata : TupleMeta) {data : Block}
    (short : data.length ≤ BUSTUB_PAGE_SIZE - used stored stored.length)
    (large : BUSTUB_PAGE_SIZE - used stored stored.length < infoOffset (stored.length + 1) +
      data.length) :
    insertTuple format metadata data page = returned (page, none) := by
  have next := holds.next_offset short
  rw [if_pos large] at next
  simp only [insertTuple, next, returned_bind, pure_returned]

theorem Holds.integrity (holds : Holds format page stored) : Integrity format page stored := by
  have small := size_small
  have read : ∀ {tupleId tuple info}, stored[tupleId]? = some tuple →
      tupleInfo format page tupleId = returned info → info.offset.toNat = offsetOf stored tupleId ∧
        info.size.toNat = tuple.data.length := by
    intro tupleId tuple info found reads
    have place := holds.bounds found
    rw [holds.info _ _ found] at reads
    obtain rfl := Outcome.returned.inj reads
    exact ⟨stored_number (by omega), stored_number (by omega)⟩
  constructor
  · exact holds.count
  · intro tupleId bound info reads
    obtain ⟨tuple, found⟩ := holds.listed bound
    obtain ⟨begins, sized⟩ := read found reads
    have place := holds.bounds found
    rw [begins, sized, holds.count]
    omega
  · intro first firstBound second secondBound different firstInfo firstReads secondInfo secondReads
    obtain ⟨firstTuple, firstFound⟩ := holds.listed firstBound
    obtain ⟨secondTuple, secondFound⟩ := holds.listed secondBound
    obtain ⟨firstBegins, firstSized⟩ := read firstFound firstReads
    obtain ⟨secondBegins, secondSized⟩ := read secondFound secondReads
    rw [firstBegins, firstSized, secondBegins, secondSized]
    exact holds.apart different firstFound secondFound
  · intro tupleId tuple found
    exact holds.found found

theorem Holds.refused_full (holds : Holds format page stored) {operation : Operation}
    (reaches : Reaches format page operation) : RefusedFull format page operation := by
  cases operation with
  | insertTuple metadata tuple =>
      intro slotEnd ends
      have short := reaches slotEnd ends
      rw [holds.slot_end] at ends
      obtain rfl := Outcome.returned.inj ends
      rw [holds.count]
      constructor
      · intro refuses
        by_contra fits
        obtain ⟨after, inserts, _⟩ := holds.inserted metadata (Nat.not_lt.mp fits)
        rw [inserts] at refuses
        cases refuses
      · exact holds.refused metadata short
  | updateTupleInPlaceUnsafe => trivial

/-- The difference wraps: a tuple longer than what lies before the last one is not refused, and
its bytes go past the end of the page. -/
theorem Holds.overruns (holds : Holds format page stored) (metadata : TupleMeta) (tuple : TupleData)
    (long : BUSTUB_PAGE_SIZE - used stored stored.length < tuple.data.length) :
    insertTuple format metadata tuple.data page = undefined := by
  have size := size_small
  have header := header_le stored.length
  have directory := info_offset_succ stored.length
  have room := holds.room
  have small := tuple.small
  have length : getLength tuple.data = tuple.data.length := Nat.mod_eq_of_lt small
  have whole : tuple.data.take tuple.data.length = tuple.data := List.take_length
  obtain ⟨slotEnd, ends⟩ : ∃ slotEnd, slotEnd = BUSTUB_PAGE_SIZE - used stored stored.length :=
    ⟨_, rfl⟩
  rw [← ends] at long
  have wrapped : (slotEnd + 2 ^ 64 - tuple.data.length) % 2 ^ 64 =
    slotEnd + 2 ^ 64 - tuple.data.length := by omega
  have accepted : ¬slotEnd + 2 ^ 64 - tuple.data.length < TABLE_PAGE_HEADER_SIZE + TUPLE_INFO_SIZE *
    (stored.length + 1) := by
    have same : TABLE_PAGE_HEADER_SIZE + TUPLE_INFO_SIZE * (stored.length + 1) =
      infoOffset (stored.length + 1) := rfl
    omega
  obtain ⟨offset, placed⟩ : ∃ offset, offset =
    UInt16.ofNat (slotEnd + 2 ^ 64 - tuple.data.length) := ⟨_, rfl⟩
  have begins : offset.toNat = (slotEnd + 2 ^ 64 - tuple.data.length) % 2 ^ 16 := by
    rw [placed, UInt16.toNat_ofNat']
  have beyond : BUSTUB_PAGE_SIZE < offset.toNat + tuple.data.length := by omega
  simp only [insertTuple, getNextTupleOffset, holds.slot_end, ← ends, returned_bind,
    pure_returned, holds.count, length,
    wrapped, accepted, if_false, ← placed]
  by_cases slot : infoOffset stored.length + 24 ≤ page.length
  · obtain ⟨first, setsInfo, firstSize, _, firstKeeps⟩ :=
      @info_written format page stored.length slot
        ⟨offset, UInt16.ofNat tuple.data.length, metadata⟩
    have firstCount : numTuples first = stored.length := by
      rw [numTuples, firstKeeps 4 2 (.inr (by omega)), ← numTuples, holds.count]
    obtain ⟨second, writesCount⟩ := @write_defined first (toBytes 2 (stored.length + 1)) 4
      (by rw [toBytes_length, firstSize, holds.size]; omega)
    have secondSize := (write_length writesCount).trans (firstSize.trans holds.size)
    have outside : write second offset.toNat tuple.data = none :=
      write_outside (by rw [secondSize]; exact beyond)
    simp only [setsInfo, returned_bind, firstCount, writesCount, in_page_some, whole, outside]
    rfl
  · have outside : read page (infoOffset stored.length) TUPLE_INFO_SIZE = none := if_neg slot
    simp only [setTupleInfo, outside]
    rfl

theorem Holds.mismatched (holds : Holds format page stored) (metadata : TupleMeta)
    (tuple : TupleData)
    (other : ∀ found, stored[tupleId]? = some found → tuple.data.length ≠ found.data.length) :
    ∃ error, updateTupleInPlaceUnsafe format metadata tuple.data tupleId page = raised error := by
  have size := size_small
  have length : getLength tuple.data = tuple.data.length := Nat.mod_eq_of_lt tuple.small
  by_cases bound : tupleId < stored.length
  · have found : stored[tupleId]? = some stored[tupleId] := List.getElem?_eq_getElem bound
    have place := holds.bounds found
    have sized : (UInt16.ofNat stored[tupleId].data.length).toNat = stored[tupleId].data.length :=
      stored_number (by omega)
    have listed : ¬tupleId ≥ numTuples page := by
      rw [holds.count]
      omega
    have differs : stored[tupleId].data.length ≠ tuple.data.length :=
      fun same => other _ found same.symm
    exact ⟨.tupleSizeMismatch, by
      simp only [updateTupleInPlaceUnsafe, listed, if_false, holds.info _ _ found, returned_bind,
        sized, length, if_pos differs]⟩
  · have outside : tupleId ≥ numTuples page := by
      rw [holds.count]
      omega
    exact ⟨.tupleIdOutOfRange, by rw [updateTupleInPlaceUnsafe, if_pos outside]⟩

theorem Holds.step (holds : Holds format page stored) {operation : Operation}
    (reaches : Reaches format page operation) :
    ∃ next, step format page stored operation = some next ∧ Holds format next.1 next.2 := by
  cases operation with
  | insertTuple metadata tuple =>
      have short := reaches _ holds.slot_end
      by_cases large : BUSTUB_PAGE_SIZE - used stored stored.length < infoOffset
        (stored.length + 1) + tuple.data.length
      · exact ⟨(page, stored),
          by simp only [TablePage.step, holds.refused metadata short large], holds⟩
      · obtain ⟨after, inserts, next⟩ := holds.inserted metadata (Nat.not_lt.mp large)
        exact ⟨(after, _), by simp only [TablePage.step, inserts], next⟩
  | updateTupleInPlaceUnsafe metadata tuple tupleId =>
      by_cases other : ∀ found, stored[tupleId]? = some found →
        tuple.data.length ≠ found.data.length
      · obtain ⟨error, raises⟩ := holds.mismatched metadata tuple other
        exact ⟨(page, stored), by simp only [TablePage.step, raises], holds⟩
      · obtain ⟨old, found, same⟩ : ∃ old, stored[tupleId]? = some old ∧
            tuple.data.length = old.data.length := by
          simpa only [not_forall, not_not, exists_prop] using other
        obtain ⟨after, updates, next⟩ := holds.updated metadata found same
        exact ⟨(after, _), by simp only [TablePage.step, updates], next⟩

theorem Holds.run (holds : Holds format page stored)
    (reach : Along format (Reaches format) page stored operations) :
    ∃ final, run format page stored operations = some final ∧ Holds format final.1 final.2 ∧
      Along format (RefusedFull format) page stored operations := by
  induction operations generalizing page stored with
  | nil => exact ⟨(page, stored), rfl, holds, trivial⟩
  | cons operation rest ih =>
      obtain ⟨next, steps, held⟩ := holds.step reach.1
      obtain ⟨final, runs, last, refused⟩ := ih held (reach.2 next steps)
      refine ⟨final, by rw [TablePage.run, steps, Option.bind_some, runs], last,
        holds.refused_full reach.1, fun other stepped => ?_⟩
      obtain rfl := Option.some.inj (steps.symm.trans stepped)
      exact refused

theorem Holds.run_reaches (holds : Holds format page stored)
    (ends : TablePage.run format page stored operations ≠ none) :
    Along format (Reaches format) page stored operations := by
  induction operations generalizing page stored with
  | nil => trivial
  | cons operation rest ih =>
      have reaches : Reaches format page operation := by
        cases operation with
        | insertTuple metadata tuple =>
            intro slotEnd slotEnds
            rw [holds.slot_end] at slotEnds
            obtain rfl := Outcome.returned.inj slotEnds
            by_contra long
            apply ends
            simp only [TablePage.run, TablePage.step,
              holds.overruns metadata tuple (Nat.not_le.mp long)]
            rfl
        | updateTupleInPlaceUnsafe => trivial
      constructor
      · exact reaches
      · intro next steps
        obtain ⟨other, same, held⟩ := holds.step reaches
        obtain rfl := Option.some.inj (same.symm.trans steps)
        rw [TablePage.run, steps, Option.bind_some] at ends
        exact ih held ends

/-- A run on a page that `Init` has set up keeps its promises if and only if no tuple that is
inserted is longer than the bytes in front of the last one. -/
theorem page_integrity_iff (format : TupleInfoFormat) {bytes : Block}
    (sized : bytes.length = BUSTUB_PAGE_SIZE) (operations : List Operation) :
    (∃ page final, init bytes = returned page ∧
      TablePage.run format page [] operations = some final ∧ Integrity format final.1 final.2 ∧
      Along format (RefusedFull format) page [] operations) ↔
    ∀ page, init bytes = returned page → Along format (Reaches format) page [] operations := by
  obtain ⟨start, starts, holds⟩ := @init_holds format bytes sized
  constructor
  · rintro ⟨page, final, inits, runs, _⟩ other otherInits
    obtain rfl := Outcome.returned.inj (otherInits.symm.trans starts)
    obtain rfl := Outcome.returned.inj (inits.symm.trans starts)
    exact holds.run_reaches (by rw [runs]; simp)
  · intro reach
    obtain ⟨final, runs, held, refused⟩ := holds.run (reach start starts)
    exact ⟨start, final, starts, runs, held.integrity, refused⟩

end Runs

/-- The members of the tuple in the order of libstdc++, the last one first. -/
def reversedFormat : TupleInfoFormat where
  assign old info :=
    toBytes 8 info.metadata.ts.toNat ++ (UInt8.ofNat info.metadata.isDeleted.toNat ::
    ((old.drop 9).take 7 ++
      (toBytes 2 info.size.toNat ++ (toBytes 2 info.offset.toNat ++ old.drop 20))))
  get block :=
    { offset := UInt16.ofNat (ofBytes ((block.drop 18).take 2))
      size := UInt16.ofNat (ofBytes ((block.drop 16).take 2))
      metadata :=
        { ts := BitVec.ofNat 64 (ofBytes (block.take 8)), isDeleted := block[8]? = some 1 } }
  assign_length old info sized := by
    simp only [List.length_append, List.length_cons, toBytes_length, List.length_take,
      List.length_drop, sized, TUPLE_INFO_SIZE]
    rfl
  get_assign old info sized := by
    obtain ⟨offset, size, ts, isDeleted⟩ := info
    have offsetKept : ofBytes (toBytes 2 offset.toNat) = offset.toNat :=
      bytes_kept (by have := offset.toNat_lt; omega)
    have sizeKept : ofBytes (toBytes 2 size.toNat) = size.toNat :=
      bytes_kept (by have := size.toNat_lt; omega)
    have timeKept : ofBytes (toBytes 8 ts.toNat) = ts.toNat :=
      bytes_kept (by have := ts.isLt; omega)
    have flagKept : decide (UInt8.ofNat isDeleted.toNat = 1) = isDeleted := by
      cases isDeleted <;> rfl
    have timeDropped : ∀ count, 8 ≤ count → (toBytes 8 ts.toNat).drop count = [] := fun count le =>
      List.drop_eq_nil_of_le (by rw [toBytes_length]; exact le)
    have paddingDropped : ((old.drop 9).take 7).drop 9 = [] :=
      List.drop_eq_nil_of_le (by rw [List.length_take]; omega)
    simp [List.drop_append, sized, TUPLE_INFO_SIZE, offsetKept, sizeKept, timeKept, flagKept,
      timeDropped, paddingDropped]

def oversized : Operation :=
  .insertTuple ⟨0, false⟩ ⟨List.replicate 9000 0, by rw [List.length_replicate]; decide⟩

def blank : Block := List.replicate BUSTUB_PAGE_SIZE 0

theorem blank_kept :
    (∃ page final, init blank = returned page ∧
      TablePage.run reversedFormat page [] [.insertTuple ⟨0, false⟩ ⟨[1, 2, 3], by decide⟩] =
        some final ∧ Integrity reversedFormat final.1 final.2 ∧
      Along reversedFormat (RefusedFull reversedFormat) page []
        [.insertTuple ⟨0, false⟩ ⟨[1, 2, 3], by decide⟩]) ↔
    ∀ page, init blank = returned page →
      Along reversedFormat (Reaches reversedFormat) page []
        [.insertTuple ⟨0, false⟩ ⟨[1, 2, 3], by decide⟩] :=
  page_integrity_iff reversedFormat List.length_replicate _

theorem oversized_overruns :
    ¬∃ page final, init blank = returned page ∧
      TablePage.run reversedFormat page [] [oversized] = some final ∧
      Integrity reversedFormat final.1 final.2 ∧
      Along reversedFormat (RefusedFull reversedFormat) page [] [oversized] := by
  rintro ⟨page, final, inits, runs, _⟩
  obtain ⟨start, starts, holds⟩ := @init_holds reversedFormat blank List.length_replicate
  obtain rfl := Outcome.returned.inj (inits.symm.trans starts)
  have reach : Along reversedFormat (Reaches reversedFormat) page [] [oversized] :=
    holds.run_reaches (by rw [runs]; simp)
  have short := reach.1 _ holds.slot_end
  have length : (List.replicate 9000 (0 : UInt8)).length = 9000 := List.length_replicate
  simp only [length, used, List.length_nil, List.take_nil, List.map_nil, List.sum_nil, size_small]
    at short
  omega

end BusTub.TablePage
