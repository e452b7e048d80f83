import Mathlib.Algebra.GroupWithZero.Nat
import Mathlib.Data.List.Basic

/-!
Blocks of bytes that are read and written by region, and numbers as bytes in
little-endian order. What lies outside of a block is neither read nor written:
there is no answer then.
-/

namespace ByteRegions

abbrev Block := List UInt8

def read (block : Block) (offset length : Nat) : Option Block :=
  if offset + length ≤ block.length then some ((block.drop offset).take length) else none

def write (block : Block) (offset : Nat) (data : Block) : Option Block :=
  if offset + data.length ≤ block.length then
    some (block.take offset ++ (data ++ block.drop (offset + data.length)))
  else none

def Apart (first firstLength second secondLength : Nat) : Prop :=
  first + firstLength ≤ second ∨ second + secondLength ≤ first

instance (first firstLength second secondLength : Nat) :
    Decidable (Apart first firstLength second secondLength) :=
  inferInstanceAs (Decidable (_ ∨ _))

section Regions

variable {block after data : Block} {offset length : Nat}

theorem Apart.symm {first firstLength second secondLength : Nat}
    (apart : Apart first firstLength second secondLength) :
    Apart second secondLength first firstLength := Or.symm apart

theorem read_inside (inside : offset + length ≤ block.length) :
    read block offset length = some ((block.drop offset).take length) := if_pos inside

theorem read_length {found : Block} (reads : read block offset length = some found) :
    found.length = length ∧ offset + length ≤ block.length := by
  unfold read at reads
  split at reads
  · obtain rfl := Option.some.inj reads
    rw [List.length_take, List.length_drop]
    omega
  · cases reads

theorem write_inside (inside : offset + data.length ≤ block.length) :
    write block offset data =
      some (block.take offset ++ (data ++ block.drop (offset + data.length))) := if_pos inside

theorem write_defined (inside : offset + data.length ≤ block.length) :
    ∃ after, write block offset data = some after :=
  ⟨_, write_inside inside⟩

theorem write_bound (writes : write block offset data = some after) :
    offset + data.length ≤ block.length := by
  unfold write at writes
  split at writes
  · assumption
  · cases writes

theorem write_outside (outside : block.length < offset + data.length) :
    write block offset data = none :=
  if_neg (Nat.not_le.mpr outside)

theorem write_length (writes : write block offset data = some after) :
    after.length = block.length := by
  have bound := write_bound writes
  rw [write_inside bound] at writes
  obtain rfl := Option.some.inj writes
  simp only [List.length_append, List.length_take, List.length_drop]
  omega

theorem read_written (writes : write block offset data = some after) :
    read after offset data.length = some data := by
  have bound := write_bound writes
  have size := write_length writes
  rw [read_inside (by omega)]
  rw [write_inside bound] at writes
  obtain rfl := Option.some.inj writes
  have front : (block.take offset).length = offset := by
    rw [List.length_take]
    omega
  rw [List.drop_left' front, List.take_left' rfl]

theorem written_byte (writes : write block offset data = some after) {index : Nat}
    (apart : index < offset ∨ offset + data.length ≤ index) : after[index]? = block[index]? := by
  have bound := write_bound writes
  rw [write_inside bound] at writes
  obtain rfl := Option.some.inj writes
  have front : (block.take offset).length = offset := by
    rw [List.length_take]
    omega
  rcases apart with before | behind
  · rw [List.getElem?_append_left (by omega), List.getElem?_take, if_pos before]
  · rw [List.getElem?_append_right (by omega), List.getElem?_append_right (by omega),
      List.getElem?_drop]
    congr 1
    omega

/-- A write leaves every region alone that it has no byte in common with. -/
theorem read_apart (writes : write block offset data = some after) {other otherLength : Nat}
    (apart : Apart offset data.length other otherLength) :
    read after other otherLength = read block other otherLength := by
  have size := write_length writes
  unfold read
  rw [size]
  split
  · congr 1
    apply List.ext_getElem?
    intro index
    rw [List.getElem?_take, List.getElem?_take]
    split
    · rw [List.getElem?_drop, List.getElem?_drop]
      apply written_byte writes
      rcases apart with before | behind
      · exact .inr (by omega)
      · exact .inl (by omega)
    · rfl
  · rfl

end Regions

/-! ### Numbers -/

def toBytes : Nat → Nat → Block
  | 0, _ => []
  | width + 1, number => UInt8.ofNat number :: toBytes width (number / 256)

def ofBytes : Block → Nat
  | [] => 0
  | byte :: rest => byte.toNat + 256 * ofBytes rest

@[simp] theorem toBytes_length (width number : Nat) : (toBytes width number).length = width := by
  induction width generalizing number with
  | zero => rfl
  | succ width ih => simp [toBytes, ih]

theorem ofBytes_toBytes (width number : Nat) :
    ofBytes (toBytes width number) = number % 256 ^ width := by
  induction width generalizing number with
  | zero => simp [toBytes, ofBytes, Nat.mod_one]
  | succ width ih =>
      have split := @Nat.mod_mul 256 (256 ^ width) number
      rw [toBytes, ofBytes, ih, Nat.pow_succ', UInt8.toNat_ofNat']
      omega

theorem bytes_kept {width number : Nat} (fits : number < 256 ^ width) :
    ofBytes (toBytes width number) = number := by
  rw [ofBytes_toBytes, Nat.mod_eq_of_lt fits]

end ByteRegions
