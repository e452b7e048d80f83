import Mathlib.Algebra.Ring.Int.Defs
import BusTub.ByteRegions
import BusTub.UndoLog

/-!
`storage/table/tuple.cpp`: how the values of a tuple become bytes and come back. A
value is held as the bytes of its C++ member, so that a DECIMAL is the 64 bits of a
`double`. Sizes and offsets are `uint32_t`; what is read or written outside of the
tuple's bytes has no answer, and neither has what throws. `VECTOR` columns are
stored as `VARCHAR` ones are.
-/

namespace BusTub.TupleEncoding

open ByteRegions

/-! ### Values and schemas -/

inductive FixedType where
  | boolean
  | tinyint
  | smallint
  | integer
  | bigint
  | decimal
  | timestamp
  deriving DecidableEq

namespace FixedType

def size : FixedType → Nat
  | boolean | tinyint => 1
  | smallint => 2
  | integer => 4
  | bigint | decimal | timestamp => 8

/-- The bits that stand for NULL: the least number, for DECIMAL the lowest `double`, for
TIMESTAMP the largest number. -/
def nullBits : FixedType → Nat
  | boolean | tinyint => 0x80
  | smallint => 0x8000
  | integer => 0x80000000
  | bigint => 0x8000000000000000
  | decimal => 0xFFEFFFFFFFFFFFFF
  | timestamp => 0xFFFFFFFFFFFFFFFF

end FixedType

inductive ColumnType where
  | fixed (type : FixedType)
  | varchar
  deriving DecidableEq

def storedAs : TypeId → ColumnType
  | .boolean => .fixed .boolean
  | .tinyint => .fixed .tinyint
  | .smallint => .fixed .smallint
  | .integer => .fixed .integer
  | .bigint => .fixed .bigint
  | .decimal => .fixed .decimal
  | .timestamp => .fixed .timestamp
  | .varchar | .vector => .varchar

abbrev Schema := List ColumnType

def BUSTUB_VALUE_NULL : Nat := 2 ^ 32 - 1

/-- The text of a VARCHAR with its closing zero; the length of NULL is no length of a text. -/
structure VarcharData where
  bytes : Block
  short : bytes.length < BUSTUB_VALUE_NULL
  deriving DecidableEq

inductive Value where
  | fixed (type : FixedType) (bits : BitVec (8 * type.size))
  | varchar (text : Option VarcharData)
  deriving DecidableEq

namespace Value

def columnType : Value → ColumnType
  | fixed type _ => .fixed type
  | varchar _ => .varchar

def isNull : Value → Bool
  | fixed type bits => bits.toNat = type.nullBits
  | varchar text => text.isNone

def getStorageSize : Value → Option Nat
  | fixed _ _ => none
  | varchar none => some BUSTUB_VALUE_NULL
  | varchar (some text) => some text.bytes.length

def serializeTo : Value → Nat → Block → Option Block
  | fixed type bits, place, data => write data place (toBytes type.size bits.toNat)
  | varchar none, place, data => write data place (toBytes 4 BUSTUB_VALUE_NULL)
  | varchar (some text), place, data => do
      let data ← write data place (toBytes 4 text.bytes.length)
      write data (place + 4) text.bytes

end Value

def deserializeVarlen (data : Block) (place : Nat) : Option Value := do
  let length := ofBytes (← read data place 4)
  if length = BUSTUB_VALUE_NULL then return .varchar none
  else do
    let bytes ← read data (place + 4) length
    if short : bytes.length < BUSTUB_VALUE_NULL then some (.varchar (some ⟨bytes, short⟩)) else none

/-! ### The tuple -/

def ColumnType.slotSize : ColumnType → Nat
  | fixed type => type.size
  | varchar => 4

def layoutFrom : Nat → Schema → List (ColumnType × Nat)
  | _, [] => []
  | offset, column :: rest =>
      (column, offset) :: layoutFrom ((offset + column.slotSize) % 2 ^ 32) rest

def layout (schema : Schema) : List (ColumnType × Nat) := layoutFrom 0 schema

def getInlinedStorageSize (schema : Schema) : Nat :=
  schema.foldl (fun offset column => (offset + column.slotSize) % 2 ^ 32) 0

def bodyLength (value : Value) : Option Nat :=
  value.getStorageSize.map fun length => if length = BUSTUB_VALUE_NULL then 0 else length

def tupleSizeFrom : Nat → Schema → List Value → Option Nat
  | size, [], [] => some size
  | size, .fixed _ :: schema, _ :: values => tupleSizeFrom size schema values
  | size, .varchar :: schema, value :: values => do
      tupleSizeFrom ((size + (4 + (← bodyLength value))) % 2 ^ 32) schema values
  | _, _, _ => none

def serializeFrom : Nat → List (ColumnType × Nat) → List Value → Block → Option Block
  | offset, (.fixed _, place) :: columns, value :: values, data => do
      serializeFrom offset columns values (← value.serializeTo place data)
  | offset, (.varchar, place) :: columns, value :: values, data => do
      let data ← write data place (toBytes 4 offset)
      let data ← value.serializeTo offset data
      serializeFrom ((offset + (4 + (← bodyLength value))) % 2 ^ 32) columns values data
  | _, _, _, data => some data

def encode (schema : Schema) (values : List Value) : Option Block := do
  let size ← tupleSizeFrom (getInlinedStorageSize schema) schema values
  serializeFrom (getInlinedStorageSize schema) (layout schema) values (List.replicate size 0)

def signed (number : Nat) : Int := if number < 2 ^ 31 then number else number - 2 ^ 32

/-- `GetValue`. The offset of a VARCHAR is written as a `uint32_t` and read as an `int32_t`. -/
def getValue (schema : Schema) (data : Block) (columnIdx : Nat) : Option Value := do
  let (column, place) ← (layout schema)[columnIdx]?
  match column with
  | .fixed type => return .fixed type (BitVec.ofNat _ (ofBytes (← read data place type.size)))
  | .varchar => do
      let offset := signed (ofBytes (← read data place 4))
      if offset < 0 then none else deserializeVarlen data offset.toNat

def copySchema (schema : Schema) (attrs : List Nat) : Option Schema :=
  attrs.mapM fun attr => schema[attr]?

def keyFromTuple (schema keySchema : Schema) (attrs : List Nat) (data : Block) : Option Block := do
  encode keySchema (← attrs.mapM (getValue schema data))

/-! ### Where the values lie -/

def slotSize (value : Value) : Nat := value.columnType.slotSize

def bodySize : Value → Nat
  | .fixed _ _ => 0
  | .varchar none => 4
  | .varchar (some text) => 4 + text.bytes.length

def slotSum (values : List Value) : Nat := (values.map slotSize).sum

def bodySum (values : List Value) : Nat := (values.map bodySize).sum

def BodyStored (data : Block) (body : Nat) : Value → Prop
  | .fixed _ _ => True
  | .varchar none => read data body 4 = some (toBytes 4 BUSTUB_VALUE_NULL)
  | .varchar (some text) => read data body 4 = some (toBytes 4 text.bytes.length) ∧
      read data (body + 4) text.bytes.length = some text.bytes

/-- A value lies in its slot, a VARCHAR by the offset of its body. -/
def Stored (data : Block) (slot body : Nat) : Value → Prop
  | .fixed type bits => read data slot type.size = some (toBytes type.size bits.toNat)
  | .varchar text => read data slot 4 = some (toBytes 4 body) ∧ BodyStored data body (.varchar text)

section Storing

variable {data after : Block} {slot body : Nat} {value : Value}

theorem body_kept (kept : ∀ place length, body ≤ place → place + length ≤ body + bodySize value →
    read after place length = read data place length) (stored : BodyStored data body value) :
    BodyStored after body value := by
  cases value with
  | fixed type bits => trivial
  | varchar text =>
      cases text with
      | none =>
          have found : read data body 4 = some (toBytes 4 BUSTUB_VALUE_NULL) := stored
          exact (kept body 4 (by omega) (by simp [bodySize])).trans found
      | some text =>
          obtain ⟨length, bytes⟩ := stored
          constructor
          · exact (kept body 4 (by omega) (by simp only [bodySize]; omega)).trans length
          · exact (kept (body + 4) _ (by omega) (by simp only [bodySize]; omega)).trans bytes

theorem varchar_serialized (text : Option VarcharData)
    (inside : body + bodySize (.varchar text) ≤ data.length) :
    ∃ after, (Value.varchar text).serializeTo body data = some after ∧ after.length = data.length ∧
      BodyStored after body (.varchar text) ∧
      ∀ place length, place + length ≤ body ∨ body + bodySize (.varchar text) ≤ place →
        read after place length = read data place length := by
  cases text with
  | none =>
      have bound : body + (toBytes 4 BUSTUB_VALUE_NULL).length ≤ data.length := by
        rw [toBytes_length]
        exact inside
      obtain ⟨after, writes⟩ := write_defined bound
      have back := read_written writes
      rw [toBytes_length] at back
      refine ⟨after, writes, write_length writes, back, ?_⟩
      intro place length apart
      apply read_apart writes
      rw [toBytes_length]
      simp only [bodySize] at apart
      exact apart.symm
  | some text =>
      simp only [bodySize] at inside
      obtain ⟨first, writesLength⟩ :=
        @write_defined data (toBytes 4 text.bytes.length) body (by rw [toBytes_length]; omega)
      have firstSize := write_length writesLength
      obtain ⟨second, writesBytes⟩ := @write_defined first text.bytes (body + 4) (by omega)
      have lengthBack := read_written writesLength
      rw [toBytes_length] at lengthBack
      refine ⟨second, ?_, (write_length writesBytes).trans firstSize,
        ⟨?_, read_written writesBytes⟩, ?_⟩
      · simp only [Value.serializeTo, writesLength, Option.bind_eq_bind,
          Option.bind_some, writesBytes]
      · rw [read_apart writesBytes (.inr (by omega)), lengthBack]
      · intro place length apart
        simp only [bodySize] at apart
        rw [read_apart writesBytes (apart.symm.imp (by omega) (by omega))]
        apply read_apart writesLength
        rw [toBytes_length]
        exact apart.symm.imp (by omega) (by omega)

theorem body_length_varchar (text : Option VarcharData) :
    ∃ length, bodyLength (.varchar text) = some length ∧ 4 + length = bodySize (.varchar text) := by
  cases text with
  | none => exact ⟨0, rfl, rfl⟩
  | some text =>
      have other : text.bytes.length ≠ BUSTUB_VALUE_NULL := Nat.ne_of_lt text.short
      exact ⟨text.bytes.length, by simp [bodyLength, Value.getStorageSize, other], rfl⟩

@[simp] theorem slot_sum_cons (values : List Value) :
    slotSum (value :: values) = slotSize value + slotSum values := by
  simp [slotSum]

@[simp] theorem body_sum_cons (values : List Value) :
    bodySum (value :: values) = bodySize value + bodySum values := by
  simp [bodySum]

theorem body_sum_take (values : List Value) (index : Nat) :
    bodySum (values.take index) ≤ bodySum values := by
  have whole := congrArg bodySum (List.take_append_drop index values)
  simp only [bodySum, List.map_append, List.sum_append] at *
  omega

/-- The second loop writes every value into its slot and its body, and nothing else. -/
theorem values_serialized (values : List Value) {slot body : Nat} {data : Block}
    (before : slot + slotSum values ≤ body) (inside : body + bodySum values ≤ data.length)
    (small : data.length < 2 ^ 32) :
    ∃ after, serializeFrom body (layoutFrom slot (values.map Value.columnType)) values data =
      some after ∧ after.length = data.length ∧
      (∀ place length, place + length ≤ slot ∨ slot + slotSum values ≤ place ∧
        place + length ≤ body ∨ body + bodySum values ≤ place →
        read after place length = read data place length) ∧
      ∀ index value, values[index]? = some value →
        Stored after (slot + slotSum (values.take index))
          (body + bodySum (values.take index)) value := by
  induction values generalizing slot body data with
  | nil => exact ⟨data, rfl, rfl, fun _ _ _ => rfl, by simp⟩
  | cons value values ih =>
      rw [slot_sum_cons] at before
      rw [body_sum_cons] at inside
      cases value with
      | fixed type bits =>
          have slotIs : slotSize (.fixed type bits) = type.size := rfl
          have bodyIs : bodySize (.fixed type bits) = 0 := rfl
          rw [slotIs] at before
          rw [bodyIs] at inside
          obtain ⟨first, writes⟩ :=
            @write_defined data (toBytes type.size bits.toNat) slot (by rw [toBytes_length]; omega)
          have firstSize := write_length writes
          have back := read_written writes
          rw [toBytes_length] at back
          have next : (slot + type.size) % 2 ^ 32 = slot + type.size := Nat.mod_eq_of_lt (by omega)
          obtain ⟨after, serializes, size, kept, stored⟩ :=
            @ih (slot + type.size) body first (by omega)
              (by rw [firstSize]; omega) (by rw [firstSize]; exact small)
          refine ⟨after, ?_, size.trans firstSize, ?_, ?_⟩
          · simp only [List.map_cons, Value.columnType, layoutFrom, ColumnType.slotSize, next,
              serializeFrom, Value.serializeTo, writes, Option.bind_eq_bind, Option.bind_some]
            exact serializes
          · intro place length apart
            rw [slot_sum_cons, body_sum_cons, slotIs, bodyIs] at apart
            rw [kept place length (by omega)]
            apply read_apart writes
            rw [toBytes_length, Apart]
            omega
          · intro index value found
            cases index with
            | zero =>
                obtain rfl := Option.some.inj found
                exact (kept slot type.size (.inl (Nat.le_refl _))).trans back
            | succ index =>
                have rest := stored index value found
                rw [List.take_succ_cons, slot_sum_cons, body_sum_cons, slotIs, bodyIs,
                  Nat.zero_add, ← Nat.add_assoc]
                exact rest
      | varchar text =>
          have slotIs : slotSize (.varchar text) = 4 := rfl
          rw [slotIs] at before
          obtain ⟨first, writesOffset⟩ :=
            @write_defined data (toBytes 4 body) slot (by rw [toBytes_length]; omega)
          have firstSize := write_length writesOffset
          have back := read_written writesOffset
          rw [toBytes_length] at back
          obtain ⟨second, serializesText, secondSize, textStored, textKept⟩ :=
            @varchar_serialized first body text
              (by rw [firstSize]; omega)
          obtain ⟨length, lengthIs, bodyIs⟩ := body_length_varchar text
          have nextSlot : (slot + 4) % 2 ^ 32 = slot + 4 := Nat.mod_eq_of_lt (by omega)
          obtain ⟨after, serializes, size, kept, stored⟩ :=
            @ih (slot + 4) (body + bodySize (.varchar text)) second
              (by omega) (by rw [secondSize, firstSize]; omega)
                (by rw [secondSize, firstSize]; exact small)
          have nextBody : (body + (4 + length)) % 2 ^ 32 = body + bodySize (.varchar text) := by
            rw [bodyIs]
            exact Nat.mod_eq_of_lt (by omega)
          refine ⟨after, ?_, size.trans (secondSize.trans firstSize), ?_, ?_⟩
          · simp only [List.map_cons, Value.columnType, layoutFrom, ColumnType.slotSize, nextSlot,
              serializeFrom, writesOffset, serializesText, lengthIs, nextBody, Option.bind_eq_bind,
                Option.bind_some]
            exact serializes
          · intro place length apart
            rw [slot_sum_cons, body_sum_cons, slotIs] at apart
            rw [kept place length (by omega), textKept place length (by omega)]
            apply read_apart writesOffset
            rw [toBytes_length, Apart]
            omega
          · intro index value found
            cases index with
            | zero =>
                obtain rfl := Option.some.inj found
                have head : Stored after slot body (.varchar text) := by
                  constructor
                  · exact (kept slot 4 (.inl (Nat.le_refl _))).trans
                      ((textKept slot 4 (.inl (by omega))).trans back)
                  · apply body_kept _ textStored
                    intro place size begins ends
                    exact kept place size (.inr (.inl (by omega)))
                exact head
            | succ index =>
                have rest := stored index value found
                rw [List.take_succ_cons, slot_sum_cons, body_sum_cons,
                  slotIs, ← Nat.add_assoc, ← Nat.add_assoc]
                exact rest

end Storing

/-! ### Sizes and offsets -/

theorem inlined_size_from (values : List Value) (offset : Nat)
    (small : offset + slotSum values < 2 ^ 32) :
    (values.map Value.columnType).foldl (fun offset column =>
      (offset + column.slotSize) % 2 ^ 32) offset =
      offset + slotSum values := by
  induction values generalizing offset with
  | nil => rfl
  | cons value values ih =>
      rw [slot_sum_cons] at small
      have next : (offset + value.columnType.slotSize) % 2 ^ 32 = offset + slotSize value :=
        Nat.mod_eq_of_lt (by unfold slotSize at small; omega)
      rw [List.map_cons, List.foldl_cons, next, ih _ (by omega), slot_sum_cons]
      omega

theorem tuple_size_from (values : List Value) (size : Nat)
    (small : size + bodySum values < 2 ^ 32) :
    tupleSizeFrom size (values.map Value.columnType) values = some (size + bodySum values) := by
  induction values generalizing size with
  | nil => rfl
  | cons value values ih =>
      rw [body_sum_cons] at small ⊢
      cases value with
      | fixed type bits =>
          have bodyIs : bodySize (.fixed type bits) = 0 := rfl
          rw [bodyIs] at small ⊢
          rw [List.map_cons, Value.columnType, tupleSizeFrom, ih size (by omega), Nat.zero_add]
      | varchar text =>
          obtain ⟨length, lengthIs, bodyIs⟩ := body_length_varchar text
          have next : (size + (4 + length)) % 2 ^ 32 = size + bodySize (.varchar text) := by
            rw [bodyIs]
            exact Nat.mod_eq_of_lt (by omega)
          simp only [List.map_cons, Value.columnType, tupleSizeFrom, lengthIs, Option.bind_eq_bind,
            Option.bind_some, next]
          rw [ih _ (by omega), Nat.add_assoc]

@[simp] theorem layout_length (offset : Nat) (schema : Schema) :
    (layoutFrom offset schema).length = schema.length := by
  induction schema generalizing offset with
  | nil => rfl
  | cons column schema ih => rw [layoutFrom, List.length_cons, ih, List.length_cons]

theorem layout_found (values : List Value) (offset : Nat) (small : offset + slotSum values < 2 ^ 32)
    {index : Nat} {value : Value} (found : values[index]? = some value) :
    (layoutFrom offset (values.map Value.columnType))[index]? =
      some (value.columnType, offset + slotSum (values.take index)) := by
  induction values generalizing offset index with
  | nil => simp at found
  | cons first values ih =>
      rw [slot_sum_cons] at small
      have next : (offset + first.columnType.slotSize) % 2 ^ 32 = offset + slotSize first :=
        Nat.mod_eq_of_lt (by unfold slotSize at small; omega)
      cases index with
      | zero =>
          obtain rfl := Option.some.inj found
          rfl
      | succ index =>
          rw [List.map_cons, layoutFrom, List.getElem?_cons_succ, next, ih _ (by omega) found,
              List.take_succ_cons, slot_sum_cons, Nat.add_assoc]

/-- The bytes that the encoder writes, when all of them can be addressed. -/
theorem encoded (values : List Value) (small : slotSum values + bodySum values < 2 ^ 32) :
    ∃ data, encode (values.map Value.columnType) values = some data ∧
      ∀ index value, values[index]? = some value →
        Stored data (slotSum (values.take index))
          (slotSum values + bodySum (values.take index)) value := by
  have inlined : getInlinedStorageSize (values.map Value.columnType) = slotSum values := by
    have counted := inlined_size_from values 0 (by omega)
    rwa [Nat.zero_add] at counted
  have sized := tuple_size_from values (slotSum values) small
  obtain ⟨data, serializes, _, _, stored⟩ := @values_serialized values 0 (slotSum values)
    (List.replicate (slotSum values + bodySum values) 0) (by omega) (by simp) (by simpa using small)
  refine ⟨data, ?_, ?_⟩
  · simp only [encode, inlined, sized, Option.bind_eq_bind, Option.bind_some]
    exact serializes
  · intro index value found
    have lies := stored index value found
    rwa [Nat.zero_add] at lies

section Reading

variable {data : Block} {values : List Value} {index slot body : Nat} {text : Option VarcharData}
  {number : Nat}

theorem fixed_bits (type : FixedType) (bits : BitVec (8 * type.size)) :
    BitVec.ofNat (8 * type.size) (ofBytes (toBytes type.size bits.toNat)) = bits := by
  have fits : bits.toNat < 256 ^ type.size := by
    have bound := bits.isLt
    rw [Nat.pow_mul] at bound
    exact bound
  rw [bytes_kept fits, BitVec.ofNat_toNat, BitVec.setWidth_eq]

theorem varlen_read (stored : BodyStored data body (.varchar text)) :
    deserializeVarlen data body = some (.varchar text) := by
  cases text with
  | none =>
      have found : read data body 4 = some (toBytes 4 BUSTUB_VALUE_NULL) := stored
      have length : ofBytes (toBytes 4 BUSTUB_VALUE_NULL) = BUSTUB_VALUE_NULL :=
        bytes_kept (by decide)
      simp [deserializeVarlen, found, length]
  | some text =>
      obtain ⟨lengthRead, bytesRead⟩ := stored
      have short := text.short
      have length : ofBytes (toBytes 4 text.bytes.length) = text.bytes.length := by
        apply bytes_kept
        unfold BUSTUB_VALUE_NULL at short
        omega
      have other : text.bytes.length ≠ BUSTUB_VALUE_NULL := Nat.ne_of_lt short
      simp [deserializeVarlen, lengthRead, length, other, bytesRead, short]

theorem signed_near (near : number < 2 ^ 31) : signed number = number := by
  rw [signed, if_pos near]

theorem signed_far (far : 2 ^ 31 ≤ number) (small : number < 2 ^ 32) :
    signed number < 0 := by
  rw [signed, if_neg (by omega)]
  omega

/-- A value comes back from its place, a VARCHAR if its offset is that of an `int32_t`. -/
theorem value_found (small : slotSum values < 2 ^ 32) {value : Value}
    (found : values[index]? = some value)
    (stored : Stored data (slotSum (values.take index)) body value)
    (near : value.columnType = .varchar → body < 2 ^ 31) :
    getValue (values.map Value.columnType) data index = some value := by
  have place := layout_found values 0 (by omega) found
  rw [Nat.zero_add] at place
  cases value with
  | fixed type bits =>
      have bytes : read data (slotSum (values.take index)) type.size =
        some (toBytes type.size bits.toNat) := stored
      simp [getValue, layout, place, Value.columnType, bytes, fixed_bits]
  | varchar text =>
      obtain ⟨offsetRead, bytes⟩ := stored
      have close := near rfl
      have offset : ofBytes (toBytes 4 body) = body := bytes_kept (by omega)
      have notBefore : ¬(body : Int) < 0 := by omega
      simp [getValue, layout, place, Value.columnType, offsetRead, offset, signed_near close,
        varlen_read bytes]

/-- An offset past the numbers of an `int32_t` points in front of the tuple. -/
theorem value_lost (small : slotSum values < 2 ^ 32) (found : values[index]? = some (.varchar text))
    (stored : Stored data (slotSum (values.take index)) body (.varchar text)) (far : 2 ^ 31 ≤ body)
    (addressed : body < 2 ^ 32) : getValue (values.map Value.columnType) data index = none := by
  have place := layout_found values 0 (by omega) found
  rw [Nat.zero_add] at place
  have offset : ofBytes (toBytes 4 body) = body := bytes_kept (by omega)
  simp [getValue, layout, place, Value.columnType, stored.1, offset, signed_far far addressed]

end Reading

/-! ### Round trips -/

/-- The tuple has less than 2^32 bytes and every VARCHAR begins within the first 2^31. -/
def Addressable (values : List Value) : Prop :=
  slotSum values + bodySum values < 2 ^ 32 ∧
  ∀ index text, values[index]? = some (.varchar text) →
    slotSum values + bodySum (values.take index) < 2 ^ 31

def GivesBack (schema : Schema) (values : List Value) : Prop :=
  ∃ data, encode schema values = some data ∧ ∀ index, getValue schema data index = values[index]?

theorem addressable_gives_back {values : List Value} (addressable : Addressable values) :
    GivesBack (values.map Value.columnType) values := by
  obtain ⟨small, near⟩ := addressable
  obtain ⟨data, encodes, stored⟩ := encoded values small
  refine ⟨data, encodes, ?_⟩
  intro index
  cases found : values[index]? with
  | some value =>
      apply value_found (by omega) found (stored index value found)
      intro varchar
      cases value with
      | fixed type bits => cases varchar
      | varchar text => exact near index text found
  | none =>
      have beyond : (layout (values.map Value.columnType))[index]? = none := by
        rw [layout, List.getElem?_eq_none_iff, layout_length, List.length_map]
        exact List.getElem?_eq_none_iff.mp found
      simp [getValue, beyond]

theorem varchar_bound {text : Option VarcharData} {data after : Block} {place : Nat}
    (serializes : (Value.varchar text).serializeTo place data = some after) :
    place + bodySize (.varchar text) ≤ data.length ∧ after.length = data.length := by
  cases text with
  | none =>
      have writes : write data place (toBytes 4 BUSTUB_VALUE_NULL) = some after := serializes
      have bound := write_bound writes
      rw [toBytes_length] at bound
      exact ⟨bound, write_length writes⟩
  | some text =>
      simp only [Value.serializeTo, Option.bind_eq_bind, Option.bind_eq_some_iff] at serializes
      obtain ⟨first, writesLength, writesBytes⟩ := serializes
      have size := write_length writesLength
      have bound := write_bound writesBytes
      constructor
      · simp only [bodySize]
        omega
      · exact (write_length writesBytes).trans size

/-- An offset that has wrapped is followed by a write past the end: what was written altogether
has been counted without a wrap. -/
theorem serialized_addressed (values : List Value) {slot body : Nat} {data after : Block}
    (small : data.length < 2 ^ 32) (slotSmall : slot < 2 ^ 32) (bodySmall : body < 2 ^ 32)
    (serializes : serializeFrom body (layoutFrom slot (values.map Value.columnType)) values data =
      some after) :
    slot + slotSum values < 2 ^ 32 ∧ body + bodySum values < 2 ^ 32 := by
  induction values generalizing slot body data with
  | nil => exact ⟨slotSmall, bodySmall⟩
  | cons value values ih =>
      rw [slot_sum_cons, body_sum_cons]
      cases value with
      | fixed type bits =>
          have slotIs : slotSize (.fixed type bits) = type.size := rfl
          have bodyIs : bodySize (.fixed type bits) = 0 := rfl
          simp only [List.map_cons, Value.columnType, layoutFrom, ColumnType.slotSize,
            serializeFrom, Value.serializeTo,
            Option.bind_eq_bind, Option.bind_eq_some_iff] at serializes
          obtain ⟨first, writes, rest⟩ := serializes
          have bound := write_bound writes
          rw [toBytes_length] at bound
          have next : (slot + type.size) % 2 ^ 32 = slot + type.size := Nat.mod_eq_of_lt (by omega)
          rw [next] at rest
          have counted := ih (by rw [write_length writes]; exact small) (by omega) bodySmall rest
          omega
      | varchar text =>
          have slotIs : slotSize (.varchar text) = 4 := rfl
          obtain ⟨length, lengthIs, bodyIs⟩ := body_length_varchar text
          simp only [List.map_cons, Value.columnType, layoutFrom, ColumnType.slotSize,
            serializeFrom, lengthIs, Option.bind_eq_bind, Option.bind_some,
              Option.bind_eq_some_iff] at serializes
          obtain ⟨first, writesOffset, second, serializesText, rest⟩ := serializes
          have firstSize := write_length writesOffset
          have slotBound := write_bound writesOffset
          rw [toBytes_length] at slotBound
          obtain ⟨bodyBound, secondSize⟩ := varchar_bound serializesText
          have nextSlot : (slot + 4) % 2 ^ 32 = slot + 4 := Nat.mod_eq_of_lt (by omega)
          have nextBody : (body + (4 + length)) % 2 ^ 32 = body + bodySize (.varchar text) := by
            rw [bodyIs]
            exact Nat.mod_eq_of_lt (by omega)
          rw [nextSlot, nextBody] at rest
          have counted := ih (by rw [secondSize, firstSize]; exact small) (by omega) (by omega) rest
          omega

theorem tuple_size_small {schema : Schema} {values : List Value} {size total : Nat}
    (small : size < 2 ^ 32)
    (sized : tupleSizeFrom size schema values = some total) : total < 2 ^ 32 := by
  induction schema generalizing values size with
  | nil =>
      cases values with
      | nil => exact Option.some.inj sized ▸ small
      | cons value values => cases sized
  | cons column schema ih =>
      cases values with
      | nil => cases column <;> cases sized
      | cons value values =>
          cases column with
          | fixed type => exact ih small sized
          | varchar =>
              simp only [tupleSizeFrom, Option.bind_eq_bind, Option.bind_eq_some_iff] at sized
              obtain ⟨length, _, rest⟩ := sized
              exact ih (Nat.mod_lt _ (by decide)) rest

theorem inlined_small (schema : Schema) : getInlinedStorageSize schema < 2 ^ 32 := by
  have kept : ∀ offset, offset < 2 ^ 32 →
      schema.foldl (fun offset column => (offset + column.slotSize) % 2 ^ 32) offset < 2 ^ 32 := by
    induction schema with
    | nil => exact fun _ small => small
    | cons column schema ih => exact fun offset _ => ih _ (Nat.mod_lt _ (by decide))
  exact kept 0 (by decide)

theorem gives_back_addressable {values : List Value}
    (back : GivesBack (values.map Value.columnType) values) :
    Addressable values := by
  obtain ⟨data, encodes, found⟩ := back
  have encoding := encodes
  simp only [encode, Option.bind_eq_bind, Option.bind_eq_some_iff] at encoding
  obtain ⟨size, sized, serializes⟩ := encoding
  have sizeSmall := tuple_size_small (inlined_small _) sized
  have counted :=
    serialized_addressed values (by rw [List.length_replicate]; exact sizeSmall) (by decide)
      (inlined_small _) serializes
  have inlined := inlined_size_from values 0 counted.1
  rw [Nat.zero_add] at inlined
  have small : slotSum values + bodySum values < 2 ^ 32 := by
    have bodies := counted.2
    rw [getInlinedStorageSize, inlined] at bodies
    exact bodies
  constructor
  · exact small
  · intro index text varchar
    by_contra far
    obtain ⟨other, otherEncodes, stored⟩ := encoded values small
    obtain rfl := Option.some.inj (otherEncodes.symm.trans encodes)
    have taken := body_sum_take values index
    have lost := value_lost (by omega) varchar (stored index _ varchar) (by omega) (by omega)
    rw [found index, varchar] at lost
    cases lost

/-! ### Keys -/

def selected (values : List Value) (attrs : List Nat) : List Value :=
  attrs.filterMap fun attr => values[attr]?

/-- The tuple gives back its values and the key taken from it the selected ones. -/
def RoundTrips (schema : Schema) (values : List Value) (attrs : List Nat) : Prop :=
  GivesBack schema values ∧
  ∃ data keySchema key, encode schema values = some data ∧
    copySchema schema attrs = some keySchema ∧ keyFromTuple schema keySchema attrs data = some key ∧
    ∀ index, getValue keySchema key index = attrs[index]?.bind fun attr => values[attr]?

section Keys

variable {values : List Value} {attrs : List Nat} {attr : Nat}

theorem selected_cons {value : Value} (found : values[attr]? = some value) :
    selected values (attr :: attrs) = value :: selected values attrs :=
      List.filterMap_cons_some found

theorem attribute_found (inRange : ∀ attr ∈ attrs, attr < values.length) (member : attr ∈ attrs) :
    ∃ value, values[attr]? = some value := ⟨_, List.getElem?_eq_getElem (inRange attr member)⟩

theorem selected_found (inRange : ∀ attr ∈ attrs, attr < values.length) (index : Nat) :
    (selected values attrs)[index]? = attrs[index]?.bind fun attr => values[attr]? := by
  induction attrs generalizing index with
  | nil => rfl
  | cons attr attrs ih =>
      obtain ⟨value, found⟩ := attribute_found inRange List.mem_cons_self
      rw [selected_cons found]
      cases index with
      | zero => exact found.symm
      | succ index =>
          exact ih (fun attr member => inRange attr (List.mem_cons_of_mem _ member)) index

theorem attributes_read {Result : Type} (inRange : ∀ attr ∈ attrs, attr < values.length)
    (read : Nat → Option Result) (of : Value → Result)
    (reads : ∀ attr, read attr = values[attr]?.map of) :
    attrs.mapM read = some ((selected values attrs).map of) := by
  induction attrs with
  | nil => rfl
  | cons attr attrs ih =>
      obtain ⟨value, found⟩ := attribute_found inRange List.mem_cons_self
      have rest := ih fun attr member => inRange attr (List.mem_cons_of_mem _ member)
      simp [List.mapM_cons, reads, found, rest, selected_cons found]

theorem schema_copied (inRange : ∀ attr ∈ attrs, attr < values.length) :
    copySchema (values.map Value.columnType) attrs =
      some ((selected values attrs).map Value.columnType) :=
  attributes_read inRange _ Value.columnType fun _ => List.getElem?_map

theorem key_read (inRange : ∀ attr ∈ attrs, attr < values.length) {schema : Schema} {data : Block}
    (back : ∀ index, getValue schema data index = values[index]?) (keySchema : Schema) :
    keyFromTuple schema keySchema attrs data = encode keySchema (selected values attrs) := by
  have read := attributes_read inRange (getValue schema data) id fun attr => by
    rw [back attr, Option.map_id, id]
  rw [List.map_id] at read
  simp only [keyFromTuple, read, Option.bind_eq_bind, Option.bind_some]

theorem round_trips_addressable (inRange : ∀ attr ∈ attrs, attr < values.length)
    (trips : RoundTrips (values.map Value.columnType) values attrs) :
    Addressable values ∧ Addressable (selected values attrs) := by
  obtain ⟨back, data, keySchema, key, encodes, copies, keyed, found⟩ := trips
  obtain ⟨other, otherEncodes, reads⟩ := back
  obtain rfl := Option.some.inj (otherEncodes.symm.trans encodes)
  constructor
  · exact gives_back_addressable ⟨other, encodes, reads⟩
  · rw [schema_copied inRange] at copies
    obtain rfl := Option.some.inj copies
    rw [key_read inRange reads] at keyed
    exact gives_back_addressable ⟨key, keyed, fun index => by rw [found, selected_found inRange]⟩

/-- A tuple gives back its values, and a key the values it was made of, if and only if all their
bytes can be addressed. -/
theorem tuple_round_trip_iff {schema : Schema} (typed : values.map Value.columnType = schema)
    (inRange : ∀ attr ∈ attrs, attr < schema.length) :
    RoundTrips schema values attrs ↔ Addressable values ∧ Addressable (selected values attrs) := by
  subst typed
  rw [List.length_map] at inRange
  constructor
  · exact round_trips_addressable inRange
  · rintro ⟨addressable, keyAddressable⟩
    obtain ⟨data, encodes, reads⟩ := addressable_gives_back addressable
    obtain ⟨key, keyed, found⟩ := addressable_gives_back keyAddressable
    refine ⟨⟨data, encodes, reads⟩, data, _, key, encodes, schema_copied inRange, ?_, ?_⟩
    · rw [key_read inRange reads, keyed]
    · intro index
      rw [found, selected_found inRange]

end Keys

def mixed : List Value :=
  [.fixed .integer 7, .varchar (some ⟨[97, 98, 0], by decide⟩), .fixed .bigint
    (BitVec.ofNat _ FixedType.bigint.nullBits),
    .varchar none, .varchar (some ⟨[0], by decide⟩)]

theorem mixed_round_trip : RoundTrips (mixed.map Value.columnType) mixed [4, 0, 0] ↔
    Addressable mixed ∧ Addressable (selected mixed [4, 0, 0]) :=
  tuple_round_trip_iff rfl (by decide)

def textFirst (text : VarcharData) : List Value := [.varchar (some text), .varchar none]

theorem far_null_lost {text : VarcharData} (long : 2 ^ 31 ≤ text.bytes.length + 12) :
    ¬RoundTrips ((textFirst text).map Value.columnType) (textFirst text) [] := by
  intro trips
  have near := (round_trips_addressable (by simp) trips).1.2 1 none rfl
  simp only [textFirst, List.take_succ_cons, List.take_zero, slot_sum_cons, body_sum_cons,
    bodySize, slotSize, Value.columnType, ColumnType.slotSize] at near
  omega

theorem long_text_short : (List.replicate (2 ^ 31) (97 : UInt8)).length < BUSTUB_VALUE_NULL := by
  rw [List.length_replicate, BUSTUB_VALUE_NULL]
  omega

theorem long_text_size :
    2 ^ 31 ≤ (VarcharData.bytes ⟨List.replicate (2 ^ 31) 97, long_text_short⟩).length + 12 := by
  have size : (VarcharData.bytes ⟨List.replicate (2 ^ 31) 97, long_text_short⟩).length = 2 ^ 31 :=
    List.length_replicate
  rw [size]
  omega

/-- A text of 2^31 bytes in front of a NULL. -/
theorem long_text_lost :
    ¬RoundTrips ((textFirst ⟨List.replicate (2 ^ 31) 97, long_text_short⟩).map Value.columnType)
      (textFirst ⟨List.replicate (2 ^ 31) 97, long_text_short⟩) [] := far_null_lost long_text_size

end BusTub.TupleEncoding
