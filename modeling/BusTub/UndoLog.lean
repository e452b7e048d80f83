import Mathlib.Data.Rat.Defs
import Mathlib.Data.List.Forall2
import Mathlib.Algebra.Ring.Int.Defs
import Mathlib.Algebra.GroupWithZero.Nat

/-!
Tuples, undo logs and the functions of `execution/execution_common.cpp` that
make and apply them. A tuple is the list of its column values: serializing and
reading a value back by its column type gives the value again. `DECIMAL` values
are the numbers they stand for, a `VECTOR` is the bytes of its entries.
-/

namespace BusTub

inductive TypeId where
  | boolean
  | tinyint
  | smallint
  | integer
  | bigint
  | decimal
  | varchar
  | timestamp
  | vector
  deriving DecidableEq, Repr

inductive Datum where
  | number (value : Int)
  | decimal (value : Rat)
  | text (value : List UInt8)
  deriving DecidableEq

structure Value where
  typeId : TypeId
  datum : Option Datum
  deriving DecidableEq

namespace Value

def isNull (value : Value) : Bool := value.datum.isNone

def compareExactlyEquals (left right : Value) : Bool :=
  if left.isNull && right.isNull then true
  else
    match left.datum, right.datum with
    | some first, some second => first = second
    | _, _ => false

/-- `CompareExactlyEquals` throws: `VectorType` has no comparisons. -/
def exactlyThrows (left right : Value) : Bool :=
  left.typeId = .vector && !(left.isNull && right.isNull)

/-- The bytes of a value in a tuple: what is not inlined stores its offset, its
length and its text, with a closing zero in a varchar, or no text when it is NULL. -/
def storageSize (value : Value) : Nat :=
  match value.typeId with
  | .boolean | .tinyint => 1
  | .smallint => 2
  | .integer => 4
  | .bigint | .decimal | .timestamp => 8
  | .varchar =>
      match value.datum with
      | some (.text text) => 8 + (text.length + 1)
      | _ => 8
  | .vector =>
      match value.datum with
      | some (.text bytes) => 8 + bytes.length
      | _ => 8

theorem compare_exactly_equals {left right : Value} (sameType : left.typeId = right.typeId) :
    left.compareExactlyEquals right = true ↔ left = right := by
  obtain ⟨leftType, leftDatum⟩ := left
  obtain ⟨rightType, rightDatum⟩ := right
  obtain rfl : leftType = rightType := sameType
  cases leftDatum <;> cases rightDatum <;> simp [compareExactlyEquals, isNull]

end Value

abbrev Tuple := List Value

abbrev Schema := List TypeId

namespace Tuple

def getLength (tuple : Tuple) : Nat := (tuple.map Value.storageSize).sum

/-- The values are those of a row of the table. -/
def Fits (schema : Schema) (tuple : Tuple) : Prop := tuple.map Value.typeId = schema

instance (schema : Schema) (tuple : Tuple) : Decidable (Fits schema tuple) :=
  inferInstanceAs (Decidable (_ = _))

theorem fits_length {schema : Schema} {tuple : Tuple} (fits : Fits schema tuple) :
    tuple.length = schema.length := by
  rw [← fits, List.length_map]

end Tuple

abbrev TxnId := Int
abbrev Timestamp := Int

def INVALID_TXN_ID : TxnId := -1

def TXN_START_ID : TxnId := 2 ^ 62

structure UndoLink where
  prevTxn : TxnId := INVALID_TXN_ID
  prevLogIdx : Nat := 0
  deriving DecidableEq

def UndoLink.isValid (link : UndoLink) : Bool := link.prevTxn ≠ INVALID_TXN_ID

structure UndoLog where
  isDeleted : Bool
  modifiedFields : List Bool
  tuple : Tuple
  ts : Timestamp
  prevVersion : UndoLink
  deriving DecidableEq

structure TupleMeta where
  ts : Timestamp
  isDeleted : Bool
  deriving DecidableEq

def applyFields : List Bool → Tuple → Tuple → Tuple
  | true :: mask, _ :: values, field :: fields => field :: applyFields mask values fields
  | false :: mask, value :: values, fields => value :: applyFields mask values fields
  | _, values, _ => values

def applyUndoLog (values : Tuple) (log : UndoLog) : Tuple :=
  applyFields log.modifiedFields values log.tuple

def reconstructTuple (base : Tuple) (baseMeta : TupleMeta) (undoLogs : List UndoLog) :
    Option Tuple :=
  let (values, deleted) := undoLogs.foldl
    (fun (values, _) log => (applyUndoLog values log, log.isDeleted)) (base, baseMeta.isDeleted)
  if deleted then none else some values

def selectFields : List Bool → Tuple → Tuple
  | true :: mask, value :: values => value :: selectFields mask values
  | false :: mask, _ :: values => selectFields mask values
  | _, _ => []

def changedFields (base : Tuple) : Option Tuple → List Bool
  | none => base.map fun _ => true
  | some target => List.zipWith (fun value other => !value.compareExactlyEquals other) base target

/-- A loop over the columns comes to one that it cannot compare; a field of the log
that is there already is not compared. -/
def comparesVector : List Bool → Tuple → Tuple → Bool
  | true :: mask, _ :: base, _ :: target => comparesVector mask base target
  | false :: mask, value :: base, other :: target =>
      value.exactlyThrows other || comparesVector mask base target
  | _, _, _ => false

def newUndoLogThrows (schema : Schema) : Option Tuple → Option Tuple → Bool
  | some base, some target => comparesVector (schema.map fun _ => false) base target
  | _, _ => false

def generateNewUndoLog (schema : Schema) (baseTuple targetTuple : Option Tuple) (ts : Timestamp)
    (prevVersion : UndoLink) : UndoLog :=
  let modifiedFields :=
    match baseTuple with
    | some base => changedFields base targetTuple
    | none => schema.map fun _ => false
  { isDeleted := baseTuple.isNone
    modifiedFields := modifiedFields
    tuple := selectFields modifiedFields (baseTuple.getD [])
    ts := ts
    prevVersion := prevVersion }

/-- The columns of the loop of `GenerateUpdatedUndoLog`: an old field keeps the
value of the log, a field that changes now gets the one of the base. -/
def mergeFields : List Bool → Tuple → Tuple → List Bool → List Bool × Tuple
  | true :: mask, fields, _ :: base, _ :: changed =>
      let (mask, values) := mergeFields mask fields.tail base changed
      (true :: mask, fields.head?.toList ++ values)
  | false :: mask, fields, value :: base, change :: changed =>
      let (mask, values) := mergeFields mask fields base changed
      (change :: mask, (if change then [value] else []) ++ values)
  | mask, fields, _, _ => (mask, fields)

def updatedUndoLogThrows (log : UndoLog) : Option Tuple → Option Tuple → Bool
  | some base, some target => !log.isDeleted && comparesVector log.modifiedFields base target
  | _, _ => false

def generateUpdatedUndoLog (baseTuple targetTuple : Option Tuple) (log : UndoLog) : UndoLog :=
  if log.isDeleted then log
  else
    match baseTuple with
    | none => log
    | some base =>
        let (modifiedFields, tuple) :=
          mergeFields log.modifiedFields log.tuple base (changedFields base targetTuple)
        { log with modifiedFields := modifiedFields, tuple := tuple }

/-! What a log must say to bring a tuple back: outside its fields the tuple at
hand agrees with the one the log was made from. -/

def Agrees : List Bool → Tuple → Tuple → Prop
  | true :: mask, _ :: base, _ :: original => Agrees mask base original
  | false :: mask, value :: base, wanted :: original => value = wanted ∧ Agrees mask base original
  | [], [], [] => True
  | _, _, _ => False

def Wider (mask wider : List Bool) : Prop :=
  List.Forall₂ (fun old new => old = true → new = true) mask wider

section Masks
variable {mask wider : List Bool} {base target original : Tuple} {changed : List Bool}

theorem wider_refl (mask : List Bool) : Wider mask mask := by
  induction mask with
  | nil => exact List.Forall₂.nil
  | cons _ _ ih => exact List.Forall₂.cons id ih

theorem wider_trans {widest : List Bool} (first : Wider mask wider) (second : Wider wider widest) :
    Wider mask widest := by
  induction first generalizing widest with
  | nil => exact second
  | cons step _ ih =>
      cases second with
      | cons step' rest => exact List.Forall₂.cons (step' ∘ step) (ih rest)

theorem agrees_apply (agrees : Agrees mask base original) :
    applyFields mask base (selectFields mask original) = original := by
  fun_induction Agrees mask base original with
  | case1 mask value base wanted original ih => simpa [applyFields, selectFields] using ih agrees
  | case2 mask value base wanted original ih =>
      obtain ⟨rfl, rest⟩ := agrees
      simpa [applyFields, selectFields] using ih rest
  | case3 => rfl
  | case4 => exact agrees.elim

theorem agrees_length (agrees : Agrees mask base original) :
    mask.length = original.length ∧ base.length = original.length := by
  fun_induction Agrees mask base original with
  | case1 mask value base wanted original ih => simpa using ih agrees
  | case2 mask value base wanted original ih => simpa using ih agrees.2
  | case3 => exact ⟨rfl, rfl⟩
  | case4 => exact agrees.elim

theorem agrees_wider (grows : Wider mask wider) (agrees : Agrees mask base original) :
    Agrees wider base original := by
  induction grows generalizing base original with
  | nil => exact agrees
  | @cons old new mask wider step _ ih =>
      cases base with
      | nil => cases old <;> cases original <;> exact agrees.elim
      | cons value base =>
          cases original with
          | nil => cases old <;> exact agrees.elim
          | cons wanted original =>
              cases old with
              | true =>
                  rw [step rfl]
                  exact ih agrees
              | false =>
                  obtain ⟨same, rest⟩ := agrees
                  cases new with
                  | true => exact ih rest
                  | false => exact ⟨same, ih rest⟩

/-- A log of all fields brings its tuple back whatever is there. -/
theorem agrees_full (full : ∀ field ∈ mask, field = true) (sameMask : mask.length = original.length)
    (sameBase : base.length = original.length) : Agrees mask base original := by
  induction mask generalizing base original with
  | nil =>
      obtain rfl := List.length_eq_zero_iff.mp sameMask.symm
      obtain rfl := List.length_eq_zero_iff.mp sameBase
      trivial
  | cons field mask ih =>
      obtain ⟨wanted, original, rfl⟩ := List.exists_cons_of_length_eq_add_one sameMask.symm
      obtain ⟨value, base, rfl⟩ := List.exists_cons_of_length_eq_add_one sameBase
      rw [full field (List.mem_cons_self ..)]
      refine ih (fun field member => full field (List.mem_cons_of_mem _ member)) ?_ ?_
      · simpa using sameMask
      · simpa using sameBase

/-- The log of a first write: the target agrees with the base in the fields
that do not change. -/
theorem agrees_changed (sameTypes : base.map Value.typeId = target.map Value.typeId) :
    Agrees (changedFields base (some target)) target base := by
  induction base generalizing target with
  | nil =>
      cases target with
      | nil => trivial
      | cons value target => simp at sameTypes
  | cons value base ih =>
      cases target with
      | nil => simp at sameTypes
      | cons other target =>
          simp only [List.map_cons, List.cons.injEq] at sameTypes
          obtain ⟨sameType, sameTypes⟩ := sameTypes
          have equal := Value.compare_exactly_equals sameType
          cases compared : value.compareExactlyEquals other with
          | true =>
              simp only [changedFields, List.zipWith_cons_cons, compared, Bool.not_true]
              exact ⟨(equal.mp compared).symm, ih sameTypes⟩
          | false =>
              simp only [changedFields, List.zipWith_cons_cons, compared, Bool.not_false]
              exact ih sameTypes

theorem changed_deleted (base : Tuple) :
    (∀ field ∈ changedFields base none, field = true) ∧ (changedFields base none).length =
      base.length := by
  simp [changedFields]

theorem changed_length (sameTypes : base.map Value.typeId = target.map Value.typeId) :
    (changedFields base (some target)).length = base.length := by
  have lengths := congrArg List.length sameTypes
  simp only [List.length_map] at lengths
  simp [changedFields, lengths]

/-- A later write of the same transaction: the log keeps speaking of the same
tuple and gains the fields that change now. -/
theorem merge_fields (agrees : Agrees mask base original)
    (sameLength : changed.length = base.length) :
    Wider mask (mergeFields mask (selectFields mask original) base changed).1 ∧
      Wider changed (mergeFields mask (selectFields mask original) base changed).1 ∧
      (mergeFields mask (selectFields mask original) base changed).2 =
        selectFields (mergeFields mask (selectFields mask original) base changed).1 original := by
  induction changed generalizing mask base original with
  | nil =>
      obtain rfl := List.length_eq_zero_iff.mp sameLength.symm
      have lengths := agrees_length agrees
      obtain rfl := List.length_eq_zero_iff.mp lengths.2.symm
      obtain rfl := List.length_eq_zero_iff.mp lengths.1
      exact ⟨List.Forall₂.nil, List.Forall₂.nil, rfl⟩
  | cons change changed ih =>
      obtain ⟨value, base, rfl⟩ := List.exists_cons_of_length_eq_add_one sameLength.symm
      have lengths := agrees_length agrees
      obtain ⟨wanted, original, rfl⟩ := List.exists_cons_of_length_eq_add_one lengths.2.symm
      obtain ⟨field, mask, rfl⟩ := List.exists_cons_of_length_eq_add_one lengths.1
      have shorter : changed.length = base.length := by simpa using sameLength
      cases field with
      | true =>
          have rest : Agrees mask base original := agrees
          obtain ⟨wide, wide', values⟩ := ih rest shorter
          refine ⟨List.Forall₂.cons id wide, List.Forall₂.cons (fun _ => rfl) wide', ?_⟩
          simp [mergeFields, selectFields, values]
      | false =>
          obtain ⟨rfl, rest⟩ := agrees
          obtain ⟨wide, wide', values⟩ := ih rest shorter
          refine ⟨List.Forall₂.cons (by simp) wide, List.Forall₂.cons id wide', ?_⟩
          cases change <;> simp [mergeFields, selectFields, values]

/-- Where two tuples agree outside the fields that change and outside the old
mask, the target of the change agrees with the original outside the new one. -/
theorem agrees_through (agrees : Agrees mask base original) (moved : Agrees changed target base)
    (oldWider : Wider mask wider) (newWider : Wider changed wider) :
    Agrees wider target original := by
  induction oldWider generalizing base original changed target with
  | nil =>
      cases newWider
      have lengths := agrees_length agrees
      have lengths' := agrees_length moved
      obtain rfl := List.length_eq_zero_iff.mp lengths.1.symm
      obtain rfl := List.length_eq_zero_iff.mp lengths.2
      obtain rfl := List.length_eq_zero_iff.mp lengths'.2
      trivial
  | @cons old new mask wider step _ ih =>
      obtain ⟨wanted, original, rfl⟩ :=
        List.exists_cons_of_length_eq_add_one (agrees_length agrees).1.symm
      obtain ⟨value, base, rfl⟩ :=
        List.exists_cons_of_length_eq_add_one (agrees_length agrees).2
      obtain ⟨other, target, rfl⟩ :=
        List.exists_cons_of_length_eq_add_one (agrees_length moved).2
      cases newWider with
      | @cons change _ changed _ step' newWider =>
          cases new with
          | true =>
              have rest : Agrees mask base original := by
                cases old
                · exact agrees.2
                · exact agrees
              have rest' : Agrees changed target base := by
                cases change
                · exact moved.2
                · exact moved
              exact ih rest rest' newWider
          | false =>
              obtain rfl : old = false := by simpa using step
              obtain rfl : change = false := by simpa using step'
              exact ⟨moved.1.trans agrees.1, ih agrees.2 moved.2 newWider⟩

end Masks

/-! A row at one time is `some` tuple, or `none` while it is deleted. The values
of a deleted row are those of some earlier tuple and mean nothing. -/

def Full (mask : List Bool) : Prop := ∀ field ∈ mask, field = true

def Stands (log : UndoLog) : Option Tuple → Prop
  | some original => log.isDeleted = false ∧ log.modifiedFields.length = original.length ∧
      log.tuple = selectFields log.modifiedFields original
  | none => log.isDeleted = true ∧ (∀ field ∈ log.modifiedFields, field = false) ∧ log.tuple = []

def Covers (mask : List Bool) : Option Tuple → Option Tuple → Prop
  | _, none => True
  | some base, some original => Agrees mask base original
  | none, some original => Full mask ∧ mask.length = original.length

structure Shows (values : Tuple) (deleted : Bool) (row : Option Tuple) : Prop where
  flag : deleted = row.isNone
  same : ∀ tuple, row = some tuple → values = tuple

section Rows
variable {log : UndoLog} {base target row original : Option Tuple} {values : Tuple} {deleted : Bool}
  {mask wider : List Bool} {schema : Schema}

theorem shows_live (tuple : Tuple) : Shows tuple false (some tuple) :=
  ⟨rfl, fun _ same => Option.some.inj same⟩

theorem shows_deleted (values : Tuple) : Shows values true none :=
  ⟨rfl, fun _ same => by cases same⟩

theorem shows_iff : Shows values deleted row ↔ row = if deleted then none else some values := by
  constructor
  · rintro ⟨flag, same⟩
    cases row with
    | none => simp [flag]
    | some tuple => simp [flag, same tuple rfl]
  · rintro rfl
    cases deleted
    · exact shows_live values
    · exact shows_deleted values

theorem apply_no_fields (none : ∀ field ∈ mask, field = false) (values : Tuple) :
    applyFields mask values [] = values := by
  induction mask generalizing values with
  | nil => cases values <;> rfl
  | cons field mask ih =>
      rw [none field (List.mem_cons_self ..)]
      cases values with
      | nil => rfl
      | cons value values =>
          simp [applyFields, ih (fun field member => none field (List.mem_cons_of_mem _ member))]

/-- One step of `ReconstructTuple`: the log brings its row back. -/
theorem apply_log (shows : Shows values deleted row) (stands : Stands log original)
    (covers : Covers log.modifiedFields row original)
    (sameLength : ∀ tuple, original = some tuple → values.length = tuple.length) :
    Shows (applyUndoLog values log) log.isDeleted original ∧
      (applyUndoLog values log).length = values.length := by
  cases original with
  | none =>
      obtain ⟨flag, noFields, empty⟩ := stands
      rw [applyUndoLog, empty, apply_no_fields noFields, flag]
      exact ⟨shows_deleted values, rfl⟩
  | some tuple =>
      obtain ⟨flag, lengths, fields⟩ := stands
      have agrees : Agrees log.modifiedFields values tuple := by
        cases row with
        | some base => exact shows.same base rfl ▸ covers
        | none => exact agrees_full covers.1 covers.2 (sameLength tuple rfl)
      rw [applyUndoLog, fields, agrees_apply agrees, flag]
      exact ⟨shows_live tuple, (sameLength tuple rfl).symm⟩

/-- The row of a log in memory; the values of a deleted one do not matter. -/
theorem shows_restored (stands : Stands log row) (values : Tuple) :
    Shows (row.getD values) log.isDeleted row := by
  cases row with
  | none =>
      rw [stands.1]
      exact shows_deleted values
  | some tuple =>
      rw [stands.1]
      exact shows_live tuple

theorem covers_wider (grows : Wider mask wider) (covers : Covers mask row original) :
    Covers wider row original := by
  cases original with
  | none => trivial
  | some tuple =>
      cases row with
      | some base => exact agrees_wider grows covers
      | none =>
          refine ⟨?_, grows.length_eq.symm.trans covers.2⟩
          have full := covers.1
          clear covers
          induction grows with
          | nil => exact full
          | @cons old new mask wider step _ ih =>
              intro field member
              rcases List.mem_cons.mp member with rfl | later
              · exact step (full old (List.mem_cons_self ..))
              · exact ih (fun field member =>
                  full field (List.mem_cons_of_mem _ member)) field later

theorem covers_full (full : Full mask)
    (sameMask : ∀ tuple, original = some tuple → mask.length = tuple.length)
    (sameRow : ∀ old new, original = some old → row = some new → new.length = old.length) :
    Covers mask row original := by
  cases original with
  | none => trivial
  | some tuple =>
      cases row with
      | some base => exact agrees_full full (sameMask tuple rfl) (sameRow tuple base rfl rfl)
      | none => exact ⟨full, sameMask tuple rfl⟩

/-- The log of a first write holds the row before it and leads back to it. -/
theorem new_log_stands (schema : Schema) (ts : Timestamp) (prev : UndoLink)
    (sameTypes : ∀ old new, base = some old → target = some new →
      old.map Value.typeId = new.map Value.typeId) :
    Stands (generateNewUndoLog schema base target ts prev) base ∧
      Covers (generateNewUndoLog schema base target ts prev).modifiedFields target base := by
  cases base with
  | none =>
      refine ⟨⟨rfl, by simp [generateNewUndoLog], ?_⟩, trivial⟩
      cases schema <;> rfl
  | some old =>
      cases target with
      | none =>
          have full := changed_deleted old
          exact ⟨⟨rfl, full.2, rfl⟩, full.1, full.2⟩
      | some new =>
          have types := sameTypes old new rfl rfl
          exact ⟨⟨rfl, changed_length types, rfl⟩, agrees_changed types⟩

/-- The log after a later write of the same transaction still holds its row,
has lost no field, and leads back from the new row. -/
theorem updated_log_stands (stands : Stands log original)
    (covers : Covers log.modifiedFields base original)
    (sameTypes : ∀ old new, base = some old → target = some new →
      old.map Value.typeId = new.map Value.typeId)
    (sameLength : ∀ old new, original = some old → target = some new → new.length = old.length) :
    Stands (generateUpdatedUndoLog base target log) original ∧
      Wider log.modifiedFields (generateUpdatedUndoLog base target log).modifiedFields ∧
      Covers (generateUpdatedUndoLog base target log).modifiedFields target original := by
  cases original with
  | none =>
      have kept : generateUpdatedUndoLog base target log = log := by
        simp [generateUpdatedUndoLog, stands.1]
      rw [kept]
      exact ⟨stands, wider_refl _, trivial⟩
  | some tuple =>
      obtain ⟨flag, lengths, fields⟩ := stands
      cases base with
      | none =>
          have kept : generateUpdatedUndoLog none target log = log := by
            simp [generateUpdatedUndoLog]
          rw [kept]
          exact ⟨⟨flag, lengths, fields⟩, wider_refl _,
            covers_full covers.1 (fun _ same => Option.some.inj same ▸ lengths) sameLength⟩
      | some old =>
          have sameChanged : (changedFields old target).length = old.length := by
            cases target with
            | none => exact (changed_deleted old).2
            | some new => exact changed_length (sameTypes old new rfl rfl)
          obtain ⟨wide, wide', values⟩ := merge_fields covers sameChanged
          have merged : generateUpdatedUndoLog (some old) target log =
              { log with
                modifiedFields :=
                  (mergeFields log.modifiedFields log.tuple old (changedFields old target)).1
                tuple :=
                  (mergeFields log.modifiedFields log.tuple old (changedFields old target)).2
                    } := by
            simp [generateUpdatedUndoLog, flag]
          rw [fields] at merged
          have newLength := wide.length_eq.symm.trans lengths
          rw [merged]
          refine ⟨⟨flag, newLength, values⟩, wide, ?_⟩
          cases target with
          | none =>
              have full := covers_wider wide'
                (show Covers (changedFields old none) none (some old) from changed_deleted old)
              exact ⟨full.1, newLength⟩
          | some new =>
              exact agrees_through covers (agrees_changed (sameTypes old new rfl rfl)) wide wide'

theorem updated_log_same (base target : Option Tuple) (log : UndoLog) :
    (generateUpdatedUndoLog base target log).ts = log.ts ∧
      (generateUpdatedUndoLog base target log).prevVersion = log.prevVersion := by
  unfold generateUpdatedUndoLog
  split
  · exact ⟨rfl, rfl⟩
  · split <;> exact ⟨rfl, rfl⟩

end Rows

end BusTub
