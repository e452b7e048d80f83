import BusTub.IntegerArithmetic

/-!
`CastAs` from the four integer types and from VARCHAR to an integer type, and from
an integer type to VARCHAR. The other targets are left out.
-/

namespace BusTub

open MachineIntegers MachineInt

/-! ### The casts -/

/-- From one integer type to another: a narrower one is asked for its range first, in which
the number that stands for NULL is not. -/
def castInteger (T target : MachineInt) (number : Int) : Option Value :=
  if T.valueBits ≤ target.valueBits then some (target.value number)
  else if number > (2 ^ target.valueBits : Nat) - 1 ∨
    number < -(2 ^ target.valueBits : Nat) + 1 then none
  else some (target.value (target.cast number))

def tinyintCastAs := castInteger .int8
def smallintCastAs := castInteger .int16
def integerCastAs := castInteger .int32
def bigintCastAs := castInteger .int64

def varlenCastAs (target : MachineInt) (text : List UInt8) : Option Value :=
  (castToInteger target.typeId text).map target.value

def Value.castAs (value : Value) (target : MachineInt) : Option Value :=
  match value.typeId, value.datum with
  | .varchar, some (.text text) => varlenCastAs target text
  -- a NULL text is read as "varlen_null"
  | .varchar, none => none
  | .tinyint, some (.number number) => tinyintCastAs target number
  | .smallint, some (.number number) => smallintCastAs target number
  | .integer, some (.number number) => integerCastAs target number
  | .bigint, some (.number number) => bigintCastAs target number
  | _, none => some ⟨target.typeId, none⟩
  | _, _ => none

def Value.castAsVarchar (value : Value) : Option Value :=
  match value.datum with
  | none => some ⟨.varchar, none⟩
  | some datum => (castToVarchar value.typeId datum).map fun text => ⟨.varchar, some (.text text)⟩

theorem cast_as_integer (operand : IntegerOperand) (target : MachineInt) :
    operand.toValue.castAs target = castInteger operand.machine target operand.number := by
  obtain ⟨machine, number, inside⟩ := operand
  cases machine <;> rfl

theorem cast_as_varchar (operand : IntegerOperand) :
    operand.toValue.castAsVarchar =
      some ⟨.varchar, some (.text (integerToString operand.number))⟩ := by
  obtain ⟨machine, number, inside⟩ := operand
  cases machine <;> rfl

/-! ### Numerals -/

inductive Sign where
  | absent
  | plus
  | minus
  deriving DecidableEq

def Sign.text : Sign → List UInt8
  | absent => []
  | plus => [43]
  | minus => [45]

structure Numeral where
  sign : Sign
  digits : List Char
  written : digits ≠ []
  decimal : ∀ digit ∈ digits, digit.isDigit

namespace Numeral

def text (numeral : Numeral) : List UInt8 := numeral.sign.text ++ ascii numeral.digits

def number (numeral : Numeral) : Int :=
  withSign (numeral.sign = .minus) (Nat.ofDigitChars 10 numeral.digits 0)

end Numeral

theorem digit_range {digit : Char} (decimal : digit.isDigit) :
    48 ≤ digit.toNat ∧ digit.toNat ≤ 57 := by
  simpa [Char.isDigit, UInt32.le_iff_toNat_le] using decimal

theorem digit_value {digit : Char} (decimal : digit.isDigit) :
    digitValue 10 digit.toUInt8 = some (digit.toNat - 48) := by
  have range := digit_range decimal
  have each : ∀ code < 10, digitValue 10 (Char.ofNat (48 + code)).toUInt8 = some code := by decide
  have read := each (digit.toNat - 48) (by omega)
  rw [show 48 + (digit.toNat - 48) = digit.toNat by omega, Char.ofNat_toNat] at read
  exact read

theorem digit_plain {digit : Char} (decimal : digit.isDigit) :
    isSpace digit.toUInt8 = false ∧ digit.toUInt8 ≠ 45 ∧ digit.toUInt8 ≠ 43 := by
  have range := digit_range decimal
  have each : ∀ code < 10, isSpace (Char.ofNat (48 + code)).toUInt8 = false ∧
      (Char.ofNat (48 + code)).toUInt8 ≠ 45 ∧ (Char.ofNat (48 + code)).toUInt8 ≠ 43 := by decide
  have plain := each (digit.toNat - 48) (by omega)
  rw [show 48 + (digit.toNat - 48) = digit.toNat by omega, Char.ofNat_toNat] at plain
  exact plain

theorem digits_read (digits : List Char) (decimal : ∀ digit ∈ digits, digit.isDigit)
    (number count : Nat) :
    readDigits 10 (ascii digits) number count =
      ((Nat.ofDigitChars 10 digits number, count + digits.length), []) := by
  induction digits generalizing number count with
  | nil => simp [ascii, readDigits]
  | cons digit digits ih =>
      have first := digit_value (decimal digit (by simp))
      have others : ∀ other ∈ digits, other.isDigit :=
        fun other member => decimal other (by simp [member])
      have rest := ih others (number * 10 + (digit.toNat - 48)) (count + 1)
      simp only [ascii] at rest
      simp only [ascii, List.map_cons, readDigits, first]
      rw [rest, Nat.ofDigitChars_cons]
      simp [Nat.mul_comm, Nat.add_comm, Nat.add_left_comm]

namespace Numeral

variable (numeral : Numeral)

theorem sign_read :
    readSign (numeral.text.dropWhile isSpace) =
      (decide (numeral.sign = .minus), ascii numeral.digits) := by
  obtain ⟨sign, digits, written, decimal⟩ := numeral
  cases sign with
  | plus => simp [text, Sign.text, isSpace, readSign]
  | minus => simp [text, Sign.text, isSpace, readSign]
  | absent =>
      cases digits with
      | nil => exact (written rfl).elim
      | cons digit digits =>
          obtain ⟨visible, notMinus, notPlus⟩ := digit_plain (decimal digit (by simp))
          simp [text, Sign.text, ascii, visible, readSign, notMinus, notPlus]

theorem stoll_text : stoll numeral.text = if Holds 63 numeral.number then some numeral.number
    else none := by
  have digits : 0 + numeral.digits.length ≠ 0 := by
    have written := List.length_pos_iff.mpr numeral.written
    omega
  rw [stoll, numeral.sign_read]
  simp only [digits_read numeral.digits numeral.decimal, digits, if_false]
  rfl

theorem stoi_text : stoi numeral.text = if Holds 31 numeral.number then some numeral.number
    else none := by
  rw [stoi, numeral.stoll_text]
  by_cases fits : Holds 31 numeral.number
  · have wide : Holds 63 numeral.number := fits.widen (by decide)
    rw [if_pos wide, if_pos fits]
    exact Option.filter_some_pos (by simpa [Holds] using fits)
  · rw [if_neg fits]
    by_cases wide : Holds 63 numeral.number
    · rw [if_pos wide]
      exact Option.filter_some_neg (by simpa [Holds] using fits)
    · rw [if_neg wide]
      rfl

end Numeral

def numeralOf (number : Int) : Numeral where
  sign := if number < 0 then .minus else .absent
  digits := Nat.toDigits 10 number.natAbs
  written := Nat.toDigits_ne_nil
  decimal := fun _ member => Nat.isDigit_of_mem_toDigits (by decide) (by decide) member

theorem written_numeral (number : Int) : integerToString number = (numeralOf number).text := by
  by_cases negative : number < 0
  · simp [integerToString, numeralOf, Numeral.text, Sign.text, decimalDigits, negative]
  · simp [integerToString, numeralOf, Numeral.text, Sign.text, decimalDigits, negative]

theorem numeral_number (number : Int) : (numeralOf number).number = number := by
  by_cases negative : number < 0
  · simp only [numeralOf, Numeral.number, negative, if_true, Nat.ofDigitChars_ten_toDigits,
      withSign, decide_true]
    omega
  · simp only [numeralOf, Numeral.number, negative, if_false,
      Nat.ofDigitChars_ten_toDigits, withSign]
    simp only [reduceCtorEq, decide_false, Bool.false_eq_true, if_false]
    omega

/-! ### Each cast -/

theorem integer_cast {T : MachineInt} (target : MachineInt) {number : Int}
    (inside : Inside T.valueBits number) :
    castInteger T target number =
      if Inside target.valueBits number then some ⟨target.typeId, some (.number number)⟩
      else none := by
  unfold castInteger
  by_cases wide : T.valueBits ≤ target.valueBits
  · have fits := inside.widen wide
    rw [if_pos wide, if_pos fits, value_of_inside fits]
  · rw [if_neg wide]
    by_cases fits : Inside target.valueBits number
    · have asked : ¬(number > (2 ^ target.valueBits : Nat) - 1 ∨
          number < -(2 ^ target.valueBits : Nat) + 1) := by
        unfold Inside at fits
        omega
      rw [if_neg asked, if_pos fits, MachineInt.cast, wrap_of_holds fits.holds,
        value_of_inside fits]
    · have asked : number > (2 ^ target.valueBits : Nat) - 1 ∨
          number < -(2 ^ target.valueBits : Nat) + 1 := by
        unfold Inside at fits
        omega
      rw [if_pos asked, if_neg fits]

/-- A number that was read must not be the one for NULL. -/
def refuseNull (target : MachineInt) (read : Option Int) : Option Value :=
  (read.filter fun (number : Int) => -(2 ^ target.valueBits : Nat) < number).map target.value

def stored (target : MachineInt) (read : Option Int) : Option Value :=
  refuseNull target (read.map target.cast)

theorem stored_read (target : MachineInt) (bits : Nat) (number : Int) :
    stored target (if Holds bits number then some number else none) =
      if Holds bits number ∧ target.cast number ≠ -(2 ^ target.valueBits : Nat) then
        some ⟨target.typeId, some (.number (target.cast number))⟩
      else none := by
  have held : Holds target.valueBits (target.cast number) := wrap_holds _ _
  by_cases holds : Holds bits number
  · by_cases least : target.cast number = -(2 ^ target.valueBits : Nat)
    · simp [stored, refuseNull, holds, least]
    · have inside := inside_iff.mpr ⟨held, least⟩
      have above : -(2 ^ target.valueBits : Nat) < target.cast number := inside.1
      rw [stored, refuseNull, if_pos holds, if_pos ⟨holds, least⟩, Option.map_some,
        Option.filter_some_pos (by simpa using above), Option.map_some, value_of_inside inside]
  · simp [stored, refuseNull, holds]

theorem cut_held {target : MachineInt} {number : Int}
    (wide : max 31 target.valueBits = target.valueBits) :
    (if Holds (max 31 target.valueBits) number then some number else none).map target.cast =
      if Holds (max 31 target.valueBits) number then some number else none := by
  by_cases holds : Holds (max 31 target.valueBits) number
  · have kept := wrap_of_holds (wide ▸ holds)
    rw [if_pos holds, Option.map_some, MachineInt.cast, kept]
  · rw [if_neg holds, Option.map_none]

theorem varlen_cast (numeral : Numeral) (target : MachineInt) :
    varlenCastAs target numeral.text =
      if Holds (max 31 target.valueBits) numeral.number ∧
          target.cast numeral.number ≠ -(2 ^ target.valueBits : Nat) then
        some ⟨target.typeId, some (.number (target.cast numeral.number))⟩
      else none := by
  have cut := stored_read target (max 31 target.valueBits) numeral.number
  rw [← cut]
  -- INTEGER and BIGINT are read in their own width: nothing is cut there
  cases target with
  | int8 => exact congrArg (stored .int8) numeral.stoi_text
  | int16 => exact congrArg (stored .int16) numeral.stoi_text
  | int32 =>
      rw [stored, cut_held (by rfl)]
      exact congrArg (refuseNull .int32) numeral.stoi_text
  | int64 =>
      rw [stored, cut_held (by rfl)]
      exact congrArg (refuseNull .int64) numeral.stoll_text

/-! ### Kept or refused -/

inductive CastSource where
  | ofInteger (operand : IntegerOperand)
  | ofNumeral (numeral : Numeral)

namespace CastSource

def toValue : CastSource → Value
  | ofInteger operand => operand.toValue
  | ofNumeral numeral => ⟨.varchar, some (.text numeral.text)⟩

def number : CastSource → Int
  | ofInteger operand => operand.number
  | ofNumeral numeral => numeral.number

end CastSource

/-- The cast comes back with the same integer or it throws; an integer cast to a wider type or to
VARCHAR comes back unchanged. -/
def CastKeeps (source : CastSource) (target : MachineInt) : Prop :=
  (source.toValue.castAs target = none ∨
    source.toValue.castAs target = some ⟨target.typeId, some (.number source.number)⟩) ∧
  ∀ operand, source = .ofInteger operand →
    (operand.machine.valueBits ≤ target.valueBits →
      (operand.toValue.castAs target).bind (fun value => value.castAs operand.machine) =
        some operand.toValue) ∧
    operand.toValue.castAsVarchar.bind (fun value => value.castAs operand.machine) =
      some operand.toValue

/-- No numeral of an `int` is narrowed to a number that is not its own. -/
def NarrowsWell (source : CastSource) (target : MachineInt) : Prop :=
  ∀ numeral, source = .ofNumeral numeral → Holds 31 numeral.number →
    ¬Inside target.valueBits numeral.number →
      target.cast numeral.number = -(2 ^ target.valueBits : Nat)

theorem integer_kept (operand : IntegerOperand) (target : MachineInt) :
    CastKeeps (.ofInteger operand) target := by
  have cast := cast_as_integer operand target
  rw [integer_cast target operand.inside] at cast
  constructor
  · by_cases fits : Inside target.valueBits operand.number
    · exact .inr (by rw [if_pos fits] at cast; exact cast)
    · exact .inl (by rw [if_neg fits] at cast; exact cast)
  · intro source same
    obtain rfl := CastSource.ofInteger.inj same
    constructor
    · intro wide
      have fits := operand.inside.widen wide
      have back := cast_as_integer ⟨target, operand.number, fits⟩ operand.machine
      rw [integer_cast operand.machine fits, if_pos operand.inside] at back
      rw [cast, if_pos fits]
      exact back
    · have held : Holds (max 31 operand.machine.valueBits) operand.number :=
        (operand.inside.widen (Nat.le_max_right 31 _)).holds
      obtain ⟨fits, other⟩ := inside_iff.mp operand.inside
      have back := varlen_cast (numeralOf operand.number) operand.machine
      rw [numeral_number, MachineInt.cast, wrap_of_holds fits, if_pos ⟨held, other⟩] at back
      rw [cast_as_varchar, Option.bind_some, written_numeral]
      exact back

/-- A cast keeps the integer or throws, except where a numeral that an `int` holds is cut to a
TINYINT or SMALLINT that does not hold it and is not NULL. -/
theorem casts_keep_iff (source : CastSource) (target : MachineInt) :
    CastKeeps source target ↔ NarrowsWell source target := by
  cases source with
  | ofInteger operand =>
      constructor
      · intro _ numeral same
        cases same
      · intro _
        exact integer_kept operand target
  | ofNumeral numeral =>
      have cast : (CastSource.ofNumeral numeral).toValue.castAs target = _ :=
        varlen_cast numeral target
      constructor
      · rintro ⟨kept, _⟩ other same holds outside
        obtain rfl := CastSource.ofNumeral.inj same
        by_contra least
        rw [cast, if_pos ⟨holds.widen (Nat.le_max_left 31 _), least⟩] at kept
        rcases kept with refused | kept
        · cases refused
        · have own : target.cast numeral.number = numeral.number := by
            simpa [CastSource.number] using kept
          have inside := inside_iff.mpr ⟨wrap_eq_iff.mp own, own ▸ least⟩
          exact outside inside
      · intro narrows
        constructor
        · rw [cast]
          by_cases comes : Holds (max 31 target.valueBits) numeral.number ∧
              target.cast numeral.number ≠ -(2 ^ target.valueBits : Nat)
          · obtain ⟨holds, other⟩ := comes
            have own : target.cast numeral.number = numeral.number := by
              by_cases inside : Inside target.valueBits numeral.number
              · exact wrap_of_holds inside.holds
              · by_cases small : Holds 31 numeral.number
                · exact (other (narrows numeral rfl small inside)).elim
                · have wide : max 31 target.valueBits = target.valueBits := by
                    rcases Nat.le_total 31 target.valueBits with le | le
                    · exact Nat.max_eq_right le
                    · exact (small (Nat.max_eq_left le ▸ holds)).elim
                  exact wrap_of_holds (wide ▸ holds)
            exact .inr (by rw [if_pos ⟨holds, other⟩, own]; rfl)
          · exact .inl (if_neg comes)
        · intro operand same
          cases same

def threeHundred : Numeral := ⟨.absent, ['3', '0', '0'], by simp, by simp⟩

/-- '300' as a TINYINT is 44. -/
theorem three_hundred_cut : ¬CastKeeps (.ofNumeral threeHundred) .int8 := by
  rintro ⟨kept, _⟩
  have number : threeHundred.number = 300 := rfl
  have cut := varlen_cast threeHundred .int8
  rw [number, if_pos (by decide)] at cut
  have cast : (CastSource.ofNumeral threeHundred).toValue.castAs .int8 = _ := cut
  rw [cast] at kept
  rcases kept with refused | kept
  · cases refused
  · exact absurd kept (by decide)

end BusTub
