import BusTub.IntegerCasts
import BusTub.SortOrder

/-!
Comparisons between the integer types and VARCHAR. The left operand decides: an
integer reads the text as a number, a text has the integer written out and
compares bytes. The two agree when dictionary order puts the text where its
number belongs.
-/

namespace BusTub

open MachineIntegers

namespace Value

def Holds (comparison : ComparisonType) (left right : Value) :
    Prop := left.compare comparison right = some (some true)

/-- What is asked of the six comparisons of two values, neither of them NULL. -/
structure Coherent (left right : Value) : Prop where
  decided : ∀ comparison, ∃ answer, left.compare comparison right = some (some answer)
  exactlyOne :
    left.Holds .lessThan right ∧ ¬ left.Holds .equal right ∧ ¬ left.Holds .greaterThan right ∨
    ¬ left.Holds .lessThan right ∧ left.Holds .equal right ∧ ¬ left.Holds .greaterThan right ∨
    ¬ left.Holds .lessThan right ∧ ¬ left.Holds .equal right ∧ left.Holds .greaterThan right
  lessGreater : left.Holds .lessThan right ↔ right.Holds .greaterThan left
  equalEqual : left.Holds .equal right ↔ right.Holds .equal left
  lessThanOrEqual : left.Holds .lessThanOrEqual right ↔ left.Holds .lessThan right ∨
    left.Holds .equal right
  greaterThanOrEqual : left.Holds .greaterThanOrEqual right ↔ left.Holds .greaterThan right ∨
    left.Holds .equal right
  notEqual : left.Holds .notEqual right ↔ ¬ left.Holds .equal right

section Orders
variable {left right : Value} {order back : Ordering}

def OrderedAs (left right : Value) (order : Ordering) : Prop :=
  ∀ comparison, left.compare comparison right = some (some (comparison.admits (some order)))

theorem ordered_holds (ordered : left.OrderedAs right order) (comparison : ComparisonType) :
    left.Holds comparison right ↔ comparison.admits (some order) = true := by
  rw [Holds, ordered comparison]
  simp

/-- Both ways round are coherent when one order is the other one turned round. -/
theorem coherent_iff (forth : left.OrderedAs right order) (other : right.OrderedAs left back) :
    left.Coherent right ∧ right.Coherent left ↔ back = order.swap := by
  constructor
  · rintro ⟨one, two⟩
    have less := one.lessGreater
    have equal := one.equalEqual
    have greater := two.lessGreater
    simp only [ordered_holds forth, ordered_holds other, ComparisonType.admits]
      at less equal greater
    cases order <;> cases back <;> simp_all
  · rintro rfl
    constructor
    · constructor
      case decided => exact fun comparison => ⟨_, forth comparison⟩
      all_goals simp only [ordered_holds forth, ordered_holds other, ComparisonType.admits]
      all_goals cases order <;> simp
    · constructor
      case decided => exact fun comparison => ⟨_, other comparison⟩
      all_goals simp only [ordered_holds forth, ordered_holds other, ComparisonType.admits]
      all_goals cases order <;> simp

end Orders

end Value

/-- A value of an integer type or a VARCHAR that is not NULL. -/
inductive Comparand where
  | integer (operand : IntegerOperand)
  | varchar (text : List UInt8)

namespace Comparand

def toValue : Comparand → Value
  | .integer operand => operand.toValue
  | .varchar text => ⟨.varchar, some (.text text)⟩

end Comparand

def TypeId.isComparand (typeId : TypeId) : Bool := typeId.isInteger || typeId = .varchar

def ReadsInOrder (operand : IntegerOperand) (text : List UInt8) : Prop :=
  ∃ number, castToInteger operand.machine.typeId text = some number ∧
    (number < operand.number → text < integerToString operand.number) ∧
    (number = operand.number → text = integerToString operand.number) ∧
    (operand.number < number → integerToString operand.number < text)

namespace Comparand

def InOrder : Comparand → Comparand → Prop
  | .integer operand, .varchar text | .varchar text, .integer operand => ReadsInOrder operand text
  | .integer _, .integer _ | .varchar _, .varchar _ => True

end Comparand

/-! ### The orders behind a comparison -/

theorem compare_strings_lt {left right : List UInt8} : compareStrings left right = .lt ↔
    left < right := by
  induction left generalizing right with
  | nil => cases right <;> simp [compareStrings]
  | cons first left ih =>
      cases right with
      | nil => simp [compareStrings]
      | cons second right =>
          rw [List.cons_lt_cons_iff]
          rcases bytes_apart first second with ⟨less, _, _⟩ | equal | ⟨_, notLess, apart⟩
          · simp [compareStrings, less]
          · subst equal
            simp [compareStrings, ih]
          · simp [compareStrings, notLess, apart]

theorem integers_swap (left right : Int) :
    (orderIntegers left right).swap = orderIntegers right left := by
  rcases lt_trichotomy left right with less | rfl | greater
  · rw [integers_lt.mpr less, integers_gt.mpr less]
    rfl
  · rw [order_integers_eq.mpr rfl]
    rfl
  · rw [integers_gt.mpr greater, integers_lt.mpr greater]
    rfl

theorem compare_strings_swap (left right : List UInt8) :
    (compareStrings left right).swap = compareStrings right left := by
  cases order : compareStrings left right with
  | lt => rw [(strings_swap right left).mpr order]; rfl
  | eq => rw [compare_strings_eq.mp order, compare_strings_eq.mpr rfl]; rfl
  | gt => rw [(strings_swap left right).mp order]; rfl

section Compared
variable {operand other : IntegerOperand} {text : List UInt8}

theorem integers_ordered (operand other : IntegerOperand) :
    operand.toValue.OrderedAs other.toValue (orderIntegers operand.number other.number) := by
  obtain ⟨machine, number, inside⟩ := operand
  obtain ⟨machine', number', inside'⟩ := other
  intro comparison
  cases machine <;> cases machine' <;> rfl

theorem texts_ordered (left right : List UInt8) :
    (Comparand.varchar left).toValue.OrderedAs (Comparand.varchar right).toValue
      (compareStrings left right) :=
  fun _ => rfl

theorem integer_text (operand : IntegerOperand) (text : List UInt8) (comparison : ComparisonType) :
    operand.toValue.compare comparison (Comparand.varchar text).toValue =
      (castToInteger operand.machine.typeId text).map fun number =>
        some (comparison.admits (some (orderIntegers operand.number number))) := by
  obtain ⟨machine, number, inside⟩ := operand
  have read : (⟨machine, number, inside⟩ : IntegerOperand).toValue.compare comparison
    (Comparand.varchar text).toValue =
      ((castToInteger machine.typeId text).map fun second =>
        some (orderIntegers number second)).map fun order =>
        some (comparison.admits order) := by
    cases machine <;> rfl
  rw [read, Option.map_map]
  rfl

theorem text_integer (operand : IntegerOperand) (text : List UInt8) :
    (Comparand.varchar text).toValue.OrderedAs operand.toValue
      (compareStrings text (integerToString operand.number)) := by
  obtain ⟨machine, number, inside⟩ := operand
  intro comparison
  cases machine <;> rfl

/-- Two ways to say that the dictionary puts the text where its number belongs. -/
theorem in_order_iff {number value : Int} {text digits : List UInt8} :
    compareStrings text digits = orderIntegers number value ↔
      (number < value → text < digits) ∧ (number = value → text = digits) ∧
      (value < number → digits < text) := by
  rw [← compare_strings_lt, ← compare_strings_lt, ← compare_strings_eq, ← strings_swap text digits]
  rcases lt_trichotomy number value with less | rfl | greater
  · simp [integers_lt.mpr less, less, ne_of_lt less, not_lt_of_gt less]
  · simp [order_integers_eq.mpr]
  · simp [integers_gt.mpr greater, greater, ne_of_gt greater, not_lt_of_gt greater]

theorem integer_text_coherent_iff (operand : IntegerOperand) (text : List UInt8) :
    operand.toValue.Coherent (Comparand.varchar text).toValue ∧
      (Comparand.varchar text).toValue.Coherent operand.toValue ↔
      ReadsInOrder operand text := by
  unfold ReadsInOrder
  cases read : castToInteger operand.machine.typeId text with
  | none =>
      constructor
      · rintro ⟨coherent, _⟩
        obtain ⟨answer, compared⟩ := coherent.decided .equal
        rw [integer_text, read] at compared
        cases compared
      · rintro ⟨_, impossible, _⟩
        cases impossible
  | some number =>
      have forth :
          operand.toValue.OrderedAs (Comparand.varchar text).toValue
            (orderIntegers operand.number number) := by
        intro comparison
        rw [integer_text, read]
        rfl
      rw [Value.coherent_iff forth (text_integer operand text), integers_swap, in_order_iff]
      simp

end Compared

/-- The comparisons among the integer types and VARCHAR are coherent for all pairs
of one kind, for a text and an integer exactly when the text reads in order, and
NULL for a NULL operand. -/
theorem comparison_coherent_iff (left right : Comparand) :
    (left.toValue.Coherent right.toValue ∧ right.toValue.Coherent left.toValue ↔
      left.InOrder right) ∧
      ∀ (comparison : ComparisonType) (first second : Value), first.typeId.isComparand = true →
      second.typeId.isComparand = true → first.isNull = true ∨ second.isNull = true →
      first.compare comparison second = some none := by
  constructor
  · cases left with
    | integer operand =>
        cases right with
        | integer other =>
            refine (Value.coherent_iff (integers_ordered operand other)
              (integers_ordered other operand)).trans ?_
            simp [integers_swap, Comparand.InOrder]
        | varchar text => exact integer_text_coherent_iff operand text
    | varchar text =>
        cases right with
        | integer operand => exact and_comm.trans (integer_text_coherent_iff operand text)
        | varchar other =>
            refine (Value.coherent_iff (texts_ordered text other) (texts_ordered other text)).trans
              ?_
            simp [compare_strings_swap, Comparand.InOrder]
  · intro comparison left right first second null
    obtain ⟨leftType, leftDatum⟩ := left
    obtain ⟨rightType, rightDatum⟩ := right
    have comparable : leftType.checkComparable rightType = true := by
      cases leftType <;> cases rightType <;>
        simp_all [TypeId.isComparand, TypeId.isInteger, TypeId.checkComparable]
    simp only [Value.compare, comparable, if_true]
    cases leftDatum with
    | none => rfl
    | some datum =>
        cases rightDatum with
        | none => rfl
        | some other => simp [Value.isNull] at null

/-! ### Numerals of one length -/

theorem digits_below {digits : List Char} (decimal : ∀ digit ∈ digits, digit.isDigit) :
    Nat.ofDigitChars 10 digits 0 < 10 ^ digits.length := by
  induction digits with
  | nil => simp
  | cons digit rest ih =>
      have range := digit_range (decimal digit List.mem_cons_self)
      have below := ih fun other member => decimal other (List.mem_cons_of_mem _ member)
      have small : 10 ^ rest.length * (digit.toNat - 48) ≤ 10 ^ rest.length * 9 :=
        Nat.mul_le_mul_left _ (by omega)
      rw [Nat.ofDigitChars_cons, Nat.ofDigitChars_eq_ofDigitChars_zero,
        List.length_cons, Nat.pow_succ]
      simp only [Nat.mul_zero, Nat.zero_add, show '0'.toNat = 48 from rfl]
      omega

theorem digit_order {left right : Char} (first : left.isDigit) (second : right.isDigit) :
    (left.toUInt8 < right.toUInt8 ↔ left.toNat < right.toNat) ∧
      (left.toUInt8 = right.toUInt8 ↔ left.toNat = right.toNat) := by
  have range := digit_range first
  have range' := digit_range second
  have value (digit : Char) (range : digit.toNat ≤ 57) : digit.toUInt8.toNat = digit.toNat := by
    simp only [Char.toUInt8, UInt32.toNat_toUInt8]
    exact Nat.mod_eq_of_lt (by have : digit.val.toNat = digit.toNat := rfl; omega)
  rw [UInt8.lt_iff_toNat_lt, ← UInt8.toNat_inj, value left range.2, value right range'.2]
  exact ⟨Iff.rfl, Iff.rfl⟩

theorem digits_in_order {left right : List Char} (lengths : left.length = right.length)
    (first : ∀ digit ∈ left, digit.isDigit) (second : ∀ digit ∈ right, digit.isDigit) :
    (Nat.ofDigitChars 10 left 0 < Nat.ofDigitChars 10 right 0 → ascii left < ascii right) ∧
      (Nat.ofDigitChars 10 left 0 = Nat.ofDigitChars 10 right 0 → left = right) := by
  induction left generalizing right with
  | nil =>
      cases right with
      | nil => simp
      | cons digit rest => cases lengths
  | cons digit left ih =>
      cases right with
      | nil => cases lengths
      | cons other right =>
          have same : left.length = right.length := Nat.succ.inj lengths
          have decimal := fun digit member => first digit (List.mem_cons_of_mem _ member)
          have decimal' := fun digit member => second digit (List.mem_cons_of_mem _ member)
          obtain ⟨less, equal⟩ :=
            digit_order (first digit List.mem_cons_self) (second other List.mem_cons_self)
          have range := digit_range (first digit List.mem_cons_self)
          have range' := digit_range (second other List.mem_cons_self)
          have below := digits_below decimal
          have below' := digits_below decimal'
          obtain ⟨ordered, unique⟩ := ih same decimal decimal'
          rw [Nat.ofDigitChars_cons, Nat.ofDigitChars_eq_ofDigitChars_zero, Nat.ofDigitChars_cons,
            @Nat.ofDigitChars_eq_ofDigitChars_zero right, same]
          rw [same] at below
          simp only [Nat.mul_zero, Nat.zero_add, ascii, List.map_cons,
            List.cons_lt_cons_iff, less, equal, show '0'.toNat = 48 from rfl]
          -- the first digit in which they differ is worth more than all behind it
          rcases Nat.lt_trichotomy digit.toNat other.toNat with front | front | front
          · have step : 10 ^ right.length * (digit.toNat - 48 + 1) ≤ 10 ^ right.length *
              (other.toNat - 48) :=
              Nat.mul_le_mul_left _ (by omega)
            rw [Nat.mul_succ] at step
            exact ⟨fun _ => Or.inl front, fun same => by omega⟩
          · have here : digit = other := Char.toNat_inj.mp front
            subst here
            exact ⟨fun less => Or.inr ⟨rfl, ordered (by omega)⟩,
              fun equal => by rw [unique (by omega)]⟩
          · have step : 10 ^ right.length * (other.toNat - 48 + 1) ≤ 10 ^ right.length *
              (digit.toNat - 48) :=
              Nat.mul_le_mul_left _ (by omega)
            rw [Nat.mul_succ] at step
            exact ⟨fun less => by omega, fun same => by omega⟩

theorem cast_inside (numeral : Numeral) {machine : MachineInt}
    (fits : Inside machine.valueBits numeral.number) :
    castToInteger machine.typeId numeral.text = some numeral.number := by
  have kept : machine.cast numeral.number = numeral.number := wrap_of_holds fits.holds
  have cast := varlen_cast numeral machine
  rw [kept, if_pos ⟨fits.holds.widen (Nat.le_max_right _ _), (inside_iff.mp fits).2⟩] at cast
  obtain ⟨number, read, same⟩ := Option.map_eq_some_iff.mp cast
  have datum := congrArg Value.datum same
  simp only [MachineInt.value, Option.ite_none_left_eq_some, Option.some.injEq, Datum.number.injEq]
    at datum
  rw [read, datum.2]

/-- A numeral without a sign and with as many digits as the integer reads in order. -/
theorem same_length_in_order (operand : IntegerOperand) (numeral : Numeral)
    (plain : numeral.sign = .absent) (natural : 0 ≤ operand.number)
    (fits : Inside operand.machine.valueBits numeral.number)
    (lengths : numeral.digits.length = (numeralOf operand.number).digits.length) :
    ReadsInOrder operand numeral.text := by
  have unsigned : (numeralOf operand.number).sign = .absent := if_neg (not_lt.mpr natural)
  have value (numeral : Numeral) (plain : numeral.sign = .absent) :
      numeral.text = ascii numeral.digits ∧
        numeral.number = Nat.ofDigitChars 10 numeral.digits 0 := by
    simp [Numeral.text, Numeral.number, plain, Sign.text, withSign]
  obtain ⟨text, number⟩ := value numeral plain
  obtain ⟨text', number'⟩ := value (numeralOf operand.number) unsigned
  rw [numeral_number] at number'
  obtain ⟨forth, equal⟩ :=
    digits_in_order lengths numeral.decimal (numeralOf operand.number).decimal
  obtain ⟨back, _⟩ :=
    digits_in_order lengths.symm (numeralOf operand.number).decimal numeral.decimal
  refine ⟨numeral.number, cast_inside numeral fits, ?_⟩
  rw [written_numeral, text, text']
  exact ⟨fun less => forth (by lia), fun same => by rw [equal (by lia)], fun less => back (by lia)⟩

/-! ### Ten and nine -/

def ten : IntegerOperand := ⟨.int32, 10, by decide⟩

/-- Ten is greater than '9', and '9' is greater than ten. -/
theorem ten_nine_incoherent :
    ten.toValue.Holds .greaterThan (Comparand.varchar (ascii ['9'])).toValue ∧
    (Comparand.varchar (ascii ['9'])).toValue.Holds .greaterThan ten.toValue ∧
    ¬ (Comparand.varchar (ascii ['9'])).toValue.Coherent ten.toValue := by
  have forth : ten.toValue.Holds .greaterThan (Comparand.varchar (ascii ['9'])).toValue := by
    unfold Value.Holds
    decide
  have back : (Comparand.varchar (ascii ['9'])).toValue.Holds .greaterThan ten.toValue := by
    unfold Value.Holds
    decide
  refine ⟨forth, back, fun coherent => ?_⟩
  have less := coherent.lessGreater.mpr forth
  rcases coherent.exactlyOne with ⟨_, _, not⟩ | ⟨not, _⟩ | ⟨not, _⟩
  · exact not back
  · exact not less
  · exact not less

end BusTub
