import BusTub.MachineIntegers
import BusTub.Expressions

/-!
The arithmetic of TINYINT, SMALLINT, INTEGER and BIGINT values: the templates of
`type/integer_parent_type.h` with the C++ types they are instantiated at, and
`ArithmeticExpression` beside them. Operands that are DECIMAL or VARCHAR are left out.
-/

namespace BusTub

open MachineIntegers

inductive MachineInt where
  | int8
  | int16
  | int32
  | int64
  deriving DecidableEq

namespace MachineInt

def size : MachineInt → Nat
  | int8 => 1
  | int16 => 2
  | int32 => 4
  | int64 => 8

def valueBits : MachineInt → Nat
  | int8 => 7
  | int16 => 15
  | int32 => 31
  | int64 => 63

def typeId : MachineInt → TypeId
  | int8 => .tinyint
  | int16 => .smallint
  | int32 => .integer
  | int64 => .bigint

def promoted (T1 T2 : MachineInt) : MachineInt := if T1 = int64 ∨ T2 = int64 then int64 else int32

def cast (T : MachineInt) (number : Int) : Int := wrap T.valueBits number

def wider (T1 T2 : MachineInt) : MachineInt := if T1.size ≥ T2.size then T1 else T2

/-- `Value::Value` of a number of the type: its least number is NULL. -/
def value (T : MachineInt) (number : Int) : Value :=
  ⟨T.typeId, if number = -(2 ^ T.valueBits : Nat) then none else some (.number number)⟩

theorem le_promoted_left (T1 T2 : MachineInt) : T1.valueBits ≤ (promoted T1 T2).valueBits := by
  cases T1 <;> cases T2 <;> decide

theorem value_of_inside {T : MachineInt} {number : Int} (inside : Inside T.valueBits number) :
    T.value number = ⟨T.typeId, some (.number number)⟩ := by
  have other := (inside_iff.mp inside).2
  simpa [value] using other

theorem value_brings {T : MachineInt} {number : Int} {typeId : TypeId} {datum : Datum}
    (brings : T.value number = ⟨typeId, some datum⟩) : number ≠ -(2 ^ T.valueBits : Nat) := by
  intro least
  simp [value, least] at brings

theorem left_le_wider (T1 T2 : MachineInt) : T1.valueBits ≤ (wider T1 T2).valueBits := by
  cases T1 <;> cases T2 <;> decide

theorem right_le_wider (T1 T2 : MachineInt) : T2.valueBits ≤ (wider T1 T2).valueBits := by
  cases T1 <;> cases T2 <;> decide

end MachineInt

inductive ArithmeticError where
  | outOfRange
  | divideByZero
  | typeError
  deriving DecidableEq

open MachineInt Outcome

/-! ### The templates -/

def evaluated (T1 T2 : MachineInt) (number : Int) : Outcome ArithmeticError Int :=
  compute (promoted T1 T2).valueBits number

def addValue (T1 T2 : MachineInt) (x y : Int) : Outcome ArithmeticError Value := do
  let sum ← evaluated T1 T2 (x + y)
  let sum1 := T1.cast sum
  let sum2 := T2.cast sum
  if sum ≠ sum1 ∧ sum ≠ sum2 then raised .outOfRange
  else if T1.size ≥ T2.size then
    if (x > 0 ∧ y > 0 ∧ sum1 < 0) ∨ (x < 0 ∧ y < 0 ∧ sum1 > 0) then raised .outOfRange
    else returned (T1.value sum1)
  else if (x > 0 ∧ y > 0 ∧ sum2 < 0) ∨ (x < 0 ∧ y < 0 ∧ sum2 > 0) then raised .outOfRange
  else returned (T2.value sum2)

def subtractValue (T1 T2 : MachineInt) (x y : Int) : Outcome ArithmeticError Value := do
  let diff ← evaluated T1 T2 (x - y)
  let diff1 := T1.cast diff
  let diff2 := T2.cast diff
  if diff ≠ diff1 ∧ diff ≠ diff2 then raised .outOfRange
  else if T1.size ≥ T2.size then
    if (x > 0 ∧ y < 0 ∧ diff1 < 0) ∨ (x < 0 ∧ y > 0 ∧ diff1 > 0) then raised .outOfRange
    else returned (T1.value diff1)
  else if (x > 0 ∧ y < 0 ∧ diff2 < 0) ∨ (x < 0 ∧ y > 0 ∧ diff2 > 0) then raised .outOfRange
  else returned (T2.value diff2)

def multiplyValue (T1 T2 : MachineInt) (x y : Int) : Outcome ArithmeticError Value := do
  let prod ← evaluated T1 T2 (x * y)
  let prod1 := T1.cast prod
  let prod2 := T2.cast prod
  if prod ≠ prod1 ∧ prod ≠ prod2 then raised .outOfRange
  else if T1.size ≥ T2.size then
    if y = 0 then returned (T1.value prod1)
    else do
      -- the least number by -1 would overflow here
      let quotient ← evaluated T1 T2 (prod1.tdiv y)
      if quotient ≠ x then raised .outOfRange else returned (T1.value prod1)
  else if y = 0 then returned (T2.value prod2)
  else do
    let quotient ← evaluated T1 T2 (prod2.tdiv y)
    if quotient ≠ x then raised .outOfRange else returned (T2.value prod2)

def divideValue (T1 T2 : MachineInt) (x y : Int) : Outcome ArithmeticError Value := do
  if y = 0 then raised .divideByZero
  else do
    let quot ← evaluated T1 T2 (x.tdiv y)
    let quot1 := T1.cast quot
    let quot2 := T2.cast quot
    if T1.size ≥ T2.size then returned (T1.value quot1) else returned (T2.value quot2)

def moduloValue (T1 T2 : MachineInt) (x y : Int) : Outcome ArithmeticError Value := do
  if y = 0 then raised .divideByZero
  else do
    let _ ← evaluated T1 T2 (x.tdiv y)
    let quot1 := T1.cast (x.tmod y)
    let quot2 := T2.cast (x.tmod y)
    if T1.size ≥ T2.size then returned (T1.value quot1) else returned (T2.value quot2)

/-! ### The operators of the four types -/

inductive IntegerOperator where
  | add
  | subtract
  | multiply
  | divide
  | modulo
  deriving DecidableEq

namespace IntegerOperator

def isDivision : IntegerOperator → Bool
  | divide | modulo => true
  | _ => false

def method : IntegerOperator → MachineInt → MachineInt → Int → Int → Outcome ArithmeticError Value
  | add => addValue
  | subtract => subtractValue
  | multiply => multiplyValue
  | divide => divideValue
  | modulo => moduloValue

end IntegerOperator

def TypeId.machine : TypeId → Option MachineInt
  | .tinyint => some .int8
  | .smallint => some .int16
  | .integer => some .int32
  | .bigint => some .int64
  | _ => none

def Value.operate (operator : IntegerOperator) (left right : Value) :
    Outcome ArithmeticError Value :=
  match left.typeId.machine, right.typeId.machine with
  | some T1, some T2 =>
      match left.datum, right.datum with
      | some (.number x), some (.number y) =>
          if operator.isDivision && y = 0 then raised .divideByZero else operator.method T1 T2 x y
      -- `OperateNull`
      | _, _ => returned ⟨(wider T1 T2).typeId, none⟩
  | _, _ => raised .typeError

/-! ### What the templates come to -/

/-- A sum, a difference or a product: one that the promoted type does not hold is an overflow,
one that the result type does not hold is an exception. -/
def settled (T1 T2 : MachineInt) (number : Int) : Outcome ArithmeticError Value :=
  if ¬Holds (promoted T1 T2).valueBits number then undefined
  else if Holds (wider T1 T2).valueBits number then returned ((wider T1 T2).value number)
  else raised .outOfRange

section Templates

variable {T1 T2 : MachineInt} {x y number : Int}

theorem outside_both (outside : ¬Holds (wider T1 T2).valueBits number) :
    number ≠ T1.cast number ∧ number ≠ T2.cast number := by
  constructor
  · intro same
    exact outside ((wrap_eq_iff.mp same.symm).widen (left_le_wider T1 T2))
  · intro same
    exact outside ((wrap_eq_iff.mp same.symm).widen (right_le_wider T1 T2))

theorem cast_left (wide : T1.size ≥ T2.size) (holds : Holds (wider T1 T2).valueBits number) :
    T1.cast number = number := by
  have first : wider T1 T2 = T1 := if_pos wide
  rw [first] at holds
  exact wrap_of_holds holds

theorem cast_right (narrow : ¬T1.size ≥ T2.size) (holds : Holds (wider T1 T2).valueBits number) :
    T2.cast number = number := by
  have second : wider T1 T2 = T2 := if_neg narrow
  rw [second] at holds
  exact wrap_of_holds holds

-- The tests of the signs never fire: an operation that comes back at all was exact.
theorem add_settled (T1 T2 : MachineInt) (x y : Int) :
    addValue T1 T2 x y = settled T1 T2 (x + y) := by
  unfold addValue settled evaluated
  by_cases holds : Holds (promoted T1 T2).valueBits (x + y)
  · rw [compute_of_holds holds, returned_bind, if_neg (not_not.mpr holds)]
    by_cases fits : Holds (wider T1 T2).valueBits (x + y)
    · by_cases wide : T1.size ≥ T2.size
      · simp only [cast_left wide fits, wide, fits, if_true]
        grind [wider]
      · simp only [cast_right wide fits, wide, fits, if_true, if_false]
        grind [wider]
    · rw [if_pos (outside_both fits), if_neg fits]
  · rw [compute_overflows holds, undefined_bind, if_pos holds]

theorem subtract_settled (T1 T2 : MachineInt) (x y : Int) :
    subtractValue T1 T2 x y = settled T1 T2 (x - y) := by
  unfold subtractValue settled evaluated
  by_cases holds : Holds (promoted T1 T2).valueBits (x - y)
  · rw [compute_of_holds holds, returned_bind, if_neg (not_not.mpr holds)]
    by_cases fits : Holds (wider T1 T2).valueBits (x - y)
    · by_cases wide : T1.size ≥ T2.size
      · simp only [cast_left wide fits, wide, fits, if_true]
        grind [wider]
      · simp only [cast_right wide fits, wide, fits, if_true, if_false]
        grind [wider]
    · rw [if_pos (outside_both fits), if_neg fits]
  · rw [compute_overflows holds, undefined_bind, if_pos holds]

/-- The division that checks a product gives the left operand back. -/
theorem quotient_checked (inside : Inside T1.valueBits x) (nonzero : y ≠ 0) :
    evaluated T1 T2 ((x * y).tdiv y) = returned x := by
  rw [Int.mul_tdiv_cancel x nonzero]
  exact compute_of_holds (inside.holds.widen (le_promoted_left T1 T2))

theorem multiply_settled (inside : Inside T1.valueBits x) :
    multiplyValue T1 T2 x y = settled T1 T2 (x * y) := by
  unfold multiplyValue settled
  by_cases holds : Holds (promoted T1 T2).valueBits (x * y)
  · have computed : evaluated T1 T2 (x * y) = returned (x * y) := compute_of_holds holds
    rw [computed, returned_bind, if_neg (not_not.mpr holds)]
    by_cases fits : Holds (wider T1 T2).valueBits (x * y)
    · by_cases wide : T1.size ≥ T2.size
      · simp only [cast_left wide fits, wide, fits, if_true]
        by_cases zero : y = 0
        · grind [wider]
        · rw [quotient_checked inside zero]
          grind [wider, returned_bind]
      · simp only [cast_right wide fits, wide, fits, if_true, if_false]
        by_cases zero : y = 0
        · grind [wider]
        · rw [quotient_checked inside zero]
          grind [wider, returned_bind]
    · rw [if_pos (outside_both fits), if_neg fits]
  · have computed : evaluated T1 T2 (x * y) = undefined := compute_overflows holds
    rw [computed, undefined_bind, if_pos holds]

/-- Neither a quotient nor a remainder leaves the type of the left operand. -/
theorem quotient_computed (inside : Inside T1.valueBits x) :
    evaluated T1 T2 (x.tdiv y) = returned (x.tdiv y) :=
  compute_of_holds ((inside_tdiv y inside).holds.widen (le_promoted_left T1 T2))

theorem settled_of_inside (inside : Inside T1.valueBits number) :
    settled T1 T2 number = returned ((wider T1 T2).value number) := by
  have computed := inside.holds.widen (le_promoted_left T1 T2)
  have fits := inside.holds.widen (left_le_wider T1 T2)
  rw [settled, if_neg (not_not.mpr computed), if_pos fits]

theorem result_stored (inside : Inside T1.valueBits number) :
    (if T1.size ≥
      T2.size then (returned (T1.value (T1.cast number)) : Outcome ArithmeticError Value)
      else returned (T2.value (T2.cast number))) = returned ((wider T1 T2).value number) := by
  have fits := (inside.widen (left_le_wider T1 T2)).holds
  by_cases wide : T1.size ≥ T2.size
  · rw [if_pos wide, cast_left wide fits, wider, if_pos wide]
  · rw [if_neg wide, cast_right wide fits, wider, if_neg wide]

theorem divide_exact (inside : Inside T1.valueBits x) (nonzero : y ≠ 0) :
    divideValue T1 T2 x y = returned ((wider T1 T2).value (x.tdiv y)) := by
  unfold divideValue
  rw [if_neg nonzero, quotient_computed inside, returned_bind]
  exact result_stored (inside_tdiv y inside)

theorem modulo_exact (inside : Inside T1.valueBits x) (nonzero : y ≠ 0) :
    moduloValue T1 T2 x y = returned ((wider T1 T2).value (x.tmod y)) := by
  unfold moduloValue
  rw [if_neg nonzero, quotient_computed inside, returned_bind]
  exact result_stored (inside_tmod y inside)

end Templates

/-! ### Exact or raised -/

def IntegerOperator.exact : IntegerOperator → Int → Int → Option Int
  | add, x, y => some (x + y)
  | subtract, x, y => some (x - y)
  | multiply, x, y => some (x * y)
  | divide, x, y => if y = 0 then none else some (x.tdiv y)
  | modulo, x, y => if y = 0 then none else some (x.tmod y)

/-- An integer value that is not NULL, by the C++ type it is stored as. -/
structure IntegerOperand where
  machine : MachineInt
  number : Int
  inside : Inside machine.valueBits number

namespace IntegerOperand

def toValue (operand : IntegerOperand) : Value :=
  ⟨operand.machine.typeId, some (.number operand.number)⟩

@[simp] theorem toValue_datum (operand : IntegerOperand) :
    operand.toValue.datum = some (.number operand.number) :=
    rfl

@[simp] theorem toValue_machine (operand : IntegerOperand) :
    operand.toValue.typeId.machine = some operand.machine := by
  obtain ⟨machine, number, inside⟩ := operand
  cases machine <;> rfl

end IntegerOperand

/-- The exact result as a value of the wider type that is not NULL, or one of the two exceptions. -/
def ExactOrRaised (operator : IntegerOperator) (left right : IntegerOperand) : Prop :=
  left.toValue.operate operator right.toValue = raised .outOfRange ∨
  left.toValue.operate operator right.toValue = raised .divideByZero ∨
  ∃ result, operator.exact left.number right.number = some result ∧
    left.toValue.operate operator right.toValue =
      returned ⟨(wider left.machine right.machine).typeId, some (.number result)⟩

/-- The promoted type holds the result, and the result is not the number that stands for NULL
in the type it is stored as. -/
def ResultFits (operator : IntegerOperator) (left right : IntegerOperand) : Prop :=
  ∀ result, operator.exact left.number right.number = some result →
    Holds (promoted left.machine right.machine).valueBits result ∧
      result ≠ -(2 ^ (wider left.machine right.machine).valueBits : Nat)

theorem operated (operator : IntegerOperator) (left right : IntegerOperand) :
    left.toValue.operate operator right.toValue =
      (operator.exact left.number right.number).elim (raised .divideByZero)
        (settled left.machine right.machine) := by
  unfold Value.operate
  simp only [IntegerOperand.toValue_machine, IntegerOperand.toValue_datum]
  cases operator with
  | add => exact add_settled _ _ _ _
  | subtract => exact subtract_settled _ _ _ _
  | multiply => exact multiply_settled left.inside
  | divide =>
      by_cases zero : right.number = 0
      · simp [IntegerOperator.isDivision, IntegerOperator.exact, zero]
      · have stays := inside_tdiv right.number left.inside
        have divided := @divide_exact _ right.machine _ _ left.inside zero
        simpa [IntegerOperator.isDivision, IntegerOperator.method, IntegerOperator.exact, zero,
          settled_of_inside stays] using divided
  | modulo =>
      by_cases zero : right.number = 0
      · simp [IntegerOperator.isDivision, IntegerOperator.exact, zero]
      · have stays := inside_tmod right.number left.inside
        have divided := @modulo_exact _ right.machine _ _ left.inside zero
        simpa [IntegerOperator.isDivision, IntegerOperator.method, IntegerOperator.exact, zero,
          settled_of_inside stays] using divided

theorem settled_exact_iff (T1 T2 : MachineInt) (number : Int) :
    (settled T1 T2 number = raised .outOfRange ∨ settled T1 T2 number = raised .divideByZero ∨
      settled T1 T2 number = returned ⟨(wider T1 T2).typeId, some (.number number)⟩) ↔
      Holds (promoted T1 T2).valueBits number ∧ number ≠ -(2 ^ (wider T1 T2).valueBits : Nat) := by
  unfold settled
  by_cases computed : Holds (promoted T1 T2).valueBits number
  · by_cases fits : Holds (wider T1 T2).valueBits number
    · simp only [computed, fits, not_true, if_true, if_false, true_and]
      constructor
      · rintro (raises | raises | returns)
        · cases raises
        · cases raises
        · exact value_brings (Outcome.returned.inj returns)
      · intro other
        exact .inr (.inr (congrArg returned (value_of_inside (inside_iff.mpr ⟨fits, other⟩))))
    · have other : number ≠ -(2 ^ (wider T1 T2).valueBits : Nat) := by
        intro least
        apply fits
        rw [least]
        exact least_holds _
      simpa [computed, fits] using other
  · simp [computed]

/-- Arithmetic on integer values is exact or raises if and only if the operation does not
overflow as promoted and its result is not the number kept for NULL. -/
theorem arithmetic_exact_iff (operator : IntegerOperator) (left right : IntegerOperand) :
    ExactOrRaised operator left right ↔ ResultFits operator left right := by
  unfold ExactOrRaised ResultFits
  rw [operated]
  cases exact : operator.exact left.number right.number with
  | none => simp
  | some number => simpa using settled_exact_iff left.machine right.machine number

/-- -127 - 1 among TINYINT values comes back as NULL. -/
theorem tinyint_sum_null :
    ¬ExactOrRaised .add ⟨.int8, -127, by decide⟩ ⟨.int8, -1, by decide⟩ := by
  rw [ExactOrRaised]
  have sum : (IntegerOperand.toValue ⟨.int8, -127, by decide⟩).operate .add
      (IntegerOperand.toValue ⟨.int8, -1, by decide⟩) = returned ⟨.tinyint, none⟩ := by decide
  rw [sum]
  simp

/-! ### Arithmetic in expressions -/

namespace Expression

/-- A tree of `+` and `-` over INTEGER columns and constants, none of them NULL where the
tree is evaluated. -/
def SumTree (column : TupleIdx → Nat → Option Value) : Expression → Prop
  | columnValue tupleIdx colIdx _ => ∃ operand : IntegerOperand, operand.machine = .int32 ∧
      column tupleIdx colIdx = some operand.toValue
  | constantValue val =>
      ∃ operand : IntegerOperand, operand.machine = .int32 ∧ val = operand.toValue
  | arithmetic left right _ => SumTree column left ∧ SumTree column right
  | _ => False

def numberOf (value : Option Value) : Int :=
  match value.bind Value.datum with
  | some (.number number) => number
  | _ => 0

def sumOf (column : TupleIdx → Nat → Option Value) : Expression → Int
  | columnValue tupleIdx colIdx _ => numberOf (column tupleIdx colIdx)
  | constantValue val => numberOf (some val)
  | arithmetic left right computeType =>
      if computeType = .plus then sumOf column left + sumOf column right
      else sumOf column left - sumOf column right
  | _ => 0

/-- Every intermediate result is an INTEGER that is not NULL. -/
def SumsFit (column : TupleIdx → Nat → Option Value) : Expression → Prop
  | arithmetic left right computeType =>
      SumsFit column left ∧ SumsFit column right ∧
        Inside 31 (sumOf column (arithmetic left right computeType))
  | _ => True

end Expression

def ArithmeticType.operator : ArithmeticType → IntegerOperator
  | .plus => .add
  | .minus => .subtract

def Expression.operateOn (column : TupleIdx → Nat → Option Value) :
    Expression → Outcome ArithmeticError Value
  | columnValue tupleIdx colIdx _ => (column tupleIdx colIdx).elim (raised .typeError) returned
  | constantValue val => returned val
  | arithmetic left right computeType => do
      let lhs ← operateOn column left
      let rhs ← operateOn column right
      lhs.operate computeType.operator rhs
  | _ => raised .typeError

/-- A tree whose results fit evaluates to the exact INTEGER, as the values' own arithmetic does;
another one raises. -/
def Expression.AgreesWithValues (column : TupleIdx → Nat → Option Value)
    (expr : Expression) : Prop :=
  (expr.SumsFit column →
    expr.evaluateOn column = some ⟨.integer, some (.number (expr.sumOf column))⟩ ∧
    expr.operateOn column = returned ⟨.integer, some (.number (expr.sumOf column))⟩) ∧
  (¬expr.SumsFit column → expr.evaluateOn column = none)

section Trees

variable {column : TupleIdx → Nat → Option Value} {expr : Expression} {x y : Int}

theorem operand_value {operand : IntegerOperand} (machine : operand.machine = .int32) :
    operand.toValue = ⟨.integer, some (.number operand.number)⟩ := by
  rw [IntegerOperand.toValue, machine]
  rfl

/-- `PerformComputation` and `GetIntegerValue` on two values of the type. -/
theorem computation_returns (computeType : ArithmeticType) (first second : Option Int) :
    ∃ number : Option Int,
      (computeType.perform ⟨.integer, first.map .number⟩ ⟨.integer, second.map .number⟩).bind
        (fun result => some (result.elim ⟨.integer, none⟩ Value.integer)) =
          some ⟨.integer, number.map .number⟩ := by
  cases first with
  | none => exact ⟨none, by simp [ArithmeticType.perform]⟩
  | some x =>
      cases second with
      | none => exact ⟨none, by simp [ArithmeticType.perform]⟩
      | some y =>
          have stored : ∀ number : Int, ∃ held : Option Int, Value.integer number =
              ⟨.integer, held.map .number⟩ := by
            intro number
            by_cases least : number.bmod (1 <<< 32) = -(1 <<< 31 : Nat)
            · exact ⟨none, by rw [Value.integer, if_pos least]; rfl⟩
            · exact ⟨some (number.bmod (1 <<< 32)), by rw [Value.integer, if_neg least]; rfl⟩
          obtain ⟨held, holds⟩ := stored (if computeType = .plus then x + y else x - y)
          exact ⟨held, by simpa [ArithmeticType.perform, Value.getAsInteger] using holds⟩

/-- The evaluation of such a tree always comes back, with an INTEGER or NULL. -/
theorem tree_evaluates (tree : expr.SumTree column) :
    ∃ number : Option Int, expr.evaluateOn column = some ⟨.integer, number.map .number⟩ := by
  induction expr with
  | columnValue tupleIdx colIdx retType =>
      obtain ⟨operand, machine, found⟩ := tree
      exact ⟨some operand.number, by rw [Expression.evaluateOn, found, operand_value machine]; rfl⟩
  | constantValue val =>
      obtain ⟨operand, machine, found⟩ := tree
      exact ⟨some operand.number, by rw [Expression.evaluateOn, found, operand_value machine]; rfl⟩
  | arithmetic left right computeType leftIh rightIh =>
      obtain ⟨first, leftValue⟩ := leftIh tree.1
      obtain ⟨second, rightValue⟩ := rightIh tree.2
      simp only [Expression.evaluateOn, leftValue, rightValue]
      exact computation_returns computeType first second
  | comparison _ _ _ => exact tree.elim
  | logic _ _ _ => exact tree.elim
  | string _ _ => exact tree.elim

theorem integer_inside {number : Int} (inside : Inside 31 number) :
    Value.integer number = ⟨.integer, some (.number number)⟩ := by
  have kept : number.bmod (1 <<< 32) = number := wrap_of_holds inside.holds
  have other : number ≠ -(1 <<< 31 : Nat) := (inside_iff.mp inside).2
  simp only [Value.integer, kept, other, if_false]

theorem computation_exact (computeType : ArithmeticType)
    (inside : Inside 31 (if computeType = .plus then x + y else x - y)) :
    (computeType.perform ⟨.integer, some (.number x)⟩ ⟨.integer, some (.number y)⟩).bind
        (fun result => some (result.elim ⟨.integer, none⟩ Value.integer)) =
      some ⟨.integer, some (.number (if computeType = .plus then x + y else x - y))⟩ := by
  have stored := integer_inside inside
  simpa [ArithmeticType.perform, Value.getAsInteger] using stored

theorem operation_exact (computeType : ArithmeticType)
    (inside : Inside 31 (if computeType = .plus then x + y else x - y)) :
    Value.operate computeType.operator ⟨.integer, some (.number x)⟩ ⟨.integer, some (.number y)⟩ =
      returned ⟨.integer, some (.number (if computeType = .plus then x + y else x - y))⟩ := by
  cases computeType with
  | plus =>
      have settles := (add_settled .int32 .int32 x y).trans (settled_of_inside inside)
      exact settles.trans (congrArg returned (value_of_inside inside))
  | minus =>
      have settles := (subtract_settled .int32 .int32 x y).trans (settled_of_inside inside)
      exact settles.trans (congrArg returned (value_of_inside inside))

theorem tree_sums (tree : expr.SumTree column) (fits : expr.SumsFit column) :
    expr.evaluateOn column = some ⟨.integer, some (.number (expr.sumOf column))⟩ ∧
      expr.operateOn column = returned ⟨.integer, some (.number (expr.sumOf column))⟩ := by
  induction expr with
  | columnValue tupleIdx colIdx retType =>
      obtain ⟨operand, machine, found⟩ := tree
      rw [operand_value machine] at found
      constructor
      · simp [Expression.evaluateOn, Expression.sumOf, Expression.numberOf, found]
      · simp [Expression.operateOn, Expression.sumOf, Expression.numberOf, found]
  | constantValue val =>
      obtain ⟨operand, machine, found⟩ := tree
      rw [operand_value machine] at found
      constructor
      · simp [Expression.evaluateOn, Expression.sumOf, Expression.numberOf, found]
      · simp [Expression.operateOn, Expression.sumOf, Expression.numberOf, found]
  | arithmetic left right computeType leftIh rightIh =>
      obtain ⟨leftFits, rightFits, inside⟩ := fits
      obtain ⟨leftValue, leftOperated⟩ := leftIh tree.1 leftFits
      obtain ⟨rightValue, rightOperated⟩ := rightIh tree.2 rightFits
      constructor
      · simp only [Expression.evaluateOn, leftValue, rightValue]
        exact computation_exact computeType inside
      · simp only [Expression.operateOn, leftOperated, rightOperated, returned_bind]
        exact operation_exact computeType inside
  | comparison _ _ _ => exact tree.elim
  | logic _ _ _ => exact tree.elim
  | string _ _ => exact tree.elim

/-- An expression of `+` and `-` agrees with the arithmetic of the values if and only if
all its intermediate results are INTEGERs that are not NULL. -/
theorem expression_arithmetic_agrees_iff (tree : expr.SumTree column) :
    expr.AgreesWithValues column ↔ expr.SumsFit column := by
  constructor
  · intro agrees
    by_contra outside
    obtain ⟨number, evaluates⟩ := tree_evaluates tree
    have raises := agrees.2 outside
    rw [evaluates] at raises
    cases raises
  · intro fits
    exact ⟨fun _ => tree_sums tree fits, fun outside => (outside fits).elim⟩

end Trees

def lessOne : Expression :=
  .arithmetic (.columnValue .left 0 .integer) (.constantValue (.integer 1)) .minus

theorem less_one_agrees :
    lessOne.AgreesWithValues (fun _ _ => some (.integer 5)) ↔
      lessOne.SumsFit (fun _ _ => some (.integer 5)) :=
  expression_arithmetic_agrees_iff
    ⟨⟨⟨.int32, 5, by decide⟩, rfl, by decide⟩, ⟨⟨.int32, 1, by decide⟩, rfl, by decide⟩⟩

/-- -2147483647 - 1 comes back as NULL. -/
theorem less_one_null : ¬lessOne.AgreesWithValues (fun _ _ => some (.integer (-2147483647))) := by
  intro agrees
  have outside : ¬lessOne.SumsFit (fun _ _ => some (.integer (-2147483647))) :=
    fun fits => absurd fits.2.2 (by decide)
  have raises := agrees.2 outside
  exact absurd raises (by decide)

end BusTub
