import BusTub.ValueComparison

/-!
The expressions of `execution/expressions/`, with `Evaluate` on one tuple and
`EvaluateJoin` on two. An evaluation answers `none` when it does not come back:
a comparison that throws, a column that is not there, a NULL where a string
function reads text. Arrays are left out with the vectors they make.
-/

namespace BusTub

inductive LogicType where
  | and
  | or
  deriving DecidableEq

inductive ArithmeticType where
  | plus
  | minus
  deriving DecidableEq

inductive StringExpressionType where
  | lower
  | upper
  deriving DecidableEq

inductive TupleIdx where
  | left
  | right
  deriving DecidableEq

def TupleIdx.pick (leftTuple rightTuple : Tuple) : TupleIdx → Tuple
  | .left => leftTuple
  | .right => rightTuple

inductive Expression where
  | columnValue (tupleIdx : TupleIdx) (colIdx : Nat) (retType : TypeId)
  | constantValue (val : Value)
  | comparison (left right : Expression) (compType : ComparisonType)
  | logic (left right : Expression) (logicType : LogicType)
  | arithmetic (left right : Expression) (computeType : ArithmeticType)
  | string (arg : Expression) (exprType : StringExpressionType)
  deriving DecidableEq

namespace Value

def boolean (value : Option Bool) : Value :=
  ⟨.boolean, value.map fun holds => .number (if holds then 1 else 0)⟩

/-- `ValueFactory::GetIntegerValue`: of an `int32_t`, whose least number is NULL. -/
def integer (number : Int) : Value :=
  let number := number.bmod (1 <<< 32)
  ⟨.integer, if number = -(1 <<< 31 : Nat) then none else some (.number number)⟩

/-- `GetAs<bool>` of a value that is not NULL: its first byte, which has to be one of a `bool`. -/
def getAsBool : Datum → Option Bool
  | .number number => if number % 256 = 0 then some false
    else if number % 256 = 1 then some true else none
  | _ => none

def getAsInteger : Datum → Option Int
  | .number number => some number
  | _ => none

def getBoolAsCmpBool (value : Value) : Option (Option Bool) :=
  match value.datum with
  | none => some none
  | some datum => (getAsBool datum).map some

def lets (value : Value) : Option Bool := value.getBoolAsCmpBool.map fun answer =>
    answer = some true

@[simp] theorem bool_of_boolean (value : Option Bool) :
    (boolean value).getBoolAsCmpBool = some value := by
  cases value with
  | none => rfl
  | some holds => cases holds <;> rfl

end Value

def LogicType.perform : LogicType → Option Bool → Option Bool → Option Bool
  | .and, left, right =>
      if left = some false ∨ right = some false then some false
      else if left = some true ∧ right = some true then some true
      else none
  | .or, left, right =>
      if left = some false ∧ right = some false then some false
      else if left = some true ∨ right = some true then some true
      else none

/-- `ArithmeticExpression::PerformComputation`, `none` for `std::nullopt`. -/
def ArithmeticType.perform (computeType : ArithmeticType) (left right : Value) :
    Option (Option Int) :=
  match left.datum, right.datum with
  | some first, some second => do
      let first ← Value.getAsInteger first
      let second ← Value.getAsInteger second
      return some (if computeType = .plus then first + second else first - second)
  | _, _ => some none

namespace Expression

def getReturnType : Expression → TypeId
  | columnValue _ _ retType => retType
  | constantValue val => val.typeId
  | comparison _ _ _ | logic _ _ _ => .boolean
  | arithmetic _ _ _ => .integer
  | string _ _ => .varchar

def evaluateOn (column : TupleIdx → Nat → Option Value) : Expression → Option Value
  | columnValue tupleIdx colIdx _ => column tupleIdx colIdx
  | constantValue val => some val
  | comparison left right compType => do
      let lhs ← evaluateOn column left
      let rhs ← evaluateOn column right
      return .boolean (← lhs.compare compType rhs)
  | logic left right logicType => do
      let lhs ← evaluateOn column left
      let rhs ← evaluateOn column right
      return .boolean (logicType.perform (← lhs.getBoolAsCmpBool) (← rhs.getBoolAsCmpBool))
  | arithmetic left right computeType => do
      let lhs ← evaluateOn column left
      let rhs ← evaluateOn column right
      return (← computeType.perform lhs rhs).elim ⟨.integer, none⟩ Value.integer
  | string arg _ => do
      let val ← evaluateOn column arg
      -- `Compute` is not implemented: it answers the empty string
      if val.isNull then none else some ⟨.varchar, some (.text [])⟩

def evaluate (expr : Expression) (tuple : Tuple) : Option Value := expr.evaluateOn fun _ colIdx =>
    tuple[colIdx]?

def evaluateJoin (expr : Expression) (leftTuple rightTuple : Tuple) : Option Value :=
  expr.evaluateOn fun tupleIdx colIdx => (tupleIdx.pick leftTuple rightTuple)[colIdx]?

end Expression

end BusTub
