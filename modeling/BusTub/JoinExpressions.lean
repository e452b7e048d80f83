import BusTub.PlanRewriting
import Mathlib.Algebra.GroupWithZero.Nat

/-!
The expressions with arrays and the values with vectors: each class evaluates on
one tuple and on two, by functions of its own, and a filter's predicate is
rewritten on its way into a join. An evaluation answers `none` when it does not
come back. An array in a join makes room for its elements and then puts them
behind that room.
-/

namespace BusTub.JoinExpressions

/-! ### Values -/

inductive AnyType where
  | plain (typeId : TypeId)
  | vector
  deriving DecidableEq

inductive AnyValue where
  | plain (value : Value)
  | vector (elements : Option (List Rat))
  deriving DecidableEq

abbrev Row := List AnyValue

def BUSTUB_DECIMAL_NULL : Rat := -(powerOfTwo 1024 - powerOfTwo 971)

def getVectorValue (values : List Rat) : AnyValue :=
  .vector (some (values.take (8 * values.length % 2 ^ 32 / 8)))

namespace AnyValue

def getTypeId : AnyValue → AnyType
  | plain value => .plain value.typeId
  | vector _ => .vector

def isNull : AnyValue → Bool
  | plain value => value.isNull
  | vector elements => elements.isNone

def getAsDouble : AnyValue → Option Rat
  | plain ⟨.decimal, none⟩ => some BUSTUB_DECIMAL_NULL
  | plain ⟨.decimal, some (.decimal number)⟩ => some number
  | _ => none

def compare (comparison : ComparisonType) : AnyValue → AnyValue → Option (Option Bool)
  | plain left, plain right => left.compare comparison right
  -- `VectorType` has no comparisons
  | vector _, _ => none
  -- a VARCHAR is comparable with anything, but `VectorType` casts to nothing
  | plain left, vector elements =>
      if left.typeId = .varchar ∧ (left.isNull ∨ elements.isNone) then some none else none

def getBoolAsCmpBool : AnyValue → Option (Option Bool)
  | plain value => value.getBoolAsCmpBool
  | vector elements => if elements.isNone then some none else none

def performComputation (computeType : ArithmeticType) : AnyValue → AnyValue → Option (Option Int)
  | plain left, plain right => computeType.perform left right
  | left, right => if left.isNull ∨ right.isNull then some none else none

def computeString : AnyValue → Option (List UInt8)
  | plain value => if value.isNull then none else some []
  | vector _ => none

end AnyValue

/-! ### Expressions -/

inductive AbstractExpression where
  | columnValue (tupleIdx colIdx : Nat) (retType : AnyType)
  | constantValue (val : AnyValue)
  | comparison (left right : AbstractExpression) (compType : ComparisonType)
  | logic (left right : AbstractExpression) (logicType : LogicType)
  | arithmetic (left right : AbstractExpression) (computeType : ArithmeticType)
  | string (arg : AbstractExpression) (exprType : StringExpressionType)
  | array (children : List AbstractExpression)

namespace AbstractExpression

@[elab_as_elim, induction_eliminator]
theorem inductionOn {motive : AbstractExpression → Prop}
    (columnValue : ∀ tupleIdx colIdx retType, motive (columnValue tupleIdx colIdx retType))
    (constantValue : ∀ val, motive (constantValue val))
    (comparison : ∀ left right compType, motive left → motive right →
      motive (comparison left right compType))
    (logic : ∀ left right logicType, motive left → motive right →
      motive (logic left right logicType))
    (arithmetic : ∀ left right computeType, motive left → motive right →
      motive (arithmetic left right computeType))
    (string : ∀ arg exprType, motive arg → motive (string arg exprType))
    (array : ∀ children, (∀ child ∈ children, motive child) → motive (array children))
    (expr : AbstractExpression) : motive expr := by
  refine @AbstractExpression.rec motive (fun children => ∀ child ∈ children, motive child)
    columnValue constantValue comparison logic arithmetic string array ?nil ?cons expr
  case nil => exact fun child member => absurd member List.not_mem_nil
  case cons =>
    intro head tail front behind child member
    rcases List.mem_cons.mp member with rfl | member
    · exact front
    · exact behind child member

mutual

def evaluate (tuple : Row) : AbstractExpression → Option AnyValue
  | columnValue _ colIdx _ => tuple[colIdx]?
  | constantValue val => some val
  | comparison left right compType => do
      let lhs ← evaluate tuple left
      let rhs ← evaluate tuple right
      return .plain (.boolean (← lhs.compare compType rhs))
  | logic left right logicType => do
      let lhs ← evaluate tuple left
      let rhs ← evaluate tuple right
      return .plain (.boolean (logicType.perform (← lhs.getBoolAsCmpBool) (← rhs.getBoolAsCmpBool)))
  | arithmetic left right computeType => do
      let lhs ← evaluate tuple left
      let rhs ← evaluate tuple right
      return .plain ((← lhs.performComputation computeType rhs).elim ⟨.integer, none⟩ Value.integer)
  | string arg _ => do
      let val ← evaluate tuple arg
      return .plain ⟨.varchar, some (.text (← val.computeString))⟩
  | array children => do
      -- `values.reserve`: room, and no elements yet
      return getVectorValue (← emplaceAll tuple children [])

def emplaceAll (tuple : Row) : List AbstractExpression → List Rat → Option (List Rat)
  | [], values => some values
  | expr :: rest, values => do
      let val ← evaluate tuple expr
      let element ← val.getAsDouble
      emplaceAll tuple rest (values ++ [element])

end

mutual

def evaluateJoin (leftTuple rightTuple : Row) : AbstractExpression → Option AnyValue
  | columnValue tupleIdx colIdx _ => if tupleIdx = 0 then leftTuple[colIdx]?
    else rightTuple[colIdx]?
  | constantValue val => some val
  | comparison left right compType => do
      let lhs ← evaluateJoin leftTuple rightTuple left
      let rhs ← evaluateJoin leftTuple rightTuple right
      return .plain (.boolean (← lhs.compare compType rhs))
  | logic left right logicType => do
      let lhs ← evaluateJoin leftTuple rightTuple left
      let rhs ← evaluateJoin leftTuple rightTuple right
      return .plain (.boolean (logicType.perform (← lhs.getBoolAsCmpBool) (← rhs.getBoolAsCmpBool)))
  | arithmetic left right computeType => do
      let lhs ← evaluateJoin leftTuple rightTuple left
      let rhs ← evaluateJoin leftTuple rightTuple right
      return .plain ((← lhs.performComputation computeType rhs).elim ⟨.integer, none⟩ Value.integer)
  | string arg _ => do
      let val ← evaluateJoin leftTuple rightTuple arg
      return .plain ⟨.varchar, some (.text (← val.computeString))⟩
  | array children => do
      -- `values.resize`: as many zeros as there are children
      return getVectorValue
        (← emplaceAllJoin leftTuple rightTuple children (List.replicate children.length 0))

def emplaceAllJoin (leftTuple rightTuple : Row) : List AbstractExpression → List Rat →
    Option (List Rat)
  | [], values => some values
  | expr :: rest, values => do
      let val ← evaluateJoin leftTuple rightTuple expr
      let element ← val.getAsDouble
      emplaceAllJoin leftTuple rightTuple rest (values ++ [element])

end

/-- How a call does not come back: by an exception, or with the whole process. -/
inductive Failure where
  | exception (message : String)
  | terminate (message : String)
  deriving DecidableEq

mutual

def rewriteExpressionForJoin (leftColumnCnt rightColumnCnt : Nat) :
    AbstractExpression → Except Failure AbstractExpression
  | columnValue tupleIdx colIdx retType =>
      if tupleIdx ≠ 0 then
        .error (.terminate "tuple_idx cannot be value other than 0 before this stage.")
      else if colIdx < leftColumnCnt then .ok (columnValue 0 colIdx retType)
      else if leftColumnCnt ≤ colIdx ∧ colIdx < leftColumnCnt + rightColumnCnt then
        .ok (columnValue 1 (colIdx - leftColumnCnt) retType)
      else .error (.exception "col_idx not in range")
  -- `CloneWithChildren` copies the rest and checks nothing
  | constantValue val => .ok (constantValue val)
  | comparison left right compType => do
      let left ← rewriteExpressionForJoin leftColumnCnt rightColumnCnt left
      let right ← rewriteExpressionForJoin leftColumnCnt rightColumnCnt right
      return comparison left right compType
  | logic left right logicType => do
      let left ← rewriteExpressionForJoin leftColumnCnt rightColumnCnt left
      let right ← rewriteExpressionForJoin leftColumnCnt rightColumnCnt right
      return logic left right logicType
  | arithmetic left right computeType => do
      let left ← rewriteExpressionForJoin leftColumnCnt rightColumnCnt left
      let right ← rewriteExpressionForJoin leftColumnCnt rightColumnCnt right
      return arithmetic left right computeType
  | string arg exprType => do
      let arg ← rewriteExpressionForJoin leftColumnCnt rightColumnCnt arg
      return string arg exprType
  | array children => do
      let children ← rewriteChildren leftColumnCnt rightColumnCnt children
      return array children

def rewriteChildren (leftColumnCnt rightColumnCnt : Nat) :
    List AbstractExpression → Except Failure (List AbstractExpression)
  | [] => .ok []
  | child :: rest => do
      let child ← rewriteExpressionForJoin leftColumnCnt rightColumnCnt child
      let rest ← rewriteChildren leftColumnCnt rightColumnCnt rest
      return child :: rest

end

mutual

def columns : AbstractExpression → List (Nat × Nat)
  | columnValue tupleIdx colIdx _ => [(tupleIdx, colIdx)]
  | constantValue _ => []
  | comparison left right _ | logic left right _ | arithmetic left right _ =>
      columns left ++ columns right
  | string arg _ => columns arg
  | array children => columnsOfAll children

def columnsOfAll : List AbstractExpression → List (Nat × Nat)
  | [] => []
  | child :: rest => columns child ++ columnsOfAll rest

end

def getReturnType : AbstractExpression → AnyType
  | columnValue _ _ retType => retType
  | constantValue val => val.getTypeId
  | comparison _ _ _ | logic _ _ _ => .plain .boolean
  | arithmetic _ _ _ => .plain .integer
  | string _ _ => .plain .varchar
  | array _ => .vector

def getChildren : AbstractExpression → List AbstractExpression
  | columnValue _ _ _ | constantValue _ => []
  | comparison left right _ | logic left right _ | arithmetic left right _ => [left, right]
  | string arg _ => [arg]
  | array children => children

def isArray : AbstractExpression → Bool
  | array _ => true
  | _ => false

def OverOneRow (expr : AbstractExpression) : Prop := ∀ column ∈ expr.columns, column.1 = 0

instance (expr : AbstractExpression) : Decidable expr.OverOneRow :=
  inferInstanceAs (Decidable (∀ column ∈ expr.columns, column.1 = 0))

def isDecimal (row : Row) : AbstractExpression → Bool
  | columnValue _ colIdx _ => (row[colIdx]?.bind AnyValue.getAsDouble).isSome
  | constantValue val => val.getAsDouble.isSome
  | _ => false

/-- An array of DECIMALs, by the number of which its length in bytes is not zero. -/
def makesVector (row : Row) : AbstractExpression → Bool
  | array children => children.length % 2 ^ 29 ≠ 0 && children.all (isDecimal row)
  | _ => false

/-! ### The rewriting, where it comes back -/

mutual

def rebased (leftColumnCnt : Nat) : AbstractExpression → AbstractExpression
  | columnValue _ colIdx retType =>
      if colIdx < leftColumnCnt then columnValue 0 colIdx retType
      else columnValue 1 (colIdx - leftColumnCnt) retType
  | constantValue val => constantValue val
  | comparison left right compType =>
      comparison (rebased leftColumnCnt left) (rebased leftColumnCnt right) compType
  | logic left right logicType =>
      logic (rebased leftColumnCnt left) (rebased leftColumnCnt right) logicType
  | arithmetic left right computeType =>
      arithmetic (rebased leftColumnCnt left) (rebased leftColumnCnt right) computeType
  | string arg exprType => string (rebased leftColumnCnt arg) exprType
  | array children => array (rebasedAll leftColumnCnt children)

def rebasedAll (leftColumnCnt : Nat) : List AbstractExpression → List AbstractExpression
  | [] => []
  | child :: rest => rebased leftColumnCnt child :: rebasedAll leftColumnCnt rest

end

def fault (leftColumnCnt rightColumnCnt : Nat) (column : Nat × Nat) : Option Failure :=
  if column.1 ≠ 0 then some (.terminate "tuple_idx cannot be value other than 0 before this stage.")
  else if column.2 < leftColumnCnt + rightColumnCnt then none
  else some (.exception "col_idx not in range")

def checked {α : Type} (failure : Option Failure) (result : α) : Except Failure α :=
  match failure with
  | some failure => .error failure
  | none => .ok result

theorem checked_bind {α β : Type} {failure later : Option Failure} {found : α} {result : β}
    {next : α → Except Failure β} (continues : next found = checked later result) :
    (checked failure found >>= next) = checked (failure.or later) result := by
  cases failure with
  | none => exact continues
  | some failure => rfl

theorem checked_return {α β : Type} (failure : Option Failure) (found : α) (make : α → β) :
    (do let result ← checked failure found; return make result) = checked failure (make found) := by
  cases failure <;> rfl

section Rewriting
variable {leftColumnCnt rightColumnCnt : Nat} {expr : AbstractExpression}
  {children : List AbstractExpression}

theorem rewrite_children (rewritten : ∀ child ∈ children,
      rewriteExpressionForJoin leftColumnCnt rightColumnCnt child =
        checked (child.columns.findSome? (fault leftColumnCnt rightColumnCnt))
          (child.rebased leftColumnCnt)) :
    rewriteChildren leftColumnCnt rightColumnCnt children =
      checked ((columnsOfAll children).findSome? (fault leftColumnCnt rightColumnCnt))
        (rebasedAll leftColumnCnt children) := by
  induction children with
  | nil => rfl
  | cons child rest ih =>
      obtain ⟨front, behind⟩ := List.forall_mem_cons.mp rewritten
      rw [rewriteChildren, columnsOfAll, rebasedAll, List.findSome?_append, front, ih behind]
      exact checked_bind (checked_return _ _ _)

/-- The first column reference that is at fault decides; without one the references are rebased. -/
theorem rewrite_expression (leftColumnCnt rightColumnCnt : Nat) (expr : AbstractExpression) :
    rewriteExpressionForJoin leftColumnCnt rightColumnCnt expr =
      checked (expr.columns.findSome? (fault leftColumnCnt rightColumnCnt))
        (expr.rebased leftColumnCnt) := by
  induction expr with
  | columnValue tupleIdx colIdx retType =>
      rw [rewriteExpressionForJoin, columns, rebased, List.findSome?_singleton, fault]
      by_cases zero : tupleIdx = 0
      · by_cases onLeft : colIdx < leftColumnCnt
        · have within : colIdx < leftColumnCnt + rightColumnCnt := by omega
          simp [zero, onLeft, within, checked]
        · by_cases within : colIdx < leftColumnCnt + rightColumnCnt
          · simp [zero, onLeft, within, checked, Nat.le_of_not_lt onLeft]
          · simp [zero, onLeft, within, checked]
      · simp [zero, checked]
  | constantValue val => rfl
  | comparison left right _ ihLeft ihRight | logic left right _ ihLeft ihRight
  | arithmetic left right _ ihLeft ihRight =>
      rw [rewriteExpressionForJoin, columns, rebased, List.findSome?_append, ihLeft, ihRight]
      exact checked_bind (checked_return _ _ _)
  | string arg _ ih =>
      rw [rewriteExpressionForJoin, columns, rebased, ih]
      exact checked_return _ _ _
  | array children ih =>
      rw [rewriteExpressionForJoin, columns, rebased, rewrite_children ih]
      exact checked_return _ _ _

theorem column_fault {column : Nat × Nat} (zero : column.1 = 0) :
    fault leftColumnCnt rightColumnCnt column =
      if column.2 < leftColumnCnt + rightColumnCnt then
        none else some (.exception "col_idx not in range") := by
  rw [fault, if_neg (not_not.mpr zero)]

theorem rewrites_inside (overOneRow : expr.OverOneRow)
    (inside : ∀ column ∈ expr.columns, column.2 < leftColumnCnt + rightColumnCnt) :
    rewriteExpressionForJoin leftColumnCnt rightColumnCnt expr =
      .ok (expr.rebased leftColumnCnt) := by
  have faultless : expr.columns.findSome? (fault leftColumnCnt rightColumnCnt) = none := by
    rw [List.findSome?_eq_none_iff]
    intro column member
    rw [column_fault (overOneRow column member), if_pos (inside column member)]
  rw [rewrite_expression, faultless]
  rfl

theorem raises_iff (overOneRow : expr.OverOneRow) :
    (∃ message, rewriteExpressionForJoin leftColumnCnt rightColumnCnt expr =
      .error (.exception message)) ↔ ∃ column ∈ expr.columns, leftColumnCnt + rightColumnCnt ≤
        column.2 := by
  constructor
  · rintro ⟨message, raised⟩
    by_contra! inside
    rw [rewrites_inside overOneRow inside] at raised
    cases raised
  · rintro ⟨column, member, outside⟩
    cases first : expr.columns.findSome? (fault leftColumnCnt rightColumnCnt) with
    | none =>
        have faultless := List.findSome?_eq_none_iff.mp first column member
        rw [column_fault (overOneRow column member), if_neg (Nat.not_lt.mpr outside)] at faultless
        cases faultless
    | some failure =>
        obtain ⟨found, among, fails⟩ := List.exists_of_findSome?_eq_some first
        rw [column_fault (overOneRow found among)] at fails
        obtain ⟨-, same⟩ := Option.ite_none_left_eq_some.mp fails
        obtain rfl := Option.some.inj same
        exact ⟨_, by rw [rewrite_expression, first]; rfl⟩

end Rewriting

/-! ### What the constructors check -/

mutual

def Constructed : AbstractExpression → Prop
  | columnValue _ _ _ | constantValue _ => True
  | comparison left right _ => Constructed left ∧ Constructed right
  | logic left right _ =>
      (Constructed left ∧ Constructed right) ∧
        left.getReturnType = .plain .boolean ∧ right.getReturnType = .plain .boolean
  | arithmetic left right _ =>
      (Constructed left ∧ Constructed right) ∧
        left.getReturnType = .plain .integer ∧ right.getReturnType = .plain .integer
  | string arg _ => Constructed arg ∧ arg.getReturnType = .plain .varchar
  | array children => AllConstructed children

def AllConstructed : List AbstractExpression → Prop
  | [] => True
  | child :: rest => Constructed child ∧ AllConstructed rest

end

section Checks
variable {leftColumnCnt rightColumnCnt : Nat} {expr rewritten : AbstractExpression}

theorem return_type_rebased (leftColumnCnt : Nat) (expr : AbstractExpression) :
    (expr.rebased leftColumnCnt).getReturnType = expr.getReturnType := by
  cases expr with
  | columnValue tupleIdx colIdx retType =>
      rw [rebased]
      split
      · rfl
      · rfl
  | constantValue | comparison | logic | arithmetic | string | array => rfl

theorem constructed_rebased (constructed : expr.Constructed) :
    (expr.rebased leftColumnCnt).Constructed := by
  induction expr with
  | columnValue tupleIdx colIdx retType =>
      rw [rebased]
      split
      · trivial
      · trivial
  | constantValue val => trivial
  | comparison left right _ ihLeft ihRight => exact ⟨ihLeft constructed.1, ihRight constructed.2⟩
  | logic left right _ ihLeft ihRight | arithmetic left right _ ihLeft ihRight =>
      obtain ⟨⟨front, behind⟩, types⟩ := constructed
      simp only [rebased, Constructed, return_type_rebased]
      exact ⟨⟨ihLeft front, ihRight behind⟩, types⟩
  | string arg _ ih =>
      simp only [rebased, Constructed, return_type_rebased]
      exact ⟨ih constructed.1, constructed.2⟩
  | array children ih =>
      simp only [rebased, Constructed] at constructed ⊢
      induction children with
      | nil => trivial
      | cons child rest ihRest =>
          obtain ⟨front, behind⟩ := List.forall_mem_cons.mp ih
          exact ⟨front constructed.1, ihRest behind constructed.2⟩

theorem rewritten_rebased
    (made : rewriteExpressionForJoin leftColumnCnt rightColumnCnt expr = .ok rewritten) :
    rewritten = expr.rebased leftColumnCnt := by
  rw [rewrite_expression] at made
  cases first : expr.columns.findSome? (fault leftColumnCnt rightColumnCnt) with
  | none =>
      rw [first] at made
      exact (Except.ok.inj made).symm
  | some failure =>
      rw [first] at made
      cases made

/-- The checks that nobody makes of the rewritten expression would succeed. -/
theorem rewritten_constructed
    (made : rewriteExpressionForJoin leftColumnCnt rightColumnCnt expr = .ok rewritten)
    (constructed : expr.Constructed) :
    rewritten.Constructed ∧ rewritten.getReturnType = expr.getReturnType := by
  obtain rfl := rewritten_rebased made
  exact ⟨constructed_rebased constructed, return_type_rebased leftColumnCnt expr⟩

end Checks

end AbstractExpression

/-! ### What is seen of a vector -/

namespace AnyValue

def outline : AnyValue → AnyValue
  | plain value => plain value
  | vector elements => vector (elements.map fun _ => [])

section Outline
variable (left right value : AnyValue)

theorem outline_compare (comparison : ComparisonType) :
    left.outline.compare comparison right.outline = left.compare comparison right := by
  cases left with
  | plain left =>
      cases right with
      | plain right => rfl
      | vector elements => cases elements <;> rfl
  | vector elements => rfl

theorem outline_bool : value.outline.getBoolAsCmpBool = value.getBoolAsCmpBool := by
  cases value with
  | plain value => rfl
  | vector elements => cases elements <;> rfl

theorem outline_computation (computeType : ArithmeticType) :
    left.outline.performComputation computeType right.outline =
      left.performComputation computeType right := by
  cases left with
  | plain left =>
      cases right with
      | plain right => rfl
      | vector elements => cases elements <;> rfl
  | vector elements =>
      cases right with
      | plain right => cases elements <;> rfl
      | vector others => cases elements <;> cases others <;> rfl

theorem outline_string : value.outline.computeString = value.computeString := by
  cases value <;> rfl

theorem outline_double : value.outline.getAsDouble = value.getAsDouble := by
  cases value <;> rfl

end Outline

/-- The operands come back with the same outline, or neither does. -/
def Alike (first second : Option AnyValue) : Prop := first.map outline = second.map outline

theorem operand_alike {α : Type} {first second : Option AnyValue} (alike : Alike first second)
    {next : AnyValue → Option α} (blind : ∀ value, next value.outline = next value) :
    first.bind next = second.bind next := by
  have seen : ∀ operand : Option AnyValue, operand.bind next = (operand.map outline).bind next := by
    intro operand
    cases operand with
    | none => rfl
    | some value => exact (blind value).symm
  rw [seen first, seen second, alike]

theorem operands_alike {α : Type} {left left' right right' : Option AnyValue}
    (front : Alike left left') (behind : Alike right right') {next : AnyValue → AnyValue → Option α}
    (blind : ∀ lhs rhs, next lhs.outline rhs.outline = next lhs rhs) :
    (left.bind fun lhs => right.bind fun rhs => next lhs rhs) =
      left'.bind fun lhs => right'.bind fun rhs => next lhs rhs := by
  have twice : ∀ value : AnyValue, value.outline.outline = value.outline := by
    intro value
    cases value with
    | plain value => rfl
    | vector elements => cases elements <;> rfl
  have onRight : ∀ lhs, (right.bind fun rhs => next lhs rhs) = right'.bind fun rhs =>
      next lhs rhs := by
    intro lhs
    apply operand_alike behind
    intro rhs
    rw [← blind lhs rhs.outline, twice, blind lhs rhs]
  simp only [onRight]
  apply operand_alike front
  intro lhs
  apply congrArg
  funext rhs
  rw [← blind lhs.outline rhs, twice, blind lhs rhs]

end AnyValue

/-! ### Both evaluations -/

namespace AbstractExpression

open AnyValue

section Evaluations
variable {leftTuple rightTuple : Row} {expr : AbstractExpression}
  {children : List AbstractExpression} {row : Row} {val : AnyValue}

/-- What a loop over the elements puts behind what is there already. -/
theorem emplace_behind (tuple : Row) (children : List AbstractExpression)
    (front values : List Rat) :
    emplaceAll tuple children (front ++ values) =
      (emplaceAll tuple children values).map (front ++ ·) := by
  induction children generalizing values with
  | nil => rfl
  | cons child rest ih =>
      simp only [emplaceAll, Option.bind_eq_bind, List.append_assoc, ih, Option.map_bind,
        Function.comp_def]

theorem emplace_length {tuple : Row} {values elements : List Rat}
    (emplaced : emplaceAll tuple children values = some elements) :
    elements.length = values.length + children.length := by
  induction children generalizing values with
  | nil =>
      obtain rfl := Option.some.inj emplaced
      rfl
  | cons child rest ih =>
      simp only [emplaceAll, Option.bind_eq_bind, Option.bind_eq_some_iff] at emplaced
      obtain ⟨val, -, element, -, emplaced⟩ := emplaced
      rw [ih emplaced, List.length_append, List.length_singleton, List.length_cons]
      omega

theorem emplace_some_iff (tuple : Row) (children : List AbstractExpression) (values : List Rat) :
    (emplaceAll tuple children values).isSome ↔
      ∀ child ∈ children, ((child.evaluate tuple).bind getAsDouble).isSome := by
  induction children generalizing values with
  | nil => simp [emplaceAll]
  | cons child rest ih =>
      rw [List.forall_mem_cons, emplaceAll]
      cases evaluated : child.evaluate tuple with
      | none => simp
      | some val =>
          cases element : val.getAsDouble with
          | none => simp [element]
          | some element => simp [element, ih]

/-- A column has the type that its reference takes it to have. -/
def Fits (row : Row) : AbstractExpression → Prop
  | columnValue _ colIdx retType => ∀ value, row[colIdx]? = some value → value.getTypeId = retType
  | _ => True

theorem evaluate_typed (fits : expr.Fits row) (evaluated : expr.evaluate row = some val) :
    val.getTypeId = expr.getReturnType := by
  cases expr with
  | columnValue tupleIdx colIdx retType => exact fits val evaluated
  | constantValue constant =>
      obtain rfl := Option.some.inj evaluated
      rfl
  | comparison left right compType =>
      simp only [evaluate, Option.bind_eq_bind, Option.bind_eq_some_iff] at evaluated
      obtain ⟨lhs, -, rhs, -, answer, -, made⟩ := evaluated
      obtain rfl := Option.some.inj made
      rfl
  | logic left right logicType =>
      simp only [evaluate, Option.bind_eq_bind, Option.bind_eq_some_iff] at evaluated
      obtain ⟨lhs, -, rhs, -, first, -, second, -, made⟩ := evaluated
      obtain rfl := Option.some.inj made
      rfl
  | arithmetic left right computeType =>
      simp only [evaluate, Option.bind_eq_bind, Option.bind_eq_some_iff] at evaluated
      obtain ⟨lhs, -, rhs, -, answer, -, made⟩ := evaluated
      obtain rfl := Option.some.inj made
      cases answer <;> rfl
  | string arg _ =>
      simp only [evaluate, Option.bind_eq_bind, Option.bind_eq_some_iff] at evaluated
      obtain ⟨text, -, answer, -, made⟩ := evaluated
      obtain rfl := Option.some.inj made
      rfl
  | array children =>
      simp only [evaluate, Option.bind_eq_bind, Option.bind_eq_some_iff] at evaluated
      obtain ⟨elements, -, made⟩ := evaluated
      obtain rfl := Option.some.inj made
      rfl

theorem double_type {number : Rat} (read : val.getAsDouble = some number) :
    val.getTypeId = .plain .decimal := by
  cases val with
  | plain value =>
      obtain ⟨typeId, datum⟩ := value
      cases typeId <;> first | rfl | cases read
  | vector elements => cases read

theorem decimal_iff (row : Row) (expr : AbstractExpression) :
    ((expr.evaluate row).bind getAsDouble).isSome ↔ expr.isDecimal row = true := by
  have neither (fits : expr.Fits row) (other : expr.getReturnType ≠ .plain .decimal) :
      ¬((expr.evaluate row).bind getAsDouble).isSome := by
    intro reads
    obtain ⟨number, read⟩ := Option.isSome_iff_exists.mp reads
    obtain ⟨val, evaluated, read⟩ := Option.bind_eq_some_iff.mp read
    exact other ((evaluate_typed fits evaluated).symm.trans (double_type read))
  cases expr with
  | columnValue tupleIdx colIdx retType => rfl
  | constantValue val => rfl
  | comparison | logic | arithmetic | string | array =>
      exact iff_of_false (neither trivial (by simp [getReturnType])) (by simp [isDecimal])

/-! ### The rewritten expression on two rows -/

theorem emplace_rebased (values : List Rat) (elements : ∀ child ∈ children,
      ((child.rebased leftTuple.length).evaluateJoin leftTuple rightTuple).bind getAsDouble =
        (child.evaluate (leftTuple ++ rightTuple)).bind getAsDouble) :
    emplaceAllJoin leftTuple rightTuple (rebasedAll leftTuple.length children) values =
      emplaceAll (leftTuple ++ rightTuple) children values := by
  induction children generalizing values with
  | nil => rfl
  | cons child rest ih =>
      obtain ⟨front, behind⟩ := List.forall_mem_cons.mp elements
      simp only [rebasedAll, emplaceAllJoin, emplaceAll, Option.bind_eq_bind, ih _ behind]
      rw [← Option.bind_assoc, front, Option.bind_assoc]

theorem rebased_length (leftColumnCnt : Nat) (children : List AbstractExpression) :
    (rebasedAll leftColumnCnt children).length = children.length := by
  induction children with
  | nil => rfl
  | cons child rest ih => rw [rebasedAll, List.length_cons, List.length_cons, ih]

def AgreesOn (leftTuple rightTuple : Row) (expr : AbstractExpression) : Prop :=
  Alike ((expr.rebased leftTuple.length).evaluateJoin leftTuple rightTuple)
    (expr.evaluate (leftTuple ++ rightTuple))

theorem column_rebased (tupleIdx colIdx : Nat) (retType : AnyType) :
    ((columnValue tupleIdx colIdx retType).rebased leftTuple.length).evaluateJoin
      leftTuple rightTuple =
      (leftTuple ++ rightTuple)[colIdx]? := by
  rw [rebased]
  by_cases onLeft : colIdx < leftTuple.length
  · rw [if_pos onLeft, evaluateJoin, if_pos rfl, List.getElem?_append_left onLeft]
  · rw [if_neg onLeft, evaluateJoin, if_neg (by decide),
      List.getElem?_append_right (Nat.le_of_not_lt onLeft)]

/-- A class that is not the array answers the same when its operands look the same. -/
theorem value_agrees (notArray : expr.isArray = false)
    (operands : ∀ child ∈ expr.getChildren, child.AgreesOn leftTuple rightTuple) :
    (expr.rebased leftTuple.length).evaluateJoin leftTuple rightTuple =
      expr.evaluate (leftTuple ++ rightTuple) := by
  cases expr with
  | columnValue tupleIdx colIdx retType => exact column_rebased tupleIdx colIdx retType
  | constantValue val => rfl
  | comparison left right compType =>
      obtain ⟨front, behind, -⟩ :=
        List.forall_mem_cons.mp operands |>.imp_right List.forall_mem_cons.mp
      exact operands_alike front behind fun lhs rhs => by rw [outline_compare]
  | logic left right logicType =>
      obtain ⟨front, behind, -⟩ :=
        List.forall_mem_cons.mp operands |>.imp_right List.forall_mem_cons.mp
      exact operands_alike front behind fun lhs rhs => by rw [outline_bool, outline_bool]
  | arithmetic left right computeType =>
      obtain ⟨front, behind, -⟩ :=
        List.forall_mem_cons.mp operands |>.imp_right List.forall_mem_cons.mp
      exact operands_alike front behind fun lhs rhs => by rw [outline_computation]
  | string arg exprType =>
      obtain ⟨inside, -⟩ := List.forall_mem_cons.mp operands
      exact operand_alike inside fun val => by rw [outline_string]
  | array children => cases notArray

/-- An element of an array is read as a number or not at all. -/
theorem elements_agree (agree : ∀ child ∈ children, child.AgreesOn leftTuple rightTuple) :
    ∀ child ∈ children,
      ((child.rebased leftTuple.length).evaluateJoin leftTuple rightTuple).bind getAsDouble =
      (child.evaluate (leftTuple ++ rightTuple)).bind getAsDouble :=
  fun child member => operand_alike (agree child member) outline_double

/-- In a join an array has as many zeros in front as it has elements. -/
theorem array_rebased (agree : ∀ child ∈ children, child.AgreesOn leftTuple rightTuple) :
    ((array children).rebased leftTuple.length).evaluateJoin leftTuple rightTuple =
      (emplaceAll (leftTuple ++ rightTuple) children []).map fun values =>
        getVectorValue (List.replicate children.length 0 ++ values) := by
  have behind :=
    emplace_behind (leftTuple ++ rightTuple) children (List.replicate children.length 0) []
  rw [List.append_nil] at behind
  simp only [rebased, evaluateJoin, rebased_length, Option.bind_eq_bind]
  rw [emplace_rebased _ (elements_agree agree), behind, Option.bind_map]
  exact Option.map_eq_bind.symm

theorem array_evaluate (tuple : Row) (children : List AbstractExpression) :
    (array children).evaluate tuple = (emplaceAll tuple children []).map getVectorValue := by
  rw [Option.map_eq_bind]
  rfl

theorem agrees_on (leftTuple rightTuple : Row) (expr : AbstractExpression) :
    expr.AgreesOn leftTuple rightTuple := by
  have same {expr : AbstractExpression} (notArray : expr.isArray = false)
      (operands : ∀ child ∈ expr.getChildren, child.AgreesOn leftTuple rightTuple) :
      expr.AgreesOn leftTuple rightTuple :=
        congrArg (Option.map outline) (value_agrees notArray operands)
  induction expr with
  | columnValue tupleIdx colIdx retType => exact same rfl (by simp [getChildren])
  | constantValue val => exact same rfl (by simp [getChildren])
  | comparison left right _ ihLeft ihRight | logic left right _ ihLeft ihRight
  | arithmetic left right _ ihLeft ihRight =>
      exact same rfl (by simp [getChildren, ihLeft, ihRight])
  | string arg _ ih => exact same rfl (by simp [getChildren, ih])
  | array children ih =>
      rw [AgreesOn, Alike, array_rebased ih, array_evaluate, Option.map_map, Option.map_map]
      rfl

/-- The zeros in front make another vector, unless the length in bytes comes to zero. -/
theorem zeros_in_front_iff (values : List Rat) :
    getVectorValue (List.replicate values.length 0 ++ values) = getVectorValue values ↔
      values.length % 2 ^ 29 = 0 := by
  unfold getVectorValue
  constructor
  · intro same
    have lengths := congrArg List.length (Option.some.inj (AnyValue.vector.inj same))
    simp only [List.length_take, List.length_append, List.length_replicate] at lengths
    omega
  · intro multiple
    have short : 8 * values.length % 2 ^ 32 / 8 = 0 := by omega
    have long : 8 * (List.replicate values.length (0 : Rat) ++ values).length % 2 ^ 32 / 8 = 0 := by
      rw [List.length_append, List.length_replicate]
      omega
    rw [short, long, List.take_zero, List.take_zero]

theorem value_kept_iff (leftTuple rightTuple : Row) (expr : AbstractExpression) :
    (expr.rebased leftTuple.length).evaluateJoin leftTuple rightTuple =
      expr.evaluate (leftTuple ++ rightTuple) ↔
        expr.makesVector (leftTuple ++ rightTuple) = false := by
  cases expr with
  | columnValue | constantValue | comparison | logic | arithmetic | string =>
      exact iff_of_true (value_agrees rfl fun child _ => agrees_on leftTuple rightTuple child) rfl
  | array children =>
      rw [array_rebased fun child _ => agrees_on leftTuple rightTuple child, array_evaluate]
      have comesBack := emplace_some_iff (leftTuple ++ rightTuple) children []
      simp only [decimal_iff, ← List.all_eq_true] at comesBack
      cases emplaced : emplaceAll (leftTuple ++ rightTuple) children [] with
      | none =>
          rw [emplaced] at comesBack
          have notAll : children.all (isDecimal (leftTuple ++ rightTuple)) = false :=
            Bool.eq_false_iff.mpr fun all => absurd (comesBack.mpr all) (by decide)
          exact iff_of_true rfl (by rw [makesVector, notAll, Bool.and_false])
      | some values =>
          rw [emplaced] at comesBack
          have length := emplace_length emplaced
          rw [List.length_nil, Nat.zero_add] at length
          simp [makesVector, comesBack.mp rfl, ← length, zeros_in_front_iff]

theorem column_of_all {column : Nat × Nat} (member : column ∈ columnsOfAll children) :
    ∃ child ∈ children, column ∈ child.columns := by
  induction children with
  | nil => cases member
  | cons child rest ih =>
      rcases List.mem_append.mp member with front | behind
      · exact ⟨child, List.mem_cons_self, front⟩
      · obtain ⟨other, among, member⟩ := ih behind
        exact ⟨other, List.mem_cons_of_mem child among, member⟩

theorem decimal_inside (decimal : expr.isDecimal row = true) :
    ∀ column ∈ expr.columns, column.2 < row.length := by
  intro column member
  cases expr with
  | columnValue tupleIdx colIdx retType =>
      obtain rfl := List.mem_singleton.mp member
      obtain ⟨number, read⟩ := Option.isSome_iff_exists.mp decimal
      obtain ⟨val, found, -⟩ := Option.bind_eq_some_iff.mp read
      exact (List.getElem?_eq_some_iff.mp found).1
  | constantValue val => cases member
  | comparison | logic | arithmetic | string | array => cases decimal

theorem vector_inside (vector : expr.makesVector row = true) :
    ∀ column ∈ expr.columns, column.2 < row.length := by
  intro column member
  cases expr with
  | columnValue | constantValue | comparison | logic | arithmetic | string => cases vector
  | array children =>
      obtain ⟨-, decimals⟩ := (Bool.and_eq_true _ _).mp vector
      obtain ⟨child, among, member⟩ := column_of_all member
      exact decimal_inside (List.all_eq_true.mp decimals child among) column member

/-- What the rewriting is for, with one expression over two rows behind one another. -/
structure JoinRewritten (leftTuple rightTuple : Row) (expr : AbstractExpression) : Prop where
  raises :
    (∃ message, expr.rewriteExpressionForJoin leftTuple.length rightTuple.length =
      .error (.exception message)) ↔
        ∃ column ∈ expr.columns, leftTuple.length + rightTuple.length ≤ column.2
  preserves : (∀ column ∈ expr.columns, column.2 < leftTuple.length + rightTuple.length) →
    ∃ rewritten, expr.rewriteExpressionForJoin leftTuple.length rightTuple.length = .ok rewritten ∧
      rewritten.evaluateJoin leftTuple rightTuple = expr.evaluate (leftTuple ++ rightTuple)

theorem join_rewritten (overOneRow : expr.OverOneRow)
    (scalar : expr.makesVector (leftTuple ++ rightTuple) = false) :
    expr.JoinRewritten leftTuple rightTuple := by
  constructor
  case raises => exact raises_iff overOneRow
  case preserves =>
    intro inside
    exact ⟨_, rewrites_inside overOneRow inside,
      (value_kept_iff leftTuple rightTuple expr).mpr scalar⟩

/-- The predicates that filters and joins have are rewritten as they should be. -/
theorem predicate_rewritten (leftTuple rightTuple : Row) (overOneRow : expr.OverOneRow)
    (predicate : expr.getReturnType = .plain .boolean) :
    expr.JoinRewritten leftTuple rightTuple := by
  apply join_rewritten overOneRow
  cases expr with
  | columnValue | constantValue | comparison | logic | arithmetic | string => rfl
  | array children => cases predicate

/-- The rewriting keeps every value but that of a whole expression that makes a vector. -/
theorem join_rewriting_iff (leftTuple rightTuple : Row) (expr : AbstractExpression)
    (overOneRow : expr.OverOneRow) :
    expr.JoinRewritten leftTuple rightTuple ↔
      expr.makesVector (leftTuple ++ rightTuple) = false := by
  constructor
  · rintro ⟨-, preserves⟩
    by_contra vector
    have inside := vector_inside (Bool.eq_true_of_not_eq_false vector)
    rw [List.length_append] at inside
    obtain ⟨rewritten, made, same⟩ := preserves inside
    rw [rewrites_inside overOneRow inside] at made
    obtain rfl := Except.ok.inj made
    exact vector ((value_kept_iff leftTuple rightTuple expr).mp same)
  · intro scalar
    exact join_rewritten overOneRow scalar

end Evaluations

def decimalValue (number : Rat) : AnyValue := .plain ⟨.decimal, some (.decimal number)⟩

def integerValue (number : Int) : AnyValue := .plain (.integer number)

def sumAboveTwo : AbstractExpression :=
  comparison
    (arithmetic (columnValue 0 0 (.plain .integer)) (columnValue 0 1 (.plain .integer)) .plus)
    (constantValue (integerValue 2)) .greaterThan

theorem sum_above_two_rewritten : sumAboveTwo.JoinRewritten [integerValue 1] [integerValue 2] :=
  (join_rewriting_iff _ _ _ (by decide)).mpr (by decide)

def pairOfColumns : AbstractExpression :=
  array [columnValue 0 0 (.plain .decimal), columnValue 0 1 (.plain .decimal)]

/-- On the rows 1 and 2 the array is `[1, 2]`, and rewritten it is `[0, 0, 1, 2]`. -/
theorem array_rewritten_longer :
    ¬∀ (leftTuple rightTuple : Row) (expr : AbstractExpression), expr.OverOneRow →
      expr.JoinRewritten leftTuple rightTuple := by
  intro claim
  have rewritten := claim [decimalValue 1] [decimalValue 2] pairOfColumns (by decide)
  obtain ⟨after, made, same⟩ := rewritten.preserves (by decide)
  obtain rfl := Except.ok.inj made
  exact absurd same (by decide)

/-! ### Expressions without arrays -/

def numberOf : TupleIdx → Nat
  | .left => 0
  | .right => 1

def ofExpression : Expression → AbstractExpression
  | .columnValue tupleIdx colIdx retType => columnValue (numberOf tupleIdx) colIdx (.plain retType)
  | .constantValue val => constantValue (.plain val)
  | .comparison left right compType => comparison (ofExpression left) (ofExpression right) compType
  | .logic left right logicType => logic (ofExpression left) (ofExpression right) logicType
  | .arithmetic left right computeType =>
      arithmetic (ofExpression left) (ofExpression right) computeType
  | .string arg exprType => string (ofExpression arg) exprType

section Plain
variable {tuple leftTuple rightTuple : Tuple}

theorem operands_plain {α : Type} {left right : Option Value}
    (next : AnyValue → AnyValue → Option α) :
    ((left.map AnyValue.plain).bind fun lhs => (right.map AnyValue.plain).bind fun rhs =>
      next lhs rhs) =
      left.bind fun lhs => right.bind fun rhs => next (.plain lhs) (.plain rhs) := by
  cases left with
  | none => rfl
  | some lhs => cases right <;> rfl

theorem evaluate_plain (expr : Expression) :
    (ofExpression expr).evaluate (tuple.map .plain) = (expr.evaluate tuple).map .plain := by
  unfold Expression.evaluate
  induction expr with
  | columnValue tupleIdx colIdx retType => exact List.getElem?_map
  | constantValue val => rfl
  | comparison left right compType ihLeft ihRight | logic left right compType ihLeft ihRight
  | arithmetic left right compType ihLeft ihRight =>
      simp only [ofExpression, evaluate, Expression.evaluateOn, ihLeft, ihRight,
        Option.bind_eq_bind, operands_plain, Option.map_bind, Function.comp_def]
      rfl
  | string arg exprType ih =>
      simp only [ofExpression, evaluate, Expression.evaluateOn, ih, Option.bind_eq_bind,
        Option.map_bind, Option.bind_map, Function.comp_def]
      congr 1
      funext val
      rw [computeString]
      cases val.isNull <;> rfl

theorem evaluate_join_plain (expr : Expression) :
    (ofExpression expr).evaluateJoin (leftTuple.map .plain) (rightTuple.map .plain) =
      (expr.evaluateJoin leftTuple rightTuple).map .plain := by
  unfold Expression.evaluateJoin
  induction expr with
  | columnValue tupleIdx colIdx retType =>
      cases tupleIdx with
      | left => exact List.getElem?_map
      | right => exact List.getElem?_map
  | constantValue val => rfl
  | comparison left right compType ihLeft ihRight | logic left right compType ihLeft ihRight
  | arithmetic left right compType ihLeft ihRight =>
      simp only [ofExpression, evaluateJoin, Expression.evaluateOn, ihLeft, ihRight,
        Option.bind_eq_bind, operands_plain, Option.map_bind, Function.comp_def]
      rfl
  | string arg exprType ih =>
      simp only [ofExpression, evaluateJoin, Expression.evaluateOn, ih, Option.bind_eq_bind,
        Option.map_bind, Option.bind_map, Function.comp_def]
      congr 1
      funext val
      rw [computeString]
      cases val.isNull <;> rfl

theorem option_bind {α β : Type} (first : Except Failure α) (next : α → Except Failure β) :
    (first >>= next).toOption = first.toOption.bind fun found => (next found).toOption := by
  cases first with
  | error failure => rfl
  | ok found => rfl

/-- Where it comes back, the rewriting of an expression without arrays is the one of plans without
arrays. -/
theorem rewrite_plain (leftColumnCnt rightColumnCnt : Nat) (expr : Expression) :
    (rewriteExpressionForJoin leftColumnCnt rightColumnCnt (ofExpression expr)).toOption =
      (BusTub.rewriteExpressionForJoin leftColumnCnt rightColumnCnt expr).map ofExpression := by
  induction expr with
  | columnValue tupleIdx colIdx retType =>
      rw [ofExpression, rewriteExpressionForJoin, BusTub.rewriteExpressionForJoin]
      cases tupleIdx with
      | left =>
          by_cases onLeft : colIdx < leftColumnCnt
          · simp [ofExpression, numberOf, onLeft, Except.toOption]
          · by_cases within : colIdx < leftColumnCnt + rightColumnCnt
            · simp [ofExpression, numberOf, onLeft, within, Nat.le_of_not_lt onLeft,
                Except.toOption]
            · simp [numberOf, onLeft, within, Except.toOption]
      | right => rfl
  | constantValue val => rfl
  | comparison left right compType ihLeft ihRight | logic left right compType ihLeft ihRight
  | arithmetic left right compType ihLeft ihRight =>
      simp only [ofExpression, rewriteExpressionForJoin, BusTub.rewriteExpressionForJoin,
        option_bind, ihLeft, ihRight,
        Option.bind_eq_bind, Option.bind_map, Option.map_bind, Function.comp_def]
      rfl
  | string arg exprType ih =>
      simp only [ofExpression, rewriteExpressionForJoin, BusTub.rewriteExpressionForJoin,
        option_bind, ih, Option.bind_eq_bind, Option.bind_map, Option.map_bind, Function.comp_def]
      rfl

end Plain

end AbstractExpression

end BusTub.JoinExpressions
