import BusTub.ColumnNames
import BusTub.GroupFolds
import BusTub.TupleEncoding

/-!
`Planner::PlanSelectAgg` of `planner/plan_aggregation.cpp` with the expressions it
plans: each aggregate call of HAVING and the select list is replaced by a pseudo
call in one pass, and planned as the next column of the aggregation in another.
A schema is its column names and types.
-/

namespace BusTub.AggregatePlanning

open ByteRegions
open TupleEncoding (storedAs)

/-! ### Values and operators -/

structure Cell where
  typeId : TypeId
  member : TupleEncoding.Value
  typed : member.columnType = storedAs typeId

inductive Evaluated where
  | scalar (value : Value)
  | vector (entries : List Value)
  deriving DecidableEq

def ofDouble (bits : Nat) : Option Rat :=
  let exponent : Nat := bits / 2 ^ 52 % 2 ^ 11
  let fraction : Nat := bits % 2 ^ 52
  let size : Rat :=
    if exponent = 0 then fraction * powerOfTwo (-1074)
    else (2 ^ 52 + fraction : Nat) * powerOfTwo (exponent - 1075)
  if exponent = 2 ^ 11 - 1 then none else some (if bits < 2 ^ 63 then size else -size)

def getVector (bytes : Block) : Option (List Value) :=
  (List.range (bytes.length / 8)).mapM fun index =>
    (ofDouble (ofBytes ((bytes.drop (8 * index)).take 8))).map fun number =>
      ⟨.decimal, some (.decimal number)⟩

def datumOf : (type : TupleEncoding.FixedType) → BitVec (8 * type.size) → Option Datum
  | .decimal, bits => (ofDouble bits.toNat).map .decimal
  | .timestamp, bits => some (.number bits.toNat)
  | _, bits => some (.number bits.toInt)

def Cell.evaluated (cell : Cell) : Option Evaluated :=
  match cell.member with
  | .fixed type bits =>
      if cell.member.isNull then some (.scalar ⟨cell.typeId, none⟩)
      else (datumOf type bits).map fun datum => .scalar ⟨cell.typeId, some datum⟩
  | .varchar text =>
      if cell.typeId = .vector then do return .vector (← getVector (← text).bytes)
      -- the closing zero is no part of the text
      else some (.scalar ⟨cell.typeId, text.map fun text => .text text.bytes.dropLast⟩)

inductive BinaryOperator where
  | comparison (compType : ComparisonType)
  | logic (logicType : LogicType)
  | arithmetic (computeType : ArithmeticType)
  deriving DecidableEq

def BinaryOperator.performScalar (lhs rhs : Value) : BinaryOperator → Option Value
  | .comparison compType => (lhs.compare compType rhs).map Value.boolean
  | .logic logicType => do return Value.boolean (logicType.perform (← lhs.getBoolAsCmpBool)
      (← rhs.getBoolAsCmpBool))
  | .arithmetic computeType =>
      (computeType.perform lhs rhs).map fun res => res.elim ⟨.integer, none⟩ Value.integer

def BinaryOperator.perform (operator : BinaryOperator) : Evaluated → Evaluated → Option Evaluated
  | .scalar lhs, .scalar rhs => (operator.performScalar lhs rhs).map .scalar
  | _, _ => none

def Evaluated.decimalEntry : Evaluated → Option Value
  | .scalar value => if value.typeId = .decimal then some value else none
  | .vector _ => none

def constructArray (args : List Evaluated) : Option Evaluated :=
  (args.mapM Evaluated.decimalEntry).map .vector

/-! ### Tuples -/

abbrev PlanSchema := List (Identifier × TypeId)

def storedColumns (schema : PlanSchema) : TupleEncoding.Schema :=
  schema.map fun column => storedAs column.2

/-- `Tuple::Tuple(values, schema)`: a value is written by its own type, whatever the column's is. -/
def encode (schema : PlanSchema) (values : List Cell) : Option Block :=
  TupleEncoding.encode (storedColumns schema) (values.map Cell.member)

def getValue (schema : PlanSchema) (tuple : Block) (colIdx : Nat) : Option Cell := do
  let column ← schema[colIdx]?
  let member ← TupleEncoding.getValue (storedColumns schema) tuple colIdx
  if typed : member.columnType = storedAs column.2 then some ⟨column.2, member, typed⟩ else none

/-! ### Planned expressions -/

inductive AbstractExpression where
  | columnValue (colIdx : Nat) (retType : TypeId)
  | constantValue (val : Value)
  | binary (operator : BinaryOperator) (left right : AbstractExpression)
  | array (children : List AbstractExpression)

namespace AbstractExpression

def getReturnType : AbstractExpression → TypeId
  | columnValue _ retType => retType
  | constantValue val => val.typeId
  | binary (.comparison _) _ _ | binary (.logic _) _ _ => .boolean
  | binary (.arithmetic _) _ _ => .integer
  | array _ => .vector

mutual

def evaluate (schema : PlanSchema) (tuple : Block) : AbstractExpression → Option Evaluated
  | columnValue colIdx _ => (getValue schema tuple colIdx).bind Cell.evaluated
  | constantValue val => some (.scalar val)
  | binary operator left right => do
      let lhs ← evaluate schema tuple left
      let rhs ← evaluate schema tuple right
      operator.perform lhs rhs
  | array children => do constructArray (← evaluateAll schema tuple children)

def evaluateAll (schema : PlanSchema) (tuple : Block) :
    List AbstractExpression → Option (List Evaluated)
  | [] => some []
  | child :: rest => do
      let val ← evaluate schema tuple child
      let vals ← evaluateAll schema tuple rest
      return val :: vals

end

mutual

def columnsFrom (start : Nat) : AbstractExpression → List Nat
  | columnValue colIdx _ => if start ≤ colIdx then [colIdx] else []
  | constantValue _ => []
  | binary _ left right => columnsFrom start left ++ columnsFrom start right
  | array children => columnsOf start children

def columnsOf (start : Nat) : List AbstractExpression → List Nat
  | [] => []
  | child :: rest => columnsFrom start child ++ columnsOf start rest

end

end AbstractExpression

/-! ### Bound expressions -/

inductive ExpressionType where
  | invalid
  | typeCast
  | function
  | star
  | unaryOp
  | window
  deriving DecidableEq

structure BoundColumnRef where
  colName : List Identifier
  qualified : 2 ≤ colName.length

def BoundColumnRef.toString (ref : BoundColumnRef) : Identifier := dotted ref.colName

inductive BoundExpression where
  | aggCall (funcName : Identifier) (isDistinct : Bool) (args : List BoundExpression)
  | columnRef (ref : BoundColumnRef)
  | binaryOp (opName : Identifier) (larg rarg : BoundExpression)
  | funcCall (funcName : Identifier) (args : List BoundExpression)
  | constant (val : Value)
  | aliased (aliasName : Identifier) (child : BoundExpression)
  | other (type : ExpressionType)

/-! ### The planner -/

inductive PlanningError where
  | columnRef (error : PlanError)
  | unexpectedAggCall
  | windowExpression
  | expressionType (type : ExpressionType)
  | binaryOp (opName : Identifier)
  | onlyInteger
  | expectBoolean
  | funcCall (funcName : Identifier)
  | distinctAgg
  | unsupportedAggCall (funcName : Identifier) (args : Nat)
  | aliasForAggCall
  | aggArguments
  | mismatchedColumns

abbrev Planned := Except PlanningError

def UNNAMED_COLUMN : Identifier := "<unnamed>".toList

def binaryOperator (opName : Identifier) : Option BinaryOperator :=
  if opName = "=".toList ∨ opName = "==".toList then some (.comparison .equal)
  else if opName = "!=".toList ∨ opName = "<>".toList then some (.comparison .notEqual)
  else if opName = "<".toList then some (.comparison .lessThan)
  else if opName = "<=".toList then some (.comparison .lessThanOrEqual)
  else if opName = ">".toList then some (.comparison .greaterThan)
  else if opName = ">=".toList then some (.comparison .greaterThanOrEqual)
  else if opName = "+".toList then some (.arithmetic .plus)
  else if opName = "-".toList then some (.arithmetic .minus)
  else if opName = "and".toList then some (.logic .and)
  else if opName = "or".toList then some (.logic .or)
  else none

def BinaryOperator.construct (operator : BinaryOperator) (left right : AbstractExpression) :
    Planned AbstractExpression :=
  match operator with
  | .comparison _ => .ok (.binary operator left right)
  | .arithmetic _ =>
      if left.getReturnType ≠ .integer ∨ right.getReturnType ≠ .integer then .error .onlyInteger
      else .ok (.binary operator left right)
  | .logic _ =>
      if left.getReturnType ≠ .boolean ∨ right.getReturnType ≠ .boolean then .error .expectBoolean
      else .ok (.binary operator left right)

def getBinaryExpressionFromFactory (opName : Identifier) (left right : AbstractExpression) :
    Planned AbstractExpression :=
  match binaryOperator opName with
  | some operator => operator.construct left right
  | none => .error (.binaryOp opName)

def getAggCallFromFactory (funcName : Identifier) (args : List AbstractExpression) :
    Planned (AggregationType × List AbstractExpression) :=
  match args with
  | [] =>
      if funcName = "count_star".toList then .ok (.countStarAggregate, [])
      else .error (.unsupportedAggCall funcName 0)
  | [expr] =>
      if funcName = "min".toList then .ok (.minAggregate, [expr])
      else if funcName = "max".toList then .ok (.maxAggregate, [expr])
      else if funcName = "sum".toList then .ok (.sumAggregate, [expr])
      else if funcName = "count".toList then .ok (.countAggregate, [expr])
      else .error (.unsupportedAggCall funcName 1)
  | _ => .error (.unsupportedAggCall funcName args.length)

def getFuncCall (funcName : Identifier) (args : List AbstractExpression) :
    Planned AbstractExpression :=
  if funcName = "construct_array".toList then .ok (.array args) else .error (.funcCall funcName)

def planColumnRef (schema : PlanSchema) (ref : BoundColumnRef) : Planned AbstractExpression :=
  match BusTub.planColumnRef (schema.map Prod.fst) ref.colName with
  | .error error => .error (.columnRef error)
  | .ok colIdx =>
      match schema[colIdx]? with
      | some column => .ok (.columnValue colIdx column.2)
      | none => .error (.columnRef .columnDoesNotExist)

mutual

def addAggCallToContext : BoundExpression → List BoundExpression →
    Planned (BoundExpression × List BoundExpression)
  | .aggCall funcName isDistinct args, aggregations =>
      let aggName := "__pseudo_agg#".toList ++ Nat.toDigits 10 aggregations.length
      .ok (.aggCall aggName isDistinct [], aggregations ++ [.aggCall funcName isDistinct args])
  | .columnRef ref, aggregations => .ok (.columnRef ref, aggregations)
  | .binaryOp opName larg rarg, aggregations => do
      let (larg, aggregations) ← addAggCallToContext larg aggregations
      let (rarg, aggregations) ← addAggCallToContext rarg aggregations
      return (.binaryOp opName larg rarg, aggregations)
  | .funcCall funcName args, aggregations => do
      let (args, aggregations) ← addAggCallsToContext args aggregations
      return (.funcCall funcName args, aggregations)
  | .constant val, aggregations => .ok (.constant val, aggregations)
  | .aliased aliasName child, aggregations => do
      let (child, aggregations) ← addAggCallToContext child aggregations
      return (.aliased aliasName child, aggregations)
  | .other type, _ => .error (.expressionType type)

def addAggCallsToContext : List BoundExpression → List BoundExpression →
    Planned (List BoundExpression × List BoundExpression)
  | [], aggregations => .ok ([], aggregations)
  | expr :: rest, aggregations => do
      let (expr, aggregations) ← addAggCallToContext expr aggregations
      let (rest, aggregations) ← addAggCallsToContext rest aggregations
      return (expr :: rest, aggregations)

end

mutual

def planExpression (schema : PlanSchema) (exprInAgg : List AbstractExpression) :
    BoundExpression → Nat → Planned ((Identifier × AbstractExpression) × Nat)
  | .aggCall _ _ _, next =>
      match exprInAgg[next]? with
      | none => .error .unexpectedAggCall
      | some expr => .ok ((UNNAMED_COLUMN, expr), next + 1)
  | .columnRef ref, next => do
      let expr ← planColumnRef schema ref
      return ((ref.toString, expr), next)
  | .binaryOp opName larg rarg, next => do
      let ((_, left), next) ← planExpression schema exprInAgg larg next
      let ((_, right), next) ← planExpression schema exprInAgg rarg next
      let expr ← getBinaryExpressionFromFactory opName left right
      return ((UNNAMED_COLUMN, expr), next)
  | .funcCall funcName args, next => do
      let (args, next) ← planExpressions schema exprInAgg args next
      let expr ← getFuncCall funcName (args.map Prod.snd)
      return ((UNNAMED_COLUMN, expr), next)
  | .constant val, next => .ok ((UNNAMED_COLUMN, .constantValue val), next)
  | .aliased aliasName child, next => do
      let ((_, expr), next) ← planExpression schema exprInAgg child next
      return ((aliasName, expr), next)
  | .other .window, _ => .error .windowExpression
  | .other type, _ => .error (.expressionType type)

def planExpressions (schema : PlanSchema) (exprInAgg : List AbstractExpression) :
    List BoundExpression → Nat → Planned (List (Identifier × AbstractExpression) × Nat)
  | [], next => .ok ([], next)
  | expr :: rest, next => do
      let (named, next) ← planExpression schema exprInAgg expr next
      let (others, next) ← planExpressions schema exprInAgg rest next
      return (named :: others, next)

end

def planAggCall (schema : PlanSchema) (funcName : Identifier) (isDistinct : Bool)
    (args : List BoundExpression) :
    Planned (AggregationType × List AbstractExpression) := do
  if isDistinct then .error .distinctAgg
  let (exprs, _) ← planExpressions schema [] args 0
  getAggCallFromFactory funcName (exprs.map Prod.snd)

def planAggregation (schema : PlanSchema) :
    BoundExpression → Planned (AggregationType × AbstractExpression)
  | .aggCall funcName isDistinct args => do
      let (aggType, exprs) ← planAggCall schema funcName isDistinct args
      match exprs with
      | [] => return (aggType, .constantValue (.integer 1))
      | [expr] => return (aggType, expr)
      | _ => .error .aggArguments
  | _ => .error .aliasForAggCall

def aggColumnName (termIdx : Nat) : Identifier := "agg#".toList ++ Nat.toDigits 10 termIdx

/-- What `PlanSelectAgg` reads of the statement; GROUP BY has no aliases in the grammar. -/
structure SelectStatement where
  groupBy : List BoundExpression
  having : Option BoundExpression
  selectList : List BoundExpression
  plainGroups : ∀ expr ∈ groupBy, ∀ aliasName child, expr ≠ .aliased aliasName child

structure SelectAggPlan where
  groupBys : List AbstractExpression
  aggregates : List AbstractExpression
  aggTypes : List AggregationType
  aggSchema : PlanSchema
  predicate : Option AbstractExpression
  expressions : List AbstractExpression
  columnNames : List Identifier

def renameSchema (types : List TypeId) (colNames : List Identifier) : Planned PlanSchema :=
  if colNames.length ≠ types.length then .error .mismatchedColumns else .ok (colNames.zip types)

def inferAggSchema (groupBys aggregates : List AbstractExpression) : List TypeId :=
  groupBys.map AbstractExpression.getReturnType ++ aggregates.map fun _ => .integer

def rewriteHaving (aggregations : List BoundExpression) :
    Option BoundExpression → Planned (Option BoundExpression × List BoundExpression)
  | none => .ok (none, aggregations)
  | some having => do
      let (having, aggregations) ← addAggCallToContext having aggregations
      return (some having, aggregations)

def planHaving (schema : PlanSchema) (exprInAgg : List AbstractExpression) (next : Nat) :
    Option BoundExpression → Planned (Option AbstractExpression × Nat)
  | none => .ok (none, next)
  | some having => do
      let ((_, expr), next) ← planExpression schema exprInAgg having next
      return (some expr, next)

def planSelectAgg (childSchema : PlanSchema) (statement : SelectStatement) :
    Planned SelectAggPlan := do
  let (groups, next) ← planExpressions childSchema [] statement.groupBy 0
  let (having, aggregations) ← rewriteHaving [] statement.having
  let (selectList, aggregations) ← addAggCallsToContext statement.selectList aggregations
  let aggBeginIdx := groups.length
  let planned ← aggregations.mapM (planAggregation childSchema)
  let exprInAgg := (List.range planned.length).map fun termIdx =>
    AbstractExpression.columnValue (aggBeginIdx + termIdx) .integer
  let groupBys := groups.map Prod.snd
  let aggregates := planned.map Prod.snd
  let aggSchema ← renameSchema (inferAggSchema groupBys aggregates)
    (groups.map Prod.fst ++ (List.range planned.length).map aggColumnName)
  let (predicate, next) ← planHaving aggSchema exprInAgg next having
  let (items, _) ← planExpressions aggSchema exprInAgg selectList next
  return ⟨groupBys, aggregates, planned.map Prod.fst, aggSchema, predicate, items.map Prod.snd,
    items.map Prod.fst⟩

/-! ### What the expressions mean -/

mutual

/-- The aggregate calls of an expression from left to right; what stands inside of a call is its
own. -/
def calls : BoundExpression → List BoundExpression
  | .aggCall funcName isDistinct args => [.aggCall funcName isDistinct args]
  | .binaryOp _ larg rarg => calls larg ++ calls rarg
  | .funcCall _ args => callsOf args
  | .aliased _ child => calls child
  | .columnRef _ | .constant _ | .other _ => []

def callsOf : List BoundExpression → List BoundExpression
  | [] => []
  | expr :: rest => calls expr ++ callsOf rest

end

mutual

def direct (callValue : BoundExpression → Option Evaluated)
    (columnValue : BoundColumnRef → Option Evaluated) :
    BoundExpression → Option Evaluated
  | .aggCall funcName isDistinct args => callValue (.aggCall funcName isDistinct args)
  | .columnRef ref => columnValue ref
  | .binaryOp opName larg rarg => do
      let operator ← binaryOperator opName
      let lhs ← direct callValue columnValue larg
      let rhs ← direct callValue columnValue rarg
      operator.perform lhs rhs
  | .funcCall funcName args =>
      if funcName = "construct_array".toList then do
        constructArray (← directAll callValue columnValue args)
      else none
  | .constant val => some (.scalar val)
  | .aliased _ child => direct callValue columnValue child
  | .other _ => none

def directAll (callValue : BoundExpression → Option Evaluated)
    (columnValue : BoundColumnRef → Option Evaluated) :
    List BoundExpression → Option (List Evaluated)
  | [] => some []
  | expr :: rest => do
      let val ← direct callValue columnValue expr
      let vals ← directAll callValue columnValue rest
      return val :: vals

end

namespace BoundExpression

def refersTo (ref : BoundColumnRef) : BoundExpression → Bool
  | columnRef named => named.toString = ref.toString
  | _ => false

end BoundExpression

namespace SelectStatement

def aggCalls (statement : SelectStatement) : List BoundExpression :=
  statement.having.elim [] calls ++ callsOf statement.selectList

def keyOf (statement : SelectStatement) (key : List Cell) (ref : BoundColumnRef) :
    Option Evaluated := do
  let cell ← key[← statement.groupBy.findIdx? (BoundExpression.refersTo ref)]?
  cell.evaluated

end SelectStatement

def callValue (childSchema : PlanSchema) (groupValue : AggregationType × AbstractExpression → Cell)
    (call : BoundExpression) : Option Evaluated :=
  match planAggregation childSchema call with
  | .ok column => (groupValue column).evaluated
  | .error _ => none

namespace SelectAggPlan

def columns (plan : SelectAggPlan) : List (AggregationType × AbstractExpression) :=
  plan.aggTypes.zip plan.aggregates

/-- The values of a group's row: its key, and what each column comes to. -/
def row (plan : SelectAggPlan) (key : List Cell)
    (groupValue : AggregationType × AbstractExpression → Cell) : List Cell :=
  key ++ plan.columns.map groupValue

end SelectAggPlan

structure RowBound (childSchema : PlanSchema) (statement : SelectStatement) (plan : SelectAggPlan)
    (key : List Cell) (groupValue : AggregationType × AbstractExpression → Cell)
    (tuple : Block) : Prop where
  cells : ∀ colIdx, getValue plan.aggSchema tuple colIdx = (plan.row key groupValue)[colIdx]?
  having : plan.predicate.map (AbstractExpression.evaluate plan.aggSchema tuple) =
    statement.having.map (direct (callValue childSchema groupValue) (statement.keyOf key))
  selectList : plan.expressions.map (AbstractExpression.evaluate plan.aggSchema tuple) =
    statement.selectList.map (direct (callValue childSchema groupValue) (statement.keyOf key))

/-- Each call of the statement has its own column, and in a group's row each column has the
value of its call. -/
structure CallsBound (childSchema : PlanSchema) (statement : SelectStatement) (plan : SelectAggPlan)
    (key : List Cell) (groupValue : AggregationType × AbstractExpression → Cell) : Prop where
  columns : statement.aggCalls.mapM (planAggregation childSchema) = .ok plan.columns
  once : plan.predicate.toList.flatMap (AbstractExpression.columnsFrom statement.groupBy.length) ++
    AbstractExpression.columnsOf statement.groupBy.length plan.expressions =
      List.range' statement.groupBy.length statement.aggCalls.length
  row : ∃ tuple, encode plan.aggSchema (plan.row key groupValue) = some tuple ∧
    RowBound childSchema statement plan key groupValue tuple

/-! ### The first pass -/

theorem planned_bind {Result Final : Type} {first : Planned Result} {rest : Result → Planned Final}
    {final : Final} (done : first >>= rest = .ok final) :
    ∃ result, first = .ok result ∧ rest result = .ok final := by
  cases first with
  | error _ => cases done
  | ok result => exact ⟨result, rfl, done⟩

mutual

/-- The pass appends the calls of the expression, in their order. -/
theorem calls_taken_out :
    ∀ (expr : BoundExpression) {rewritten : BoundExpression} {before after : List BoundExpression},
    addAggCallToContext expr before = .ok (rewritten, after) → after = before ++ calls expr
  | .aggCall funcName isDistinct args, _, _, _, taken => by
      obtain ⟨_, rfl⟩ := Prod.mk.inj (Except.ok.inj taken)
      rfl
  | .columnRef _, _, _, _, taken | .constant _, _, _, _, taken => by
      obtain ⟨_, rfl⟩ := Prod.mk.inj (Except.ok.inj taken)
      exact (List.append_nil _).symm
  | .binaryOp opName larg rarg, _, _, _, taken => by
      rw [addAggCallToContext] at taken
      obtain ⟨⟨left, middle⟩, takenLeft, taken⟩ := planned_bind taken
      obtain ⟨⟨right, last⟩, takenRight, taken⟩ := planned_bind taken
      obtain ⟨_, rfl⟩ := Prod.mk.inj (Except.ok.inj taken)
      rw [calls_taken_out rarg takenRight, calls_taken_out larg takenLeft, calls, List.append_assoc]
  | .funcCall funcName args, _, _, _, taken => by
      rw [addAggCallToContext] at taken
      obtain ⟨⟨rest, last⟩, takenArgs, taken⟩ := planned_bind taken
      obtain ⟨_, rfl⟩ := Prod.mk.inj (Except.ok.inj taken)
      rw [all_calls_taken_out args takenArgs, calls]
  | .aliased aliasName child, _, _, _, taken => by
      rw [addAggCallToContext] at taken
      obtain ⟨⟨inner, last⟩, takenChild, taken⟩ := planned_bind taken
      obtain ⟨_, rfl⟩ := Prod.mk.inj (Except.ok.inj taken)
      rw [calls_taken_out child takenChild, calls]
  | .other _, _, _, _, taken => by cases taken

theorem all_calls_taken_out : ∀ (exprs : List BoundExpression) {rewritten : List BoundExpression}
    {before after : List BoundExpression},
    addAggCallsToContext exprs before = .ok (rewritten, after) → after = before ++ callsOf exprs
  | [], _, _, _, taken => by
      obtain ⟨_, rfl⟩ := Prod.mk.inj (Except.ok.inj taken)
      exact (List.append_nil _).symm
  | expr :: rest, _, _, _, taken => by
      rw [addAggCallsToContext] at taken
      obtain ⟨⟨first, middle⟩, takenFirst, taken⟩ := planned_bind taken
      obtain ⟨⟨others, last⟩, takenRest, taken⟩ := planned_bind taken
      obtain ⟨_, rfl⟩ := Prod.mk.inj (Except.ok.inj taken)
      rw [all_calls_taken_out rest takenRest, calls_taken_out expr takenFirst, callsOf,
        List.append_assoc]

end

section Replanning

variable {schema : PlanSchema} {begin : Nat} {exprInAgg : List AbstractExpression}
  {all : List BoundExpression} {tuple : Block} {callValue : BoundExpression → Option Evaluated}
  {columnValue : BoundColumnRef → Option Evaluated} {left right expr : AbstractExpression}

structure AggregationRow (schema : PlanSchema) (begin : Nat) (exprInAgg : List AbstractExpression)
    (all : List BoundExpression) (tuple : Block) (callValue : BoundExpression → Option Evaluated)
    (columnValue : BoundColumnRef → Option Evaluated) : Prop where
  exprs : exprInAgg = (List.range all.length).map fun termIdx =>
    .columnValue (begin + termIdx) .integer
  calls : ∀ termIdx, (getValue schema tuple (begin + termIdx)).bind Cell.evaluated =
    all[termIdx]?.bind callValue
  columns : ∀ ref expr, planColumnRef schema ref = .ok expr →
    ∃ colIdx retType, expr = .columnValue colIdx retType ∧ colIdx < begin ∧
      (getValue schema tuple colIdx).bind Cell.evaluated = columnValue ref

theorem AggregationRow.taken
    (bound : AggregationRow schema begin exprInAgg all tuple callValue columnValue) {next : Nat}
    {expr : AbstractExpression} (taken : exprInAgg[next]? = some expr) :
    expr = .columnValue (begin + next) .integer := by
  rw [bound.exprs, List.getElem?_map, Option.map_eq_some_iff] at taken
  obtain ⟨termIdx, found, rfl⟩ := taken
  obtain ⟨_, rfl⟩ := List.getElem?_eq_some_iff.mp found
  simp

theorem construct_evaluates {operator : BinaryOperator}
    (constructed : operator.construct left right = .ok expr) :
    expr = .binary operator left right := by
  unfold BinaryOperator.construct at constructed
  split at constructed
  · exact (Except.ok.inj constructed).symm
  all_goals
    split at constructed
    · cases constructed
    · exact (Except.ok.inj constructed).symm

theorem binary_planned {opName : Identifier}
    (planned : getBinaryExpressionFromFactory opName left right = .ok expr) :
    ∃ operator, binaryOperator opName = some operator ∧ expr = .binary operator left right := by
  unfold getBinaryExpressionFromFactory at planned
  split at planned
  next operator known => exact ⟨operator, known, construct_evaluates planned⟩
  next => cases planned

theorem func_planned {funcName : Identifier} {args : List AbstractExpression}
    {expr : AbstractExpression} (planned : getFuncCall funcName args = .ok expr) :
    funcName = "construct_array".toList ∧ expr = .array args := by
  unfold getFuncCall at planned
  split at planned
  next known => exact ⟨known, (Except.ok.inj planned).symm⟩
  next => cases planned

structure Replanned (schema : PlanSchema) (begin : Nat) (tuple : Block)
    (callValue : BoundExpression → Option Evaluated)
    (columnValue : BoundColumnRef → Option Evaluated) (source : BoundExpression) (before next : Nat)
    (expr : AbstractExpression) : Prop where
  next : next = before + (calls source).length
  columns : expr.columnsFrom begin = List.range' (begin + before) (calls source).length
  value : expr.evaluate schema tuple = direct callValue columnValue source

structure AllReplanned (schema : PlanSchema) (begin : Nat) (tuple : Block)
    (callValue : BoundExpression → Option Evaluated)
    (columnValue : BoundColumnRef → Option Evaluated) (sources : List BoundExpression)
    (before next : Nat) (exprs : List AbstractExpression) : Prop where
  next : next = before + (callsOf sources).length
  columns : AbstractExpression.columnsOf begin exprs =
    List.range' (begin + before) (callsOf sources).length
  values : exprs.map (AbstractExpression.evaluate schema tuple) =
    sources.map (direct callValue columnValue)

theorem evaluate_all (exprs : List AbstractExpression) :
    AbstractExpression.evaluateAll schema tuple exprs =
      (exprs.map (AbstractExpression.evaluate schema tuple)).mapM id := by
  induction exprs with
  | nil => rfl
  | cons expr rest ih =>
      rw [AbstractExpression.evaluateAll, ih, List.map_cons, List.mapM_cons]
      rfl

theorem direct_all (exprs : List BoundExpression) :
    directAll callValue columnValue exprs = (exprs.map (direct callValue columnValue)).mapM id := by
  induction exprs with
  | nil => rfl
  | cons expr rest ih =>
      rw [directAll, ih, List.map_cons, List.mapM_cons]
      rfl

theorem range_split (start first second : Nat) :
    List.range' start first ++ List.range' (start + first) second =
      List.range' start (first + second) := by
  simp

mutual

/-- The second pass visits the calls in the order of the first: each call finds its own column. -/
theorem expression_replanned
    (bound : AggregationRow schema begin exprInAgg all tuple callValue columnValue) :
    ∀ (source : BoundExpression) {rewritten : BoundExpression} {before after : List BoundExpression}
      {name : Identifier} {expr : AbstractExpression} {next : Nat},
      addAggCallToContext source before = .ok (rewritten, after) → after <+: all →
      planExpression schema exprInAgg rewritten before.length = .ok ((name, expr), next) →
      Replanned schema begin tuple callValue columnValue source before.length next expr
  | .aggCall funcName isDistinct args, _, before, _, _, _, _, taken, known, planned => by
      obtain ⟨rfl, rfl⟩ := Prod.mk.inj (Except.ok.inj taken)
      simp only [planExpression] at planned
      split at planned
      next => cases planned
      next expr found =>
        obtain ⟨same, rfl⟩ := Prod.mk.inj (Except.ok.inj planned)
        obtain ⟨_, rfl⟩ := Prod.mk.inj same
        obtain rfl := bound.taken found
        obtain ⟨rest, rfl⟩ := known
        refine ⟨rfl, ?_, ?_⟩
        · simp [AbstractExpression.columnsFrom, calls]
        · rw [AbstractExpression.evaluate, bound.calls, direct]
          simp
  | .columnRef ref, _, before, _, _, _, _, taken, known, planned => by
      obtain ⟨rfl, rfl⟩ := Prod.mk.inj (Except.ok.inj taken)
      rw [planExpression] at planned
      obtain ⟨expr, found, planned⟩ := planned_bind planned
      obtain ⟨same, rfl⟩ := Prod.mk.inj (Except.ok.inj planned)
      obtain ⟨_, rfl⟩ := Prod.mk.inj same
      obtain ⟨colIdx, retType, rfl, inKey, value⟩ := bound.columns ref expr found
      refine ⟨rfl, ?_, ?_⟩
      · have before : ¬begin ≤ colIdx := by omega
        simp [AbstractExpression.columnsFrom, calls, before]
      · rw [AbstractExpression.evaluate, value, direct]
  | .constant val, _, before, _, _, _, _, taken, known, planned => by
      obtain ⟨rfl, rfl⟩ := Prod.mk.inj (Except.ok.inj taken)
      rw [planExpression] at planned
      obtain ⟨same, rfl⟩ := Prod.mk.inj (Except.ok.inj planned)
      obtain ⟨_, rfl⟩ := Prod.mk.inj same
      exact ⟨rfl, rfl, by rw [AbstractExpression.evaluate, direct]⟩
  | .binaryOp opName larg rarg, _, before, _, _, _, _, taken, known, planned => by
      rw [addAggCallToContext] at taken
      obtain ⟨⟨left, middle⟩, takenLeft, taken⟩ := planned_bind taken
      obtain ⟨⟨right, last⟩, takenRight, taken⟩ := planned_bind taken
      obtain ⟨rfl, rfl⟩ := Prod.mk.inj (Except.ok.inj taken)
      simp only [planExpression] at planned
      obtain ⟨⟨⟨_, leftExpr⟩, leftNext⟩, plannedLeft, planned⟩ := planned_bind planned
      obtain ⟨⟨⟨_, rightExpr⟩, rightNext⟩, plannedRight, planned⟩ := planned_bind planned
      obtain ⟨expr, built, planned⟩ := planned_bind planned
      obtain ⟨same, rfl⟩ := Prod.mk.inj (Except.ok.inj planned)
      obtain ⟨_, rfl⟩ := Prod.mk.inj same
      obtain ⟨operator, named, rfl⟩ := binary_planned built
      have afterLeft := calls_taken_out larg takenLeft
      have afterRight := calls_taken_out rarg takenRight
      -- the right operand's calls begin where the left one's end
      have leftKnown : middle <+: all := (afterRight ▸ List.prefix_append _ _).trans known
      have first := expression_replanned bound larg takenLeft leftKnown plannedLeft
      have counted : leftNext = middle.length := by rw [first.next, afterLeft, List.length_append]
      rw [counted] at plannedRight
      have second := expression_replanned bound rarg takenRight known plannedRight
      refine ⟨?_, ?_, ?_⟩
      · rw [second.next, calls, afterLeft]
        simp only [List.length_append]
        omega
      · rw [AbstractExpression.columnsFrom, first.columns, second.columns, calls, afterLeft,
            List.length_append, List.length_append, ← Nat.add_assoc, range_split]
      · rw [AbstractExpression.evaluate, first.value, second.value, direct, named]
        rfl
  | .funcCall funcName args, _, before, _, _, _, _, taken, known, planned => by
      rw [addAggCallToContext] at taken
      obtain ⟨⟨rest, last⟩, takenArgs, taken⟩ := planned_bind taken
      obtain ⟨rfl, rfl⟩ := Prod.mk.inj (Except.ok.inj taken)
      simp only [planExpression] at planned
      obtain ⟨⟨exprs, argsNext⟩, plannedArgs, planned⟩ := planned_bind planned
      obtain ⟨expr, built, planned⟩ := planned_bind planned
      obtain ⟨same, rfl⟩ := Prod.mk.inj (Except.ok.inj planned)
      obtain ⟨_, rfl⟩ := Prod.mk.inj same
      obtain ⟨array, rfl⟩ := func_planned built
      have inner := expressions_replanned bound args takenArgs known plannedArgs
      refine ⟨?_, ?_, ?_⟩
      · rw [inner.next, calls]
      · rw [AbstractExpression.columnsFrom, inner.columns, calls]
      · rw [AbstractExpression.evaluate, evaluate_all, inner.values, direct,
          if_pos array, direct_all]
  | .aliased aliasName child, _, before, _, _, _, _, taken, known, planned => by
      rw [addAggCallToContext] at taken
      obtain ⟨⟨inner, last⟩, takenChild, taken⟩ := planned_bind taken
      obtain ⟨rfl, rfl⟩ := Prod.mk.inj (Except.ok.inj taken)
      simp only [planExpression] at planned
      obtain ⟨⟨⟨_, childExpr⟩, childNext⟩, plannedChild, planned⟩ := planned_bind planned
      obtain ⟨same, rfl⟩ := Prod.mk.inj (Except.ok.inj planned)
      obtain ⟨_, rfl⟩ := Prod.mk.inj same
      have below := expression_replanned bound child takenChild known plannedChild
      refine ⟨?_, ?_, ?_⟩
      · rw [below.next, calls]
      · rw [below.columns, calls]
      · rw [below.value, direct]
  | .other _, _, _, _, _, _, _, taken, _, _ => by cases taken

theorem expressions_replanned
    (bound : AggregationRow schema begin exprInAgg all tuple callValue columnValue) :
    ∀ (sources : List BoundExpression) {rewritten : List BoundExpression}
      {before after : List BoundExpression}
      {named : List (Identifier × AbstractExpression)} {next : Nat},
      addAggCallsToContext sources before = .ok (rewritten, after) → after <+: all →
      planExpressions schema exprInAgg rewritten before.length = .ok (named, next) →
      AllReplanned schema begin tuple callValue columnValue sources before.length
        next (named.map Prod.snd)
  | [], _, before, _, _, _, taken, known, planned => by
      obtain ⟨rfl, rfl⟩ := Prod.mk.inj (Except.ok.inj taken)
      rw [planExpressions] at planned
      obtain ⟨rfl, rfl⟩ := Prod.mk.inj (Except.ok.inj planned)
      exact ⟨rfl, rfl, rfl⟩
  | source :: others, _, before, _, _, _, taken, known, planned => by
      rw [addAggCallsToContext] at taken
      obtain ⟨⟨first, middle⟩, takenFirst, taken⟩ := planned_bind taken
      obtain ⟨⟨rest, last⟩, takenRest, taken⟩ := planned_bind taken
      obtain ⟨rfl, rfl⟩ := Prod.mk.inj (Except.ok.inj taken)
      simp only [planExpressions] at planned
      obtain ⟨⟨⟨_, firstExpr⟩, firstNext⟩, plannedFirst, planned⟩ := planned_bind planned
      obtain ⟨⟨restExprs, restNext⟩, plannedRest, planned⟩ := planned_bind planned
      obtain ⟨rfl, rfl⟩ := Prod.mk.inj (Except.ok.inj planned)
      have afterFirst := calls_taken_out source takenFirst
      have afterRest := all_calls_taken_out others takenRest
      -- the calls of the others begin where those of the first end
      have firstKnown : middle <+: all := (afterRest ▸ List.prefix_append _ _).trans known
      have head := expression_replanned bound source takenFirst firstKnown plannedFirst
      have counted : firstNext = middle.length := by rw [head.next, afterFirst, List.length_append]
      rw [counted] at plannedRest
      have tail := expressions_replanned bound others takenRest known plannedRest
      refine ⟨?_, ?_, ?_⟩
      · rw [tail.next, callsOf, afterFirst]
        simp only [List.length_append]
        omega
      · rw [List.map_cons, AbstractExpression.columnsOf, head.columns, tail.columns,
            callsOf, afterFirst, List.length_append,
              List.length_append, ← Nat.add_assoc, range_split]
      · rw [List.map_cons, List.map_cons, List.map_cons, head.value, tail.values]

end

end Replanning

/-! ### The group-by columns -/

def columnName : BoundExpression → Identifier
  | .columnRef ref => ref.toString
  | .aliased aliasName _ => aliasName
  | _ => UNNAMED_COLUMN

theorem planned_name {schema : PlanSchema} {exprInAgg : List AbstractExpression}
    {source : BoundExpression} {name : Identifier} {expr : AbstractExpression} {before next : Nat}
    (planned : planExpression schema exprInAgg source before = .ok ((name, expr), next)) :
    name = columnName source := by
  cases source with
  | aggCall funcName isDistinct args =>
      simp only [planExpression] at planned
      split at planned
      · cases planned
      · exact (Prod.mk.inj (Prod.mk.inj (Except.ok.inj planned)).1).1.symm
  | columnRef ref =>
      rw [planExpression] at planned
      obtain ⟨_, _, planned⟩ := planned_bind planned
      exact (Prod.mk.inj (Prod.mk.inj (Except.ok.inj planned)).1).1.symm
  | binaryOp opName larg rarg =>
      simp only [planExpression] at planned
      obtain ⟨_, _, planned⟩ := planned_bind planned
      obtain ⟨_, _, planned⟩ := planned_bind planned
      obtain ⟨_, _, planned⟩ := planned_bind planned
      exact (Prod.mk.inj (Prod.mk.inj (Except.ok.inj planned)).1).1.symm
  | funcCall funcName args =>
      simp only [planExpression] at planned
      obtain ⟨_, _, planned⟩ := planned_bind planned
      obtain ⟨_, _, planned⟩ := planned_bind planned
      exact (Prod.mk.inj (Prod.mk.inj (Except.ok.inj planned)).1).1.symm
  | constant val =>
      rw [planExpression] at planned
      exact (Prod.mk.inj (Prod.mk.inj (Except.ok.inj planned)).1).1.symm
  | aliased aliasName child =>
      simp only [planExpression] at planned
      obtain ⟨_, _, planned⟩ := planned_bind planned
      exact (Prod.mk.inj (Prod.mk.inj (Except.ok.inj planned)).1).1.symm
  | other type => cases type <;> simp [planExpression] at planned

theorem planned_names {schema : PlanSchema} {exprInAgg : List AbstractExpression}
    {sources : List BoundExpression} {named : List (Identifier × AbstractExpression)}
    {before next : Nat}
    (planned : planExpressions schema exprInAgg sources before = .ok (named, next)) :
    named.map Prod.fst = sources.map columnName := by
  induction sources generalizing named before next with
  | nil =>
      rw [planExpressions] at planned
      obtain ⟨rfl, _⟩ := Prod.mk.inj (Except.ok.inj planned)
      rfl
  | cons source rest ih =>
      simp only [planExpressions] at planned
      obtain ⟨⟨⟨name, expr⟩, middle⟩, first, planned⟩ := planned_bind planned
      obtain ⟨⟨others, last⟩, later, planned⟩ := planned_bind planned
      obtain ⟨rfl, _⟩ := Prod.mk.inj (Except.ok.inj planned)
      rw [List.map_cons, List.map_cons, ih later, planned_name first]

theorem dot_qualified (ref : BoundColumnRef) : '.' ∈ ref.toString := by
  obtain ⟨colName, qualified⟩ := ref
  cases colName with
  | nil => simp at qualified
  | cons first rest =>
      cases rest with
      | nil => simp at qualified
      | cons second others =>
          simp [BoundColumnRef.toString, dotted, List.intercalate, List.intersperse]

theorem agg_column_undotted (termIdx : Nat) : '.' ∉ aggColumnName termIdx := by
  intro dot
  rcases List.mem_append.mp dot with here | here
  · simp at here
  · have digit := Nat.isDigit_of_mem_toDigits (by decide) (by decide) here
    simp at digit

theorem unnamed_undotted : '.' ∉ UNNAMED_COLUMN := by decide

/-- The reference finds the key of the group-by item that it names. -/
theorem refers_iff {groupBy : List BoundExpression}
    (plain : ∀ expr ∈ groupBy, ∀ aliasName child, expr ≠ .aliased aliasName child)
    (ref : BoundColumnRef) {expr : BoundExpression} (member : expr ∈ groupBy) :
    expr.refersTo ref = (columnName expr == ref.toString) := by
  have unnamed : UNNAMED_COLUMN ≠ ref.toString := by
    intro same
    have dot := dot_qualified ref
    rw [← same] at dot
    exact unnamed_undotted dot
  cases expr with
  | columnRef named =>
      by_cases same : named.toString = ref.toString <;>
        simp [BoundExpression.refersTo, columnName, same]
  | aliased aliasName child => exact absurd rfl (plain _ member aliasName child)
  | _ => simpa [BoundExpression.refersTo, columnName] using unnamed

theorem refers_index {groupBy : List BoundExpression}
    (plain : ∀ expr ∈ groupBy, ∀ aliasName child, expr ≠ .aliased aliasName child)
    (ref : BoundColumnRef) :
    groupBy.findIdx? (BoundExpression.refersTo ref) =
      groupBy.findIdx? ((· == ref.toString) ∘ columnName) := by
  induction groupBy with
  | nil => rfl
  | cons expr rest ih =>
      rw [List.findIdx?_cons, List.findIdx?_cons, refers_iff plain ref List.mem_cons_self,
        ih fun other member => plain other (List.mem_cons_of_mem _ member)]
      rfl

/-- A column reference over the aggregation reads the key of its group-by item. -/
theorem group_column {statement : SelectStatement} {terms : Nat} {schema : PlanSchema}
    (named : schema.map Prod.fst = statement.groupBy.map columnName ++
      (List.range terms).map aggColumnName)
    {key rest : List Cell} (sized : key.length = statement.groupBy.length)
    (ref : BoundColumnRef) (expr : AbstractExpression)
    (planned : planColumnRef schema ref = .ok expr) :
    ∃ colIdx retType, expr = .columnValue colIdx retType ∧ colIdx < statement.groupBy.length ∧
      (key ++ rest)[colIdx]?.bind Cell.evaluated = statement.keyOf key ref := by
  unfold planColumnRef at planned
  split at planned
  next => cases planned
  next colIdx found =>
    split at planned
    next column _ =>
      obtain rfl := Except.ok.inj planned
      unfold BusTub.planColumnRef at found
      split at found
      next => cases found
      next =>
        split at found
        next index position =>
          obtain rfl := Except.ok.inj found
          have noTerm : ((List.range terms).map aggColumnName).findIdx? (· == ref.toString) =
              none := by
            rw [List.findIdx?_eq_none_iff]
            intro name member
            obtain ⟨termIdx, _, rfl⟩ := List.mem_map.mp member
            refine beq_eq_false_iff_ne.mpr fun same => agg_column_undotted termIdx ?_
            rw [same]
            exact dot_qualified ref
          have group : statement.groupBy.findIdx? (BoundExpression.refersTo ref) = some index := by
            rw [named] at position
            change List.findIdx? (· == ref.toString) _ = _ at position
            rw [List.findIdx?_append, noTerm, List.findIdx?_map, Option.map_none, Option.or_none]
              at position
            rw [refers_index statement.plainGroups, ← position]
          have inKey : index < statement.groupBy.length :=
            (List.findIdx?_eq_some_iff_getElem.mp group).1
          refine ⟨index, column.2, rfl, inKey, ?_⟩
          rw [SelectStatement.keyOf, group, List.getElem?_append_left (by omega)]
          rfl
        next => cases found
    next => cases planned

theorem planned_length {schema : PlanSchema} {exprInAgg : List AbstractExpression}
    {sources : List BoundExpression} {named : List (Identifier × AbstractExpression)}
    {before next : Nat}
    (planned : planExpressions schema exprInAgg sources before = .ok (named, next)) :
    named.length = sources.length := by
  have names := congrArg List.length (planned_names planned)
  simpa using names

mutual

theorem no_call_planned (schema : PlanSchema) :
    ∀ (source : BoundExpression) {named : Identifier × AbstractExpression}
    {before next : Nat}, planExpression schema [] source before = .ok (named, next) → next = before
  | .aggCall _ _ _, _, _, _, planned => by simp [planExpression] at planned
  | .columnRef ref, _, _, _, planned => by
      rw [planExpression] at planned
      obtain ⟨_, _, planned⟩ := planned_bind planned
      exact (Prod.mk.inj (Except.ok.inj planned)).2.symm
  | .constant _, _, _, _, planned => by
      rw [planExpression] at planned
      exact (Prod.mk.inj (Except.ok.inj planned)).2.symm
  | .binaryOp opName larg rarg, _, _, _, planned => by
      simp only [planExpression] at planned
      obtain ⟨⟨_, middle⟩, left, planned⟩ := planned_bind planned
      obtain ⟨⟨_, last⟩, right, planned⟩ := planned_bind planned
      obtain ⟨_, _, planned⟩ := planned_bind planned
      rw [← (Prod.mk.inj (Except.ok.inj planned)).2, no_call_planned schema rarg right,
        no_call_planned schema larg left]
  | .funcCall funcName args, _, _, _, planned => by
      simp only [planExpression] at planned
      obtain ⟨⟨_, middle⟩, inner, planned⟩ := planned_bind planned
      obtain ⟨_, _, planned⟩ := planned_bind planned
      rw [← (Prod.mk.inj (Except.ok.inj planned)).2, no_calls_planned schema args inner]
  | .aliased aliasName child, _, _, _, planned => by
      simp only [planExpression] at planned
      obtain ⟨⟨_, middle⟩, inner, planned⟩ := planned_bind planned
      rw [← (Prod.mk.inj (Except.ok.inj planned)).2, no_call_planned schema child inner]
  | .other type, _, _, _, planned => by cases type <;> simp [planExpression] at planned

theorem no_calls_planned (schema : PlanSchema) : ∀ (sources : List BoundExpression)
    {named : List (Identifier × AbstractExpression)} {before next : Nat},
    planExpressions schema [] sources before = .ok (named, next) → next = before
  | [], _, _, _, planned => by
      rw [planExpressions] at planned
      exact (Prod.mk.inj (Except.ok.inj planned)).2.symm
  | source :: rest, _, _, _, planned => by
      simp only [planExpressions] at planned
      obtain ⟨⟨_, middle⟩, first, planned⟩ := planned_bind planned
      obtain ⟨⟨_, last⟩, later, planned⟩ := planned_bind planned
      rw [← (Prod.mk.inj (Except.ok.inj planned)).2, no_calls_planned schema rest later,
        no_call_planned schema source first]

end

theorem column_values {childSchema : PlanSchema} {all : List BoundExpression}
    {columns : List (AggregationType × AbstractExpression)}
    (planned : all.mapM (planAggregation childSchema) = .ok columns)
    (groupValue : AggregationType × AbstractExpression → Cell) (termIdx : Nat) :
    (columns.map groupValue)[termIdx]?.bind Cell.evaluated =
      all[termIdx]?.bind (callValue childSchema groupValue) := by
  induction all generalizing columns termIdx with
  | nil =>
      obtain rfl := Except.ok.inj planned
      rfl
  | cons call rest ih =>
      rw [List.mapM_cons] at planned
      obtain ⟨column, first, planned⟩ := planned_bind planned
      obtain ⟨others, later, planned⟩ := planned_bind planned
      obtain rfl := Except.ok.inj planned
      cases termIdx with
      | zero => simp [callValue, first]
      | succ termIdx => simpa using ih later termIdx

theorem columns_length {childSchema : PlanSchema} {all : List BoundExpression}
    {columns : List (AggregationType × AbstractExpression)}
    (planned : all.mapM (planAggregation childSchema) = .ok columns) :
    columns.length = all.length := by
  induction all generalizing columns with
  | nil =>
      obtain rfl := Except.ok.inj planned
      rfl
  | cons call rest ih =>
      rw [List.mapM_cons] at planned
      obtain ⟨column, first, planned⟩ := planned_bind planned
      obtain ⟨others, later, planned⟩ := planned_bind planned
      obtain rfl := Except.ok.inj planned
      simp [ih later]

theorem renamed {types : List TypeId} {colNames : List Identifier} {schema : PlanSchema}
    (renames : renameSchema types colNames = .ok schema) :
    schema.map Prod.fst = colNames ∧ schema.map Prod.snd = types := by
  unfold renameSchema at renames
  split at renames
  next => cases renames
  next same =>
    obtain rfl := Except.ok.inj renames
    have sized := Decidable.not_not.mp same
    exact ⟨List.map_fst_zip (Nat.le_of_eq sized), List.map_snd_zip (Nat.le_of_eq sized.symm)⟩

/-! ### The plan -/

structure PlanSteps (childSchema : PlanSchema) (statement : SelectStatement)
    (plan : SelectAggPlan) : Prop where
  taken : ∃ having middle selectList, rewriteHaving [] statement.having = .ok (having, middle) ∧
    addAggCallsToContext statement.selectList middle = .ok (selectList, statement.aggCalls) ∧
    middle = statement.having.elim [] calls ∧
    ∃ exprInAgg next last items,
      exprInAgg = (List.range statement.aggCalls.length).map (fun termIdx =>
        AbstractExpression.columnValue (statement.groupBy.length + termIdx) .integer) ∧
      planHaving plan.aggSchema exprInAgg 0 having = .ok (plan.predicate, next) ∧
      planExpressions plan.aggSchema exprInAgg selectList next = .ok (items, last) ∧
      plan.expressions = items.map Prod.snd
  columns : statement.aggCalls.mapM (planAggregation childSchema) = .ok plan.columns
  named : plan.aggSchema.map Prod.fst =
    statement.groupBy.map columnName ++ (List.range statement.aggCalls.length).map aggColumnName
  types : plan.aggSchema.map Prod.snd =
    plan.groupBys.map AbstractExpression.getReturnType ++ plan.columns.map fun _ => .integer
  groups : plan.groupBys.length = statement.groupBy.length

theorem rewritten_calls {having rewritten : Option BoundExpression}
    {before after : List BoundExpression}
    (rewrites : rewriteHaving before having = .ok (rewritten, after)) :
    after = before ++ having.elim [] calls := by
  cases having with
  | none =>
      obtain ⟨_, rfl⟩ := Prod.mk.inj (Except.ok.inj rewrites)
      exact (List.append_nil _).symm
  | some expr =>
      obtain ⟨⟨_, last⟩, taken, rewrites⟩ := planned_bind rewrites
      obtain ⟨_, rfl⟩ := Prod.mk.inj (Except.ok.inj rewrites)
      exact calls_taken_out expr taken

theorem plan_steps {childSchema : PlanSchema} {statement : SelectStatement} {plan : SelectAggPlan}
    (planned : planSelectAgg childSchema statement = .ok plan) :
    PlanSteps childSchema statement plan := by
  simp only [planSelectAgg] at planned
  obtain ⟨⟨groups, start⟩, plansGroups, planned⟩ := planned_bind planned
  obtain ⟨⟨having, middle⟩, rewritesHaving, planned⟩ := planned_bind planned
  obtain ⟨⟨selectList, aggregations⟩, rewritesList, planned⟩ := planned_bind planned
  obtain ⟨columns, plansColumns, planned⟩ := planned_bind planned
  obtain ⟨aggSchema, renames, planned⟩ := planned_bind planned
  obtain ⟨⟨predicate, next⟩, plansHaving, planned⟩ := planned_bind planned
  obtain ⟨⟨items, last⟩, plansItems, planned⟩ := planned_bind planned
  obtain rfl := Except.ok.inj planned
  have first := rewritten_calls rewritesHaving
  have all : aggregations = statement.aggCalls := by
    rw [all_calls_taken_out _ rewritesList, first]
    rfl
  subst all
  have counted := columns_length plansColumns
  have sized := planned_length plansGroups
  have fromStart : start = 0 := no_calls_planned _ _ plansGroups
  subst fromStart
  have zipped : (columns.map Prod.fst).zip (columns.map Prod.snd) = columns := by
    rw [List.zip_map', List.map_id'']
    exact fun _ => rfl
  obtain ⟨names, types⟩ := renamed renames
  refine ⟨⟨having, middle, selectList, rewritesHaving, rewritesList, first, _, next, last, items,
    rfl, ?_, ?_, rfl⟩, ?_, ?_, ?_, ?_⟩
  · rw [← counted, ← sized]
    exact plansHaving
  · rw [← counted, ← sized]
    exact plansItems
  · exact plansColumns.trans (congrArg _ zipped.symm)
  · rw [← counted, ← planned_names plansGroups]
    exact names
  · simp [types, inferAggSchema, SelectAggPlan.columns, zipped, Function.comp_def]
  · rw [List.length_map, sized]

theorem having_replanned {schema : PlanSchema} {begin : Nat} {exprInAgg : List AbstractExpression}
    {all : List BoundExpression} {tuple : Block} {callValue : BoundExpression → Option Evaluated}
    {columnValue : BoundColumnRef → Option Evaluated} {having rewritten : Option BoundExpression}
    {middle : List BoundExpression} {predicate : Option AbstractExpression} {next : Nat}
    (bound : AggregationRow schema begin exprInAgg all tuple callValue columnValue)
    (rewrites : rewriteHaving [] having = .ok (rewritten, middle)) (known : middle <+: all)
    (plans : planHaving schema exprInAgg 0 rewritten = .ok (predicate, next)) :
    next = middle.length ∧
      predicate.toList.flatMap (AbstractExpression.columnsFrom begin) =
        List.range' begin middle.length ∧ predicate.map (AbstractExpression.evaluate schema tuple) =
          having.map (direct callValue columnValue) := by
  cases having with
  | none =>
      obtain ⟨rfl, rfl⟩ := Prod.mk.inj (Except.ok.inj rewrites)
      obtain ⟨rfl, rfl⟩ := Prod.mk.inj (Except.ok.inj plans)
      exact ⟨rfl, rfl, rfl⟩
  | some source =>
      obtain ⟨⟨expr, last⟩, taken, rewrites⟩ := planned_bind rewrites
      obtain ⟨rfl, rfl⟩ := Prod.mk.inj (Except.ok.inj rewrites)
      obtain ⟨⟨⟨_, plannedExpr⟩, after⟩, replans, plans⟩ := planned_bind plans
      obtain ⟨rfl, rfl⟩ := Prod.mk.inj (Except.ok.inj plans)
      have own := calls_taken_out source taken
      have replanned := expression_replanned bound source taken known replans
      rw [List.nil_append] at own
      refine ⟨?_, ?_, ?_⟩
      · rw [replanned.next, own, List.length_nil, Nat.zero_add]
      · simp [replanned.columns, own]
      · rw [Option.map_some, Option.map_some, replanned.value]

section Rows
variable {childSchema : PlanSchema} {statement : SelectStatement} {plan : SelectAggPlan}
  {tuple : Block} {key : List Cell} {groupValue : AggregationType × AbstractExpression → Cell}

theorem PlanSteps.row (steps : PlanSteps childSchema statement plan)
    (sized : key.length = statement.groupBy.length)
    (cells : ∀ colIdx, getValue plan.aggSchema tuple colIdx = (plan.row key groupValue)[colIdx]?) :
    AggregationRow plan.aggSchema statement.groupBy.length
      ((List.range statement.aggCalls.length).map fun termIdx =>
        .columnValue (statement.groupBy.length + termIdx) .integer)
      statement.aggCalls tuple (callValue childSchema groupValue) (statement.keyOf key) where
  exprs := rfl
  calls := by
    intro termIdx
    rw [cells, SelectAggPlan.row, List.getElem?_append_right (by omega), sized,
      Nat.add_sub_cancel_left]
    exact column_values steps.columns groupValue termIdx
  columns := by
    intro ref expr planned
    obtain ⟨colIdx, retType, same, inKey, value⟩ := group_column steps.named sized ref expr planned
    exact ⟨colIdx, retType, same, inKey,
      (congrArg (·.bind Cell.evaluated) (cells colIdx)).trans value⟩

theorem nothing_read (schema : PlanSchema) (colIdx : Nat) : getValue schema [] colIdx = none := by
  have stored : TupleEncoding.getValue (storedColumns schema) [] colIdx = none := by
    unfold TupleEncoding.getValue
    cases (TupleEncoding.layout (storedColumns schema))[colIdx]? with
    | none => rfl
    | some column =>
        obtain ⟨type, place⟩ := column
        cases type with
        | fixed type =>
            have size : 0 < type.size := by cases type <;> decide
            simp [ByteRegions.read, size.ne']
        | varchar => simp [ByteRegions.read]
  unfold getValue
  cases schema[colIdx]? <;> simp [stored]

theorem PlanSteps.blank (steps : PlanSteps childSchema statement plan) :
    AggregationRow plan.aggSchema statement.groupBy.length
      ((List.range statement.aggCalls.length).map fun termIdx =>
        .columnValue (statement.groupBy.length + termIdx) .integer)
      statement.aggCalls [] (fun _ => none) (fun _ => none) where
  exprs := rfl
  calls := by
    intro termIdx
    rw [nothing_read]
    cases statement.aggCalls[termIdx]? <;> rfl
  columns := by
    intro ref expr planned
    obtain ⟨colIdx, retType, same, inKey, -⟩ :=
      @group_column statement _ _ steps.named
        (List.replicate statement.groupBy.length ⟨.integer, .fixed .integer 0, rfl⟩)
        [] List.length_replicate ref expr planned
    exact ⟨colIdx, retType, same, inKey, by rw [nothing_read]; rfl⟩

theorem PlanSteps.replanned (steps : PlanSteps childSchema statement plan)
    {callValue : BoundExpression → Option Evaluated}
    {columnValue : BoundColumnRef → Option Evaluated}
    (bound : AggregationRow plan.aggSchema statement.groupBy.length
      ((List.range statement.aggCalls.length).map fun termIdx =>
        .columnValue (statement.groupBy.length + termIdx) .integer)
      statement.aggCalls tuple callValue columnValue) :
    plan.predicate.toList.flatMap (AbstractExpression.columnsFrom statement.groupBy.length) ++
        AbstractExpression.columnsOf statement.groupBy.length plan.expressions =
          List.range' statement.groupBy.length statement.aggCalls.length ∧
      plan.predicate.map (AbstractExpression.evaluate plan.aggSchema tuple) =
        statement.having.map (direct callValue columnValue) ∧
      plan.expressions.map (AbstractExpression.evaluate plan.aggSchema tuple) =
        statement.selectList.map (direct callValue columnValue) := by
  obtain ⟨having, middle, selectList, rewritesHaving, rewritesList, first, exprInAgg, next, last,
    items, rfl, plansHaving, plansItems, expressions⟩ := steps.taken
  have all := all_calls_taken_out _ rewritesList
  have known : middle <+: statement.aggCalls := all ▸ List.prefix_append _ _
  obtain ⟨counted, columns, value⟩ := having_replanned bound rewritesHaving known plansHaving
  rw [counted] at plansItems
  have items :=
    expressions_replanned bound statement.selectList rewritesList List.prefix_rfl plansItems
  rw [← expressions] at items
  refine ⟨?_, value, items.values⟩
  rw [columns, items.columns, range_split, all, List.length_append]

end Rows

section Cells
variable {schema : PlanSchema} {cells : List Cell} {tuple : Block} {colIdx : Nat} {cell : Cell}

theorem get_value_some : getValue schema tuple colIdx = some cell ↔
    (schema.map Prod.snd)[colIdx]? = some cell.typeId ∧
      TupleEncoding.getValue (storedColumns schema) tuple colIdx = some cell.member := by
  obtain ⟨typeId, member, typed⟩ := cell
  unfold getValue
  rw [List.getElem?_map]
  cases schema[colIdx]? with
  | none => simp
  | some column =>
      cases TupleEncoding.getValue (storedColumns schema) tuple colIdx with
      | none => simp
      | some other =>
          simp only [Option.bind_eq_bind, Option.bind_some, Option.map_some, Option.some.injEq]
          split
          next same =>
            simp
          next apart =>
            constructor
            · rintro ⟨⟩
            · rintro ⟨rfl, rfl⟩
              exact absurd typed apart

theorem columns_of_cells (typed : schema.map Prod.snd = cells.map Cell.typeId) :
    storedColumns schema = (cells.map Cell.member).map TupleEncoding.Value.columnType := by
  have stored : storedColumns schema = (schema.map Prod.snd).map storedAs := by
    rw [List.map_map]
    rfl
  rw [stored, typed, List.map_map, List.map_map]
  exact List.map_congr_left fun cell _ => cell.typed.symm

/-- Cells of the columns' types come back just when their bytes can be addressed. -/
theorem cells_back_iff (typed : schema.map Prod.snd = cells.map Cell.typeId) :
    (∃ tuple, encode schema cells = some tuple ∧
      ∀ colIdx, getValue schema tuple colIdx = cells[colIdx]?) ↔
        TupleEncoding.Addressable (cells.map Cell.member) := by
  have columns := columns_of_cells typed
  have sized : schema.length = cells.length := by simpa using congrArg List.length typed
  constructor
  · rintro ⟨tuple, encodes, back⟩
    refine TupleEncoding.gives_back_addressable ⟨tuple, by rw [← columns]; exact encodes, ?_⟩
    intro colIdx
    rw [← columns, List.getElem?_map]
    cases found : cells[colIdx]? with
    | some cell => exact (get_value_some.mp ((back colIdx).trans found)).2
    | none =>
        have beyond : (TupleEncoding.layout (storedColumns schema))[colIdx]? = none := by
          rw [TupleEncoding.layout, List.getElem?_eq_none_iff, TupleEncoding.layout_length,
            storedColumns, List.length_map, sized]
          exact List.getElem?_eq_none_iff.mp found
        simp [TupleEncoding.getValue, beyond]
  · intro addressable
    obtain ⟨tuple, encodes, back⟩ := TupleEncoding.addressable_gives_back addressable
    rw [← columns] at encodes back
    refine ⟨tuple, encodes, fun colIdx => ?_⟩
    cases found : cells[colIdx]? with
    | some cell =>
        apply get_value_some.mpr
        rw [typed, back, List.getElem?_map, List.getElem?_map, found]
        exact ⟨rfl, rfl⟩
    | none =>
        have beyond : schema[colIdx]? = none := by
          rw [List.getElem?_eq_none_iff, sized]
          exact List.getElem?_eq_none_iff.mp found
        simp [getValue, beyond]

theorem cells_typed (sized : schema.length = cells.length)
    (back : ∀ colIdx, getValue schema tuple colIdx = cells[colIdx]?) :
    schema.map Prod.snd = cells.map Cell.typeId := by
  apply List.ext_getElem?
  intro colIdx
  rw [List.getElem?_map (l := cells)]
  cases found : cells[colIdx]? with
  | some cell => exact (get_value_some.mp ((back colIdx).trans found)).1
  | none =>
      rw [Option.map_none, List.getElem?_eq_none_iff, List.length_map, sized]
      exact List.getElem?_eq_none_iff.mp found

end Cells

/-- Every call is bound to its own column. What it reads there is its value just when that is
an INTEGER, as the column is. -/
theorem aggregate_calls_bound {childSchema : PlanSchema} {statement : SelectStatement}
    {plan : SelectAggPlan} (planned : planSelectAgg childSchema statement = .ok plan)
    (key : List Cell) (groupValue : AggregationType × AbstractExpression → Cell)
    (typed : key.map Cell.typeId = plan.groupBys.map AbstractExpression.getReturnType) :
    CallsBound childSchema statement plan key groupValue ↔
      (∀ column ∈ plan.columns, (groupValue column).typeId = .integer) ∧
        TupleEncoding.Addressable ((plan.row key groupValue).map Cell.member) := by
  have steps := plan_steps planned
  have sized : key.length = statement.groupBy.length := by
    rw [← steps.groups]
    simpa using congrArg List.length typed
  have types : plan.aggSchema.map Prod.snd = (plan.row key groupValue).map Cell.typeId ↔
      ∀ column ∈ plan.columns, (groupValue column).typeId = .integer := by
    rw [steps.types, SelectAggPlan.row, List.map_append, typed, List.append_cancel_left_eq,
      List.map_map, eq_comm, List.map_inj_left]
    rfl
  constructor
  · intro bound
    obtain ⟨tuple, encodes, row⟩ := bound.row
    have lengths : plan.aggSchema.length = (plan.row key groupValue).length := by
      have counted := congrArg List.length steps.types
      simp only [List.length_map, List.length_append, steps.groups] at counted
      rw [counted, SelectAggPlan.row, List.length_append, List.length_map, sized]
    have same := cells_typed lengths row.cells
    exact ⟨types.mp same, (cells_back_iff same).mp ⟨tuple, encodes, row.cells⟩⟩
  · rintro ⟨integers, addressable⟩
    obtain ⟨tuple, encodes, cells⟩ := (cells_back_iff (types.mpr integers)).mpr addressable
    obtain ⟨_, having, selectList⟩ := steps.replanned (steps.row sized cells)
    exact ⟨steps.columns, (steps.replanned steps.blank).1, tuple, encodes, cells,
      having, selectList⟩

/-! ### One statement -/

def column (name : Char) : BoundExpression := .columnRef ⟨[['t'], [name]], Nat.le_refl 2⟩

def integerTable : PlanSchema :=
  ['a', 'b', 'c', 'd', 'e'].map fun name => (['t', '.', name], .integer)

/-- `SELECT c, max(a) + max(b) FROM t GROUP BY c HAVING count(d) > count(e)`. -/
def groupedByC : SelectStatement where
  groupBy := [column 'c']
  having := some
    (.binaryOp ['>'] (.aggCall "count".toList false [column 'd'])
      (.aggCall "count".toList false [column 'e']))
  selectList :=
    [column 'c', .binaryOp ['+'] (.aggCall "max".toList false [column 'a'])
    (.aggCall "max".toList false [column 'b'])]
  plainGroups := by
    intro expr member aliasName child same
    rw [List.mem_singleton.mp member] at same
    cases same

def integerCell (number : Nat) : Cell := ⟨.integer, .fixed .integer (BitVec.ofNat _ number), rfl⟩

theorem grouped_by_c_bound : ∃ plan, planSelectAgg integerTable groupedByC = .ok plan ∧
    (CallsBound integerTable groupedByC plan [integerCell 3] (fun _ => integerCell 5) ↔
      (∀ column ∈ plan.columns, (integerCell 5).typeId = .integer) ∧
        TupleEncoding.Addressable
          ((plan.row [integerCell 3] fun _ => integerCell 5).map Cell.member)) :=
  ⟨_, rfl, aggregate_calls_bound rfl [integerCell 3] (fun _ => integerCell 5) rfl⟩

/-- `SELECT min(s), count(*) FROM t` with a VARCHAR. -/
def leastText : SelectStatement where
  groupBy := []
  having := none
  selectList := [.aggCall "min".toList false [column 's'], .aggCall "count_star".toList false []]
  plainGroups := by simp

def textTable : PlanSchema := [(['t', '.', 's'], .varchar)]

def leastOfText (column : AggregationType × AbstractExpression) : Cell :=
  if column.1 = .minAggregate then
    ⟨.varchar, .varchar (some ⟨[97, 98, 99, 0], by decide⟩), rfl⟩
  else integerCell 1

/-- The aggregation takes the text for the least, and the plan reads its length. -/
theorem least_text_lost :
    combineAggregateValues [.minAggregate, .countStarAggregate]
      (generateInitialAggregateValue [.minAggregate, .countStarAggregate])
      [⟨.varchar, some (.text [97, 98, 99])⟩, .integer 1] =
        some [⟨.varchar, some (.text [97, 98, 99])⟩, .integer 1] ∧
    ¬∀ (childSchema : PlanSchema) (statement : SelectStatement) (plan : SelectAggPlan),
      planSelectAgg childSchema statement = .ok plan →
      ∀ (key : List Cell) (groupValue : AggregationType × AbstractExpression → Cell),
        key.map Cell.typeId = plan.groupBys.map AbstractExpression.getReturnType →
        CallsBound childSchema statement plan key groupValue := by
  constructor
  · decide
  · intro claim
    obtain ⟨tuple, encodes, row⟩ := (claim textTable leastText _ rfl [] leastOfText rfl).row
    have typed := (get_value_some.mp (row.cells 0)).1
    cases typed

end BusTub.AggregatePlanning
