import BusTub.RelationalJoin

/-!
`OptimizeMergeProjection`, `OptimizeMergeFilterNLJ` and `OptimizeMergeFilterScan`,
as `OptimizeCustom` applies them, over plans as the planner makes them. A plan
evaluates to its rows, in their order, `none` when an expression throws. A filter
that moves into an inner join under a true predicate keeps the rows; into a LEFT
join, where it is no filter any more, it does not.
-/

namespace BusTub

/-! ### Plans and their rows -/

/-- The columns that a plan puts out are given by their types; the names are left out. -/
inductive PlanNode where
  | seqScan (outputSchema : Schema) (tableOid : TableOid) (filterPredicate : Option Expression)
  | values (outputSchema : Schema) (rows : List Tuple)
  | filter (predicate : Expression) (child : PlanNode)
  | projection (outputSchema : Schema) (expressions : List Expression) (child : PlanNode)
  | nestedLoopJoin (node : NestedLoopJoinPlanNode) (left right : PlanNode)
  /-- any other operator over one child, by what it makes of its rows -/
  | unary (outputSchema : Schema) (run : List Tuple → Option (List Tuple)) (child : PlanNode)

/-- Whether a filter lets the row through, `none` when its evaluation does not come back. -/
def Expression.accepts (expr : Expression) (tuple : Tuple) : Option Bool :=
  (expr.evaluate tuple).bind Value.lets

def Expression.acceptsJoin (expr : Expression) (left right : Tuple) : Option Bool :=
  (expr.evaluateJoin left right).bind Value.lets

def keepRows (accepts : Tuple → Option Bool) : List Tuple → Option (List Tuple)
  | [] => some []
  | row :: rows => do
      let accepted ← accepts row
      let kept ← keepRows accepts rows
      return if accepted then row :: kept else kept

def joinRow (joinType : JoinType) (rightSchema : Schema) (accepts : Tuple → Option Bool)
    (left : Tuple) (rights : List Tuple) : Option (List Tuple) := do
  let matching ← keepRows accepts rights
  if matching.isEmpty && joinType = .left then do
    let nulls ← rightSchema.mapM getNullValueByType
    return [left ++ nulls]
  else return matching.map fun right => left ++ right

def joinRows (node : NestedLoopJoinPlanNode) (rightSchema : Schema) (rights : List Tuple) :
    List Tuple → Option (List Tuple)
  | [] => some []
  | left :: lefts => do
      let first ← joinRow node.joinType rightSchema (node.predicate.acceptsJoin left) left rights
      let others ← joinRows node rightSchema rights lefts
      return first ++ others

namespace PlanNode

def outputSchema : PlanNode → Schema
  | seqScan outputSchema _ _ | values outputSchema _ | projection outputSchema _ _
  | unary outputSchema _ _ =>
    outputSchema
  | filter _ child => child.outputSchema
  | nestedLoopJoin _ left right => left.outputSchema ++ right.outputSchema

def rows (tables : TableOid → List Tuple) : PlanNode → Option (List Tuple)
  | seqScan _ tableOid none => some (tables tableOid)
  | seqScan _ tableOid (some filterPredicate) => keepRows filterPredicate.accepts (tables tableOid)
  | values _ rows => some rows
  | filter predicate child => do
      let rows ← child.rows tables
      keepRows predicate.accepts rows
  | projection _ expressions child => do
      let rows ← child.rows tables
      rows.mapM fun row => expressions.mapM fun expr => expr.evaluate row
  | nestedLoopJoin node left right => do
      let lefts ← left.rows tables
      -- the right side is started when there is a left row
      let rights ← (if lefts.isEmpty then some [] else right.rows tables)
      joinRows node right.outputSchema rights lefts
  | unary _ run child => do
      let rows ← child.rows tables
      run rows

end PlanNode

/-! ### The passes -/

def isIdentical (expressions : List Expression) : Bool :=
  expressions.zipIdx.all fun entry =>
    match entry.1 with
    | .columnValue tupleIdx colIdx _ => tupleIdx = .left && colIdx = entry.2
    | _ => false

def rewriteExpressionForJoin (leftColumnCnt rightColumnCnt : Nat) : Expression → Option Expression
  | .columnValue tupleIdx colIdx retType =>
      if tupleIdx ≠ .left then none
      else if colIdx < leftColumnCnt then some (.columnValue .left colIdx retType)
      else if colIdx < leftColumnCnt + rightColumnCnt then
        some (.columnValue .right (colIdx - leftColumnCnt) retType)
      else none
  | .constantValue val => some (.constantValue val)
  | .comparison left right compType => do
      let left ← rewriteExpressionForJoin leftColumnCnt rightColumnCnt left
      let right ← rewriteExpressionForJoin leftColumnCnt rightColumnCnt right
      return .comparison left right compType
  | .logic left right logicType => do
      let left ← rewriteExpressionForJoin leftColumnCnt rightColumnCnt left
      let right ← rewriteExpressionForJoin leftColumnCnt rightColumnCnt right
      return .logic left right logicType
  | .arithmetic left right computeType => do
      let left ← rewriteExpressionForJoin leftColumnCnt rightColumnCnt left
      let right ← rewriteExpressionForJoin leftColumnCnt rightColumnCnt right
      return .arithmetic left right computeType
  | .string arg exprType => do
      let arg ← rewriteExpressionForJoin leftColumnCnt rightColumnCnt arg
      return .string arg exprType

/-- `CastAs(TypeId::BOOLEAN)` of a text, `none` where it throws. -/
def readBoolean (text : List UInt8) : Option Bool :=
  let text := text.map toLower
  if text = ascii ['t', 'r', 'u', 'e'] ∨ text = ascii ['1'] ∨ text = ascii ['t'] then some true
  else if text = ascii ['f', 'a', 'l', 's', 'e'] ∨ text = ascii ['0'] ∨ text = ascii ['f'] then
    some false
  else none

/-- `IsPredicateTrue`. The cast of a constant to BOOLEAN throws for a number, NULL or not,
and for most texts. -/
def isPredicateTrue : Expression → Option Bool
  | .constantValue val =>
      match val.typeId, val.datum with
      | .boolean, some datum => Value.getAsBool datum
      | .varchar, some (.text text) => readBoolean text
      | _, _ => none
  | _ => some false

namespace PlanNode

def optimizeMergeProjection : PlanNode → PlanNode
  | projection outputSchema expressions child =>
      let child := child.optimizeMergeProjection
      if child.outputSchema = outputSchema ∧ isIdentical expressions then child
      else projection outputSchema expressions child
  | filter predicate child => filter predicate child.optimizeMergeProjection
  | nestedLoopJoin node left right =>
      nestedLoopJoin node left.optimizeMergeProjection right.optimizeMergeProjection
  | unary outputSchema run child => unary outputSchema run child.optimizeMergeProjection
  | seqScan outputSchema tableOid filterPredicate => seqScan outputSchema tableOid filterPredicate
  | values outputSchema rows => values outputSchema rows

def mergeFilter (predicate : Expression) : PlanNode → Option PlanNode
  | nestedLoopJoin node left right =>
      match isPredicateTrue node.predicate with
      | none => none
      | some false => some (filter predicate (nestedLoopJoin node left right))
      | some true =>
          (rewriteExpressionForJoin left.outputSchema.length right.outputSchema.length
            predicate).map fun predicate =>
            nestedLoopJoin { node with predicate := predicate } left right
  | child => some (filter predicate child)

def optimizeMergeFilterNLJ : PlanNode → Option PlanNode
  | filter predicate child => do
      let child ← child.optimizeMergeFilterNLJ
      mergeFilter predicate child
  | projection outputSchema expressions child => do
      let child ← child.optimizeMergeFilterNLJ
      return projection outputSchema expressions child
  | nestedLoopJoin node left right => do
      let left ← left.optimizeMergeFilterNLJ
      let right ← right.optimizeMergeFilterNLJ
      return nestedLoopJoin node left right
  | unary outputSchema run child => do
      let child ← child.optimizeMergeFilterNLJ
      return unary outputSchema run child
  | seqScan outputSchema tableOid filterPredicate =>
      some (seqScan outputSchema tableOid filterPredicate)
  | values outputSchema rows => some (values outputSchema rows)

def optimizeMergeFilterScan : PlanNode → PlanNode
  | filter predicate child =>
      match child.optimizeMergeFilterScan with
      | seqScan outputSchema tableOid none => seqScan outputSchema tableOid (some predicate)
      | child => filter predicate child
  | projection outputSchema expressions child =>
      projection outputSchema expressions child.optimizeMergeFilterScan
  | nestedLoopJoin node left right =>
      nestedLoopJoin node left.optimizeMergeFilterScan right.optimizeMergeFilterScan
  | unary outputSchema run child => unary outputSchema run child.optimizeMergeFilterScan
  | seqScan outputSchema tableOid filterPredicate => seqScan outputSchema tableOid filterPredicate
  | values outputSchema rows => values outputSchema rows

def merged (plan : PlanNode) : Option PlanNode :=
  plan.optimizeMergeProjection.optimizeMergeFilterNLJ.map optimizeMergeFilterScan

end PlanNode

/-! ### What the planner makes -/

def Expression.Over (width : Nat) : Expression → Prop
  | .columnValue tupleIdx colIdx _ => tupleIdx = .left ∧ colIdx < width
  | .constantValue _ => True
  | .comparison left right _ | .logic left right _ | .arithmetic left right _ =>
      left.Over width ∧ right.Over width
  | .string arg _ => arg.Over width

namespace PlanNode

/-- The rows are as wide as the schemas say, and the filters are about the columns of their
children. -/
def Conforms (tables : TableOid → List Tuple) : PlanNode → Prop
  | seqScan outputSchema tableOid _ => ∀ row ∈ tables tableOid, row.length = outputSchema.length
  | values outputSchema rows => ∀ row ∈ rows, row.length = outputSchema.length
  | filter predicate child => child.Conforms tables ∧ predicate.Over child.outputSchema.length
  | projection outputSchema expressions child =>
      child.Conforms tables ∧ expressions.length = outputSchema.length
  | nestedLoopJoin _ left right => left.Conforms tables ∧ right.Conforms tables
  | unary outputSchema run child => child.Conforms tables ∧
      ∀ rows out, run rows = some out → ∀ row ∈ out, row.length = outputSchema.length

def joinBelow : PlanNode → Option NestedLoopJoinPlanNode
  | nestedLoopJoin node _ _ => some node
  | filter predicate child =>
      (child.joinBelow.filter fun node => isPredicateTrue node.predicate =
        some true).map fun node =>
        { node with predicate := predicate }
  | projection outputSchema expressions child =>
      if child.outputSchema = outputSchema ∧ isIdentical expressions then child.joinBelow else none
  | _ => none

/-- Where a filter is on a join, `IsPredicateTrue` of the join's predicate does not throw, and a
LEFT join's is not true. -/
def FiltersFit : PlanNode → Prop
  | filter _ child => child.FiltersFit ∧ ∀ node, child.joinBelow = some node →
      ∃ answer, isPredicateTrue node.predicate = some answer ∧
        (answer = true → node.joinType = .inner)
  | projection _ _ child | unary _ _ child => child.FiltersFit
  | nestedLoopJoin _ left right => left.FiltersFit ∧ right.FiltersFit
  | seqScan _ _ _ | values _ _ => True

end PlanNode

section Rows
variable {accepts others : Tuple → Option Bool} {rows kept lefts rights : List Tuple} {left : Tuple}
  {rightSchema : Schema} {node : NestedLoopJoinPlanNode} {out : List Tuple}

theorem keep_rows_cons {row : Tuple} : keepRows accepts (row :: rows) = some kept ↔ ∃ accepted rest,
    accepts row = some accepted ∧ keepRows accepts rows = some rest ∧ kept =
      if accepted then row :: rest else rest := by
  simp only [keepRows, Option.bind_eq_bind, Option.bind_eq_some_iff, Option.pure_def,
    Option.some.injEq]
  constructor
  · rintro ⟨accepted, answered, rest, later, rfl⟩
    exact ⟨accepted, rest, answered, later, rfl⟩
  · rintro ⟨accepted, rest, answered, later, rfl⟩
    exact ⟨accepted, answered, rest, later, rfl⟩

theorem keep_rows_append {front back : List Tuple} : keepRows accepts (front ++ back) = some kept ↔
    ∃ first second, keepRows accepts front = some first ∧ keepRows accepts back = some second ∧
    kept = first ++ second := by
  induction front generalizing kept with
  | nil => simp [keepRows]
  | cons row front ih =>
      rw [List.cons_append, keep_rows_cons]
      constructor
      · rintro ⟨accepted, rest, answered, later, rfl⟩
        obtain ⟨first, second, before, behind, rfl⟩ := ih.mp later
        exact ⟨_, second, keep_rows_cons.mpr ⟨accepted, first, answered, before, rfl⟩, behind,
          by cases accepted <;> simp⟩
      · rintro ⟨first, second, before, behind, rfl⟩
        obtain ⟨accepted, rest, answered, later, rfl⟩ := keep_rows_cons.mp before
        exact ⟨accepted, rest ++ second, answered, ih.mpr ⟨rest, second, later, behind, rfl⟩,
          by cases accepted <;> simp⟩

theorem keep_rows_mem (keeps : keepRows accepts rows = some kept) : ∀ row ∈ kept, row ∈ rows := by
  induction rows generalizing kept with
  | nil =>
      obtain rfl := Option.some.inj keeps
      exact fun _ member => member
  | cons row rows ih =>
      obtain ⟨accepted, rest, -, later, rfl⟩ := keep_rows_cons.mp keeps
      intro other member
      cases accepted with
      | true =>
          rcases List.mem_cons.mp member with rfl | member
          · exact List.mem_cons_self
          · exact List.mem_cons_of_mem _ (ih later other member)
      | false => exact List.mem_cons_of_mem _ (ih later other member)

/-- Rows beside a left row, where the filter says of both what the other says of the right row. -/
theorem keep_rows_beside (same : ∀ right ∈ rights, accepts (left ++ right) = others right)
    (keeps : keepRows accepts (rights.map fun right => left ++ right) = some kept) :
    ∃ matching, keepRows others rights = some matching ∧ kept = matching.map fun right =>
      left ++ right := by
  induction rights generalizing kept with
  | nil =>
      obtain rfl := Option.some.inj keeps
      exact ⟨[], rfl, rfl⟩
  | cons right rights ih =>
      rw [List.map_cons, keep_rows_cons] at keeps
      obtain ⟨accepted, rest, answered, later, rfl⟩ := keeps
      obtain ⟨matching, found, rfl⟩ :=
        ih (fun row member => same row (List.mem_cons_of_mem _ member)) later
      rw [same right List.mem_cons_self] at answered
      exact ⟨_, keep_rows_cons.mpr ⟨accepted, matching, answered, found, rfl⟩,
        by cases accepted <;> simp⟩

/-- A filter that says yes wherever it comes back keeps everything. -/
theorem keep_rows_all (yes : ∀ row answer, accepts row = some answer → answer = true)
    (keeps : keepRows accepts rows = some kept) : kept = rows := by
  induction rows generalizing kept with
  | nil => exact (Option.some.inj keeps).symm
  | cons row rows ih =>
      obtain ⟨accepted, rest, answered, later, rfl⟩ := keep_rows_cons.mp keeps
      rw [yes row accepted answered, ih later, if_pos rfl]

theorem join_rows_cons :
    joinRows node rightSchema rights (left :: lefts) = some out ↔ ∃ first rest,
      joinRow node.joinType rightSchema (node.predicate.acceptsJoin left) left rights = some first ∧
        joinRows node rightSchema rights lefts = some rest ∧ out = first ++ rest := by
  simp only [joinRows, Option.bind_eq_bind, Option.bind_eq_some_iff, Option.pure_def,
    Option.some.injEq]
  constructor
  · rintro ⟨first, joined, rest, later, rfl⟩
    exact ⟨first, rest, joined, later, rfl⟩
  · rintro ⟨first, rest, joined, later, rfl⟩
    exact ⟨first, joined, rest, later, rfl⟩

theorem inner_row : joinRow .inner rightSchema accepts left rights =
    (keepRows accepts rights).map fun matching => matching.map fun right => left ++ right := by
  cases found : keepRows accepts rights <;> simp [joinRow, found]

theorem join_row_cases {joinType : JoinType} {first : List Tuple}
    (joined : joinRow joinType rightSchema accepts left rights = some first) :
    ∃ matching, keepRows accepts rights = some matching ∧
      (matching = [] ∧ joinType = .left ∧ HasNulls rightSchema ∧
          first = [left ++ rightSchema.map fun typeId => ⟨typeId, none⟩] ∨
        ¬ (matching = [] ∧ joinType = .left) ∧
          first = matching.map fun right => left ++ right) := by
  simp only [joinRow, Option.bind_eq_bind, Option.bind_eq_some_iff] at joined
  obtain ⟨matching, keeps, joined⟩ := joined
  refine ⟨matching, keeps, ?_⟩
  by_cases padded : matching = [] ∧ joinType = .left
  · have nulls : HasNulls rightSchema := by
      by_contra missing
      simp [padded, nulls_missing missing] at joined
    have same : first = [left ++ rightSchema.map fun typeId => ⟨typeId, none⟩] := by
      simpa [padded, nulls_made nulls, eq_comm] using joined
    exact Or.inl ⟨padded.1, padded.2, nulls, same⟩
  · have matched : (matching.isEmpty && decide (joinType = .left)) = false := by
      simpa using padded
    simp only [matched, Bool.false_eq_true, ↓reduceIte] at joined
    exact Or.inr ⟨padded, (Option.some.inj joined).symm⟩

/-- An inner join whose predicate says yes wherever it comes back. -/
theorem inner_all (inner : node.joinType = .inner)
    (yes : ∀ left right answer, node.predicate.acceptsJoin left right = some answer → answer = true)
    (joined : joinRows node rightSchema rights lefts = some out) :
    out = lefts.flatMap fun left => rights.map fun right => left ++ right := by
  induction lefts generalizing out with
  | nil => exact (Option.some.inj joined).symm
  | cons left lefts ih =>
      obtain ⟨first, rest, here, later, rfl⟩ := join_rows_cons.mp joined
      rw [inner, inner_row, Option.map_eq_some_iff] at here
      obtain ⟨matching, keeps, rfl⟩ := here
      rw [List.flatMap_cons, ← ih later, keep_rows_all (yes left) keeps]

/-- A filter on the pairs of two row sequences is an inner join of them. -/
theorem filtered_pairs {node : NestedLoopJoinPlanNode} {rightSchema : Schema} {out : List Tuple}
    (inner : node.joinType = .inner) (same : ∀ left ∈ lefts, ∀ right ∈ rights,
      accepts (left ++ right) = node.predicate.acceptsJoin left right)
    (keeps : keepRows accepts (lefts.flatMap fun left => rights.map fun right => left ++ right) =
      some out) :
    joinRows node rightSchema rights lefts = some out := by
  induction lefts generalizing out with
  | nil => exact keeps
  | cons left lefts ih =>
      rw [List.flatMap_cons, keep_rows_append] at keeps
      obtain ⟨first, second, before, behind, rfl⟩ := keeps
      obtain ⟨matching, found, rfl⟩ := keep_rows_beside (same left List.mem_cons_self) before
      have later := ih (fun row member => same row (List.mem_cons_of_mem _ member)) behind
      refine join_rows_cons.mpr ⟨_, second, ?_, later, rfl⟩
      rw [inner, inner_row, found, Option.map_some]

end Rows

section Expressions
variable {expr rewritten : Expression} {leftColumnCnt rightColumnCnt : Nat}

theorem rewritten_of (there : expr.Over (leftColumnCnt + rightColumnCnt)) :
    ∃ rewritten, rewriteExpressionForJoin leftColumnCnt rightColumnCnt expr = some rewritten := by
  induction expr with
  | columnValue tupleIdx colIdx retType =>
      obtain ⟨rfl, within⟩ := there
      by_cases onLeft : colIdx < leftColumnCnt
      · exact ⟨.columnValue .left colIdx retType, by simp [rewriteExpressionForJoin, onLeft]⟩
      · exact ⟨.columnValue .right (colIdx - leftColumnCnt) retType,
          by simp [rewriteExpressionForJoin, onLeft, within]⟩
  | constantValue val => exact ⟨_, rfl⟩
  | comparison left right _ ihLeft ihRight | logic left right _ ihLeft ihRight
  | arithmetic left right _ ihLeft ihRight =>
      obtain ⟨first, made⟩ := ihLeft there.1
      obtain ⟨second, made'⟩ := ihRight there.2
      simp only [rewriteExpressionForJoin, made, made', Option.bind_eq_bind, Option.bind_some]
      exact ⟨_, rfl⟩
  | string arg _ ih =>
      obtain ⟨inside, made⟩ := ih there
      simp only [rewriteExpressionForJoin, made, Option.bind_eq_bind, Option.bind_some]
      exact ⟨_, rfl⟩

/-- On two rows the rewritten expression has the value that it had on their concatenation. -/
theorem rewritten_value
    (made : rewriteExpressionForJoin leftColumnCnt rightColumnCnt expr = some rewritten)
    {left : Tuple} (wide : left.length = leftColumnCnt) (right : Tuple) :
    rewritten.evaluateJoin left right = expr.evaluate (left ++ right) := by
  unfold Expression.evaluateJoin Expression.evaluate
  induction expr generalizing rewritten with
  | columnValue tupleIdx colIdx retType =>
      unfold rewriteExpressionForJoin at made
      split at made
      · cases made
      · split at made
        · rename_i onLeft
          obtain rfl := Option.some.inj made
          exact (List.getElem?_append_left (onLeft.trans_eq wide.symm)).symm
        · rename_i onRight
          obtain ⟨-, same⟩ := Option.ite_none_right_eq_some.mp made
          obtain rfl := Option.some.inj same
          rw [← wide]
          exact (List.getElem?_append_right (by omega)).symm
  | constantValue val =>
      obtain rfl := Option.some.inj made
      rfl
  | comparison left right _ ihLeft ihRight | logic left right _ ihLeft ihRight
  | arithmetic left right _ ihLeft ihRight =>
      simp only [rewriteExpressionForJoin, Option.bind_eq_bind, Option.bind_eq_some_iff] at made
      obtain ⟨first, before, second, behind, same⟩ := made
      obtain rfl := Option.some.inj same
      simp only [Expression.evaluateOn, ihLeft before, ihRight behind]
  | string arg _ ih =>
      simp only [rewriteExpressionForJoin, Option.bind_eq_bind, Option.bind_eq_some_iff] at made
      obtain ⟨inside, before, same⟩ := made
      obtain rfl := Option.some.inj same
      simp only [Expression.evaluateOn, ih before]

theorem rewritten_true
    (made : rewriteExpressionForJoin leftColumnCnt rightColumnCnt expr = some rewritten) :
    isPredicateTrue rewritten = isPredicateTrue expr := by
  cases expr with
  | columnValue tupleIdx colIdx retType =>
      unfold rewriteExpressionForJoin at made
      split at made
      · cases made
      · split at made
        · obtain rfl := Option.some.inj made
          rfl
        · obtain ⟨-, same⟩ := Option.ite_none_right_eq_some.mp made
          obtain rfl := Option.some.inj same
          rfl
  | constantValue val =>
      obtain rfl := Option.some.inj made
      rfl
  | comparison left right | logic left right | arithmetic left right =>
      simp only [rewriteExpressionForJoin, Option.bind_eq_bind, Option.bind_eq_some_iff] at made
      obtain ⟨first, -, second, -, same⟩ := made
      obtain rfl := Option.some.inj same
      rfl
  | string arg =>
      simp only [rewriteExpressionForJoin, Option.bind_eq_bind, Option.bind_eq_some_iff] at made
      obtain ⟨inside, -, same⟩ := made
      obtain rfl := Option.some.inj same
      rfl

/-- A constant that reads as true says yes on any two rows, if it can be read as a predicate at
all. -/
theorem true_accepts (reads : isPredicateTrue expr = some true) (left right : Tuple) (answer : Bool)
    (answered : expr.acceptsJoin left right = some answer) : answer = true := by
  cases expr with
  | constantValue val =>
      obtain ⟨typeId, datum⟩ := val
      simp only [Expression.acceptsJoin, Expression.evaluateJoin, Expression.evaluateOn,
        Option.bind_some, Value.lets, Value.getBoolAsCmpBool] at answered
      unfold isPredicateTrue at reads
      dsimp only at reads
      split at reads
      · rename_i datum
        simpa [reads] using answered.symm
      · cases answered
      · cases reads
  | columnValue | comparison | logic | arithmetic | string => cases reads

end Expressions

/-! ### Plans -/

namespace PlanNode

section Plans
variable {tables : TableOid → List Tuple} {plan child after : PlanNode} {rows : List Tuple}
  {expressions : List Expression}

theorem identical_from {expressions : List Expression} {front : Nat} {row : Tuple}
    (wide : row.length = front + expressions.length)
    (identical : ∀ entry ∈ expressions.zipIdx front, ∃ retType,
      entry.1 = .columnValue .left entry.2 retType) :
    (expressions.mapM fun expr => expr.evaluate row) = some (row.drop front) := by
  induction expressions generalizing front with
  | nil =>
      rw [List.drop_of_length_le (by simp [wide])]
      rfl
  | cons expr expressions ih =>
      have within : front < row.length := by simp [wide]
      obtain ⟨retType, rfl⟩ : ∃ retType, expr = .columnValue .left front retType :=
        identical (expr, front) List.mem_cons_self
      have later := @ih (front + 1) (by rw [wide, List.length_cons]; omega)
        fun entry member => identical entry (List.mem_cons_of_mem _ member)
      rw [List.mapM_cons, later, List.drop_eq_getElem_cons within]
      simp [Expression.evaluate, Expression.evaluateOn, within]

theorem identical_columns (identical : isIdentical expressions = true) {row : Tuple}
    (wide : row.length = expressions.length) :
    (expressions.mapM fun expr => expr.evaluate row) = some row := by
  apply @identical_from expressions 0 row (by rw [wide, Nat.zero_add])
  intro entry member
  have column := List.all_eq_true.mp identical entry member
  split at column
  · rename_i retType expr
    simp only [Bool.and_eq_true, decide_eq_true_eq] at column
    obtain ⟨rfl, rfl⟩ := column
    exact ⟨retType, expr⟩
  · cases column

theorem projected_wide {row out : Tuple}
    (projected : (expressions.mapM fun expr => expr.evaluate row) = some out) :
    out.length = expressions.length := by
  induction expressions generalizing out with
  | nil =>
      obtain rfl := Option.some.inj projected
      rfl
  | cons expr expressions ih =>
      simp only [List.mapM_cons, Option.bind_eq_bind, Option.bind_eq_some_iff] at projected
      obtain ⟨value, -, rest, later, same⟩ := projected
      obtain rfl := Option.some.inj same
      rw [List.length_cons, List.length_cons, ih later]

theorem projected_rows {rows out : List Tuple}
    (projected : (rows.mapM fun row => expressions.mapM fun expr => expr.evaluate row) = some out) :
    ∀ row ∈ out, row.length = expressions.length := by
  induction rows generalizing out with
  | nil =>
      obtain rfl := Option.some.inj projected
      exact fun _ member => absurd member List.not_mem_nil
  | cons first rows ih =>
      simp only [List.mapM_cons, Option.bind_eq_bind, Option.bind_eq_some_iff] at projected
      obtain ⟨made, here, rest, later, same⟩ := projected
      obtain rfl := Option.some.inj same
      intro row member
      rcases List.mem_cons.mp member with rfl | member
      · exact projected_wide here
      · exact ih later row member

theorem identical_rows (identical : isIdentical expressions = true) {rows : List Tuple}
    (wide : ∀ row ∈ rows, row.length = expressions.length) :
    (rows.mapM fun row => expressions.mapM fun expr => expr.evaluate row) = some rows := by
  induction rows with
  | nil => rfl
  | cons row rows ih =>
      rw [List.mapM_cons, identical_columns identical (wide row List.mem_cons_self),
        ih fun row member => wide row (List.mem_cons_of_mem _ member)]
      rfl

theorem join_wide {node : NestedLoopJoinPlanNode} {rightSchema : Schema}
    {lefts rights out : List Tuple} {width : Nat} (leftWide : ∀ row ∈ lefts, row.length = width)
    (rightWide : ∀ row ∈ rights, row.length = rightSchema.length)
    (joined : joinRows node rightSchema rights lefts = some out) :
    ∀ row ∈ out, row.length = width + rightSchema.length := by
  induction lefts generalizing out with
  | nil =>
      obtain rfl := Option.some.inj joined
      exact fun _ member => absurd member List.not_mem_nil
  | cons left lefts ih =>
      obtain ⟨first, rest, here, later, rfl⟩ := join_rows_cons.mp joined
      have wide := leftWide left List.mem_cons_self
      intro row member
      rcases List.mem_append.mp member with member | member
      · obtain ⟨matching, keeps, ⟨-, -, -, rfl⟩ | ⟨-, rfl⟩⟩ := join_row_cases here
        · obtain rfl := List.mem_singleton.mp member
          simp [wide]
        · obtain ⟨right, inside, rfl⟩ := List.mem_map.mp member
          rw [List.length_append, wide, rightWide right (keep_rows_mem keeps right inside)]
      · exact ih (fun row member => leftWide row (List.mem_cons_of_mem _ member)) later row member

theorem rows_wide (conforms : plan.Conforms tables) (evaluates : plan.rows tables = some rows) :
    ∀ row ∈ rows, row.length = plan.outputSchema.length := by
  induction plan generalizing rows with
  | seqScan outputSchema tableOid filterPredicate =>
      cases filterPredicate with
      | none =>
          obtain rfl := Option.some.inj evaluates
          exact conforms
      | some filterPredicate =>
          exact fun row member => conforms row (keep_rows_mem evaluates row member)
  | values outputSchema listed =>
      obtain rfl := Option.some.inj evaluates
      exact conforms
  | filter predicate child ih =>
      obtain ⟨rows, below, keeps⟩ := Option.bind_eq_some_iff.mp evaluates
      exact fun row member => ih conforms.1 below row (keep_rows_mem keeps row member)
  | projection outputSchema expressions child =>
      obtain ⟨rows, below, projected⟩ := Option.bind_eq_some_iff.mp evaluates
      exact fun row member => (projected_rows projected row member).trans conforms.2
  | nestedLoopJoin node left right ihLeft ihRight =>
      obtain ⟨lefts, onLeft, evaluates⟩ := Option.bind_eq_some_iff.mp evaluates
      obtain ⟨rights, onRight, joined⟩ := Option.bind_eq_some_iff.mp evaluates
      have rightWide : ∀ row ∈ rights, row.length = right.outputSchema.length := by
        split at onRight
        · obtain rfl := Option.some.inj onRight
          exact fun _ member => absurd member List.not_mem_nil
        · exact ihRight conforms.2 onRight
      rw [outputSchema, List.length_append]
      exact join_wide (ihLeft conforms.1 onLeft) rightWide joined
  | unary outputSchema run child =>
      obtain ⟨rows, below, ran⟩ := Option.bind_eq_some_iff.mp evaluates
      exact conforms.2 rows _ ran

/-! What `OptimizeMergeProjection` leaves as it is. -/

theorem projection_merged_schema :
    plan.optimizeMergeProjection.outputSchema = plan.outputSchema := by
  induction plan with
  | seqScan | values | unary => rfl
  | filter predicate child ih => exact ih
  | nestedLoopJoin node left right ihLeft ihRight =>
      rw [optimizeMergeProjection, outputSchema, outputSchema, ihLeft, ihRight]
  | projection outputSchema expressions child ih =>
      rw [optimizeMergeProjection]
      split
      · rename_i dropped
        exact dropped.1
      · rfl

theorem projection_merged_conforms (conforms : plan.Conforms tables) :
    plan.optimizeMergeProjection.Conforms tables := by
  induction plan with
  | seqScan | values => exact conforms
  | unary outputSchema run child ih => exact ⟨ih conforms.1, conforms.2⟩
  | filter predicate child ih =>
      exact ⟨ih conforms.1, by rw [projection_merged_schema]; exact conforms.2⟩
  | nestedLoopJoin node left right ihLeft ihRight => exact ⟨ihLeft conforms.1, ihRight conforms.2⟩
  | projection outputSchema expressions child ih =>
      rw [optimizeMergeProjection]
      split
      · exact ih conforms.1
      · exact ⟨ih conforms.1, conforms.2⟩

theorem projection_merged_below : plan.optimizeMergeProjection.joinBelow = plan.joinBelow := by
  induction plan with
  | seqScan | values | unary | nestedLoopJoin => rfl
  | filter predicate child ih => rw [optimizeMergeProjection, joinBelow, joinBelow, ih]
  | projection outputSchema expressions child ih =>
      rw [optimizeMergeProjection, joinBelow, projection_merged_schema]
      by_cases dropped : child.outputSchema = outputSchema ∧ isIdentical expressions = true
      · simp [dropped, ih]
      · simp [dropped, joinBelow, projection_merged_schema]

theorem projection_merged_fits (fits : plan.FiltersFit) :
    plan.optimizeMergeProjection.FiltersFit := by
  induction plan with
  | seqScan | values => trivial
  | unary outputSchema run child ih => exact ih fits
  | filter predicate child ih =>
      constructor
      · exact ih fits.1
      · rw [projection_merged_below]
        exact fits.2
  | nestedLoopJoin node left right ihLeft ihRight => exact ⟨ihLeft fits.1, ihRight fits.2⟩
  | projection outputSchema expressions child ih =>
      rw [optimizeMergeProjection]
      split
      · exact ih fits
      · exact ih fits

theorem projection_merged_rows (conforms : plan.Conforms tables) :
    plan.optimizeMergeProjection.rows tables = plan.rows tables := by
  induction plan with
  | seqScan | values => rfl
  | unary outputSchema run child ih =>
      rw [optimizeMergeProjection, PlanNode.rows, PlanNode.rows, ih conforms.1]
  | filter predicate child ih =>
      rw [optimizeMergeProjection, PlanNode.rows, PlanNode.rows, ih conforms.1]
  | nestedLoopJoin node left right ihLeft ihRight =>
      rw [optimizeMergeProjection, PlanNode.rows, PlanNode.rows, ihLeft conforms.1,
          ihRight conforms.2, projection_merged_schema]
  | projection outputSchema expressions child ih =>
      rw [optimizeMergeProjection]
      split
      · rename_i dropped
        rw [ih conforms.1, PlanNode.rows]
        cases below : child.rows tables with
        | none => rfl
        | some rows =>
            have wide := rows_wide conforms.1 below
            rw [projection_merged_schema] at dropped
            rw [dropped.1, ← conforms.2] at wide
            exact (identical_rows dropped.2 wide).symm
      · rw [PlanNode.rows, PlanNode.rows, ih conforms.1]

theorem scan_merged_schema : plan.optimizeMergeFilterScan.outputSchema = plan.outputSchema := by
  induction plan with
  | seqScan | values | projection | unary => rfl
  | nestedLoopJoin node left right ihLeft ihRight =>
      rw [optimizeMergeFilterScan, outputSchema, outputSchema, ihLeft, ihRight]
  | filter predicate child ih =>
      rw [optimizeMergeFilterScan, outputSchema, ← ih]
      split
      · rename_i scan
        rw [scan]
        rfl
      · rfl

theorem scan_merged_rows : plan.optimizeMergeFilterScan.rows tables = plan.rows tables := by
  induction plan with
  | seqScan | values => rfl
  | unary outputSchema run child ih =>
      rw [optimizeMergeFilterScan, PlanNode.rows, PlanNode.rows, ih]
  | projection outputSchema expressions child ih =>
      rw [optimizeMergeFilterScan, PlanNode.rows, PlanNode.rows, ih]
  | nestedLoopJoin node left right ihLeft ihRight =>
      rw [optimizeMergeFilterScan, PlanNode.rows, PlanNode.rows, ihLeft, ihRight,
        scan_merged_schema]
  | filter predicate child ih =>
      rw [optimizeMergeFilterScan, PlanNode.rows, ← ih]
      split
      · rename_i scan
        rw [scan]
        rfl
      · rfl

/-! `OptimizeMergeFilterNLJ` -/

structure FiltersMerged (tables : TableOid → List Tuple) (plan after : PlanNode) : Prop where
  schema : after.outputSchema = plan.outputSchema
  conforms : after.Conforms tables
  join : ∀ node left right, after = nestedLoopJoin node left right →
    ∃ below, plan.joinBelow = some below ∧ below.joinType = node.joinType ∧
      isPredicateTrue below.predicate = isPredicateTrue node.predicate
  rows : ∀ rows, plan.rows tables = some rows → after.rows tables = some rows

theorem merge_filter_spec {predicate : Expression} (merged : FiltersMerged tables child after)
    (conforms : predicate.Over child.outputSchema.length)
    (fits : ∀ node, child.joinBelow = some node → ∃ answer, isPredicateTrue node.predicate =
      some answer ∧ (answer = true → node.joinType = .inner)) :
    ∃ last, mergeFilter predicate after = some last ∧
      FiltersMerged tables (filter predicate child) last := by
  -- a filter that stays where it is
  have stays (unmerged : mergeFilter predicate after = some (filter predicate after)) :
      ∃ last, mergeFilter predicate after = some last ∧
        FiltersMerged tables (filter predicate child) last := by
    refine ⟨_, unmerged, merged.schema, ⟨merged.conforms, by rw [merged.schema]; exact conforms⟩,
      ?_, ?_⟩
    · intro node left right same
      cases same
    · intro rows evaluates
      obtain ⟨before, below, keeps⟩ := Option.bind_eq_some_iff.mp evaluates
      exact Option.bind_eq_some_iff.mpr ⟨before, merged.rows before below, keeps⟩
  cases after with
  | seqScan | values | filter | projection | unary => exact stays rfl
  | nestedLoopJoin node left right =>
      obtain ⟨below, found, sameType, sameTruth⟩ := merged.join node left right rfl
      obtain ⟨answer, reads, onlyInner⟩ := fits below found
      rw [sameTruth] at reads
      cases answer with
      | false => exact stays (by rw [mergeFilter, reads])
      | true =>
          have inner : node.joinType = .inner := by rw [← sameType, onlyInner rfl]
          have widths : child.outputSchema.length = left.outputSchema.length +
            right.outputSchema.length := by
            rw [← merged.schema, outputSchema, List.length_append]
          rw [widths] at conforms
          obtain ⟨rewritten, made⟩ := rewritten_of conforms
          refine ⟨nestedLoopJoin { node with predicate := rewritten } left right,
            by rw [mergeFilter, reads, made]; rfl,
            merged.schema, merged.conforms, ?_, ?_⟩
          · intro node' left' right' same
            obtain ⟨rfl, rfl, rfl⟩ := nestedLoopJoin.inj same
            refine ⟨{ below with predicate := predicate }, ?_, sameType, (rewritten_true made).symm⟩
            rw [joinBelow, found, Option.filter_some, if_pos (by simp [sameTruth, reads]),
              Option.map_some]
          · intro rows evaluates
            obtain ⟨pairs, before, keeps⟩ := Option.bind_eq_some_iff.mp evaluates
            have joins := merged.rows pairs before
            obtain ⟨lefts, onLeft, joins⟩ := Option.bind_eq_some_iff.mp joins
            obtain ⟨rights, onRight, joined⟩ := Option.bind_eq_some_iff.mp joins
            have all := inner_all inner (true_accepts reads) joined
            rw [all] at keeps
            refine Option.bind_eq_some_iff.mpr ⟨lefts, onLeft,
              Option.bind_eq_some_iff.mpr ⟨rights, onRight, ?_⟩⟩
            apply @filtered_pairs predicate.accepts lefts rights
              { node with predicate := rewritten } _ rows inner _ keeps
            intro row member other _
            have wide := rows_wide merged.conforms.1 onLeft row member
            rw [Expression.accepts, Expression.acceptsJoin, rewritten_value made wide]

theorem merge_filter_nlj_spec (conforms : plan.Conforms tables) (fits : plan.FiltersFit) :
    ∃ after, plan.optimizeMergeFilterNLJ = some after ∧ FiltersMerged tables plan after := by
  induction plan with
  | seqScan outputSchema tableOid filterPredicate =>
      exact ⟨_, rfl, rfl, conforms, fun _ _ _ same => PlanNode.noConfusion same,
        fun _ evaluates => evaluates⟩
  | values outputSchema rows =>
      exact ⟨_, rfl, rfl, conforms, fun _ _ _ same => PlanNode.noConfusion same,
        fun _ evaluates => evaluates⟩
  | filter predicate child ih =>
      obtain ⟨after, made, merged⟩ := ih conforms.1 fits.1
      obtain ⟨last, here, spec⟩ := merge_filter_spec merged conforms.2 fits.2
      exact ⟨last, by rw [optimizeMergeFilterNLJ, made]; exact here, spec⟩
  | projection outputSchema expressions child ih =>
      obtain ⟨after, made, merged⟩ := ih conforms.1 fits
      refine ⟨projection outputSchema expressions after,
          by rw [optimizeMergeFilterNLJ, made]; rfl, rfl, ⟨merged.conforms,
            conforms.2⟩, fun _ _ _ same => PlanNode.noConfusion same, fun rows evaluates => ?_⟩
      obtain ⟨before, below, projected⟩ := Option.bind_eq_some_iff.mp evaluates
      exact Option.bind_eq_some_iff.mpr ⟨before, merged.rows before below, projected⟩
  | unary outputSchema run child ih =>
      obtain ⟨after, made, merged⟩ := ih conforms.1 fits
      refine ⟨unary outputSchema run after, by rw [optimizeMergeFilterNLJ, made]; rfl, rfl,
        ⟨merged.conforms, conforms.2⟩, fun _ _ _ same =>
          PlanNode.noConfusion same, fun rows evaluates => ?_⟩
      obtain ⟨before, below, ran⟩ := Option.bind_eq_some_iff.mp evaluates
      exact Option.bind_eq_some_iff.mpr ⟨before, merged.rows before below, ran⟩
  | nestedLoopJoin node left right ihLeft ihRight =>
      obtain ⟨first, madeLeft, mergedLeft⟩ := ihLeft conforms.1 fits.1
      obtain ⟨second, madeRight, mergedRight⟩ := ihRight conforms.2 fits.2
      refine ⟨nestedLoopJoin node first second,
          by rw [optimizeMergeFilterNLJ, madeLeft, madeRight]; rfl, by rw [outputSchema,
            outputSchema, mergedLeft.schema, mergedRight.schema],
        ⟨mergedLeft.conforms, mergedRight.conforms⟩, ?_, fun rows evaluates => ?_⟩
      · intro node' left' right' same
        obtain ⟨rfl, -, -⟩ := nestedLoopJoin.inj same
        exact ⟨node, rfl, rfl, rfl⟩
      · obtain ⟨lefts, onLeft, evaluates⟩ := Option.bind_eq_some_iff.mp evaluates
        obtain ⟨rights, onRight, joined⟩ := Option.bind_eq_some_iff.mp evaluates
        refine Option.bind_eq_some_iff.mpr ⟨lefts, mergedLeft.rows lefts onLeft,
          Option.bind_eq_some_iff.mpr ⟨rights, ?_, by rw [mergedRight.schema]; exact joined⟩⟩
        by_cases none : lefts.isEmpty = true
        · rw [if_pos none] at onRight ⊢
          exact onRight
        · rw [if_neg none] at onRight ⊢
          exact mergedRight.rows rights onRight

end Plans

end PlanNode

/-- For every plan of the planner and all table contents: the passes do not throw, and they keep
the rows of a plan that evaluates to any, in their order. -/
theorem rewriting_keeps_rows (tables : TableOid → List Tuple) (plan : PlanNode)
    (conforms : plan.Conforms tables) (fits : plan.FiltersFit) :
    ∃ after, plan.merged = some after ∧
      ∀ rows, plan.rows tables = some rows → ∃ others, after.rows tables = some others ∧
      others.Perm rows := by
  obtain ⟨after, made, spec⟩ :=
    PlanNode.merge_filter_nlj_spec (PlanNode.projection_merged_conforms conforms)
      (PlanNode.projection_merged_fits fits)
  refine ⟨after.optimizeMergeFilterScan, by rw [PlanNode.merged, made]; rfl, fun rows evaluates =>
    ⟨rows, ?_, List.Perm.refl rows⟩⟩
  rw [PlanNode.scan_merged_rows]
  exact spec.rows rows ((PlanNode.projection_merged_rows conforms).trans evaluates)

section Executors
open BatchSource

variable {node : NestedLoopJoinPlanNode} {rightSchema : Schema} {lefts rights : List Row}
  {out : List Tuple} {fuel : Nat}

theorem lets_holds {value : Option Value} {accepted : Bool}
    (answered : value.bind Value.lets = some accepted) :
    holds (value.bind Value.getBoolAsCmpBool).join = accepted := by
  obtain ⟨value, rfl, lets⟩ := Option.bind_eq_some_iff.mp answered
  obtain ⟨answer, read, rfl⟩ := Option.map_eq_some_iff.mp lets
  simp [read, holds]

theorem kept_filtered {accepts : Tuple → Option Bool} {answer : Tuple → Option Bool}
    (same : ∀ tuple accepted, accepts tuple = some accepted → holds (answer tuple) = accepted)
    {rows : List Row} (keeps : keepRows accepts (rows.map Row.values) = some out) :
    (rows.filter fun row => holds (answer row.values)).map Row.values = out := by
  induction rows generalizing out with
  | nil => exact Option.some.inj keeps
  | cons row rows ih =>
      rw [List.map_cons, keep_rows_cons] at keeps
      obtain ⟨accepted, rest, answered, later, rfl⟩ := keeps
      rw [List.filter_cons, same row.values accepted answered]
      cases accepted with
      | true => simp [ih later]
      | false => simp [ih later]

/-- A filter node's rows are those that its executor hands out of the rows of its child. -/
theorem filter_hands_out (predicate : Expression) {child : Executor} {strict : Bool}
    {started : child.State} {rows : List (Row × RID)}
    (delivers : child.Delivers strict started rows) (enough : rows.length < fuel)
    (keeps : keepRows predicate.accepts (rows.map fun row => row.1.values) = some out) :
    ∃ made, (filterExecutor fuel
      (fun tuple => ((predicate.evaluate tuple).bind Value.getBoolAsCmpBool).join) child).Delivers
      false { child := started } made ∧ made.map (fun row => row.1.values) = out := by
  refine ⟨_, filter_delivers _ { child := started } delivers enough, ?_⟩
  simp only [BufferedState.leftover, BufferedState.pending, ne_eq, not_true_eq_false,
    if_false, emitRows, List.filterMap_nil, List.nil_append]
  clear delivers enough
  induction rows generalizing out with
  | nil => exact Option.some.inj keeps
  | cons row rows ih =>
      rw [List.map_cons, keep_rows_cons] at keeps
      obtain ⟨accepted, rest, answered, later, rfl⟩ := keeps
      have holding := lets_holds answered
      rw [List.filterMap_cons, ← ih later]
      cases accepted with
      | true => simp only [keepRow, holding, if_true, Option.map_some, List.map_cons]
      | false => simp only [keepRow, holding, Bool.false_eq_true, if_false, Option.map_none]

theorem accepted_kept {left : Row} {matching : List Tuple}
    (keeps : keepRows (node.predicate.acceptsJoin left.values) (rights.map Row.values) =
      some matching) :
    (rights.filter ((node.plan rightSchema).accepts left)).map Row.values = matching :=
  kept_filtered (fun _ _ answered => lets_holds answered) keeps

theorem join_rows_relational
    (joined : joinRows node rightSchema (rights.map Row.values) (lefts.map Row.values) = some out) :
    (relationalJoin (node.plan rightSchema) lefts rights).map (fun row => row.1.values) = out := by
  induction lefts generalizing out with
  | nil => exact Option.some.inj joined
  | cons left lefts ih =>
      rw [List.map_cons, join_rows_cons] at joined
      obtain ⟨first, rest, here, later, rfl⟩ := joined
      rw [relational_cons, List.map_append, ih later, ← joined_relational, joined_false]
      congr 1
      obtain ⟨matching, keeps, row⟩ := join_row_cases here
      have kept : (rights.filter ((node.plan rightSchema).accepts left)).map Row.values =
          matching :=
        accepted_kept keeps
      generalize rights.filter ((node.plan rightSchema).accepts left) = accepted at kept ⊢
      have joinType : (node.plan rightSchema).joinType = node.joinType := rfl
      have schema : (node.plan rightSchema).rightSchema = rightSchema := rfl
      rw [joinType, schema]
      rcases row with ⟨rfl, padded, -, rfl⟩ | ⟨matched, rfl⟩
      · obtain rfl := List.map_eq_nil_iff.mp kept
        simp [paddedRows, padded, joinTuple]
      · subst kept
        cases accepted with
        | nil =>
            have inner : ¬ node.joinType = .left := by simpa using matched
            simp [paddedRows, inner]
        | cons right accepted => simp [joinTuple, Function.comp_def]

/-- A join that comes to its rows has padded those that it had to pad. -/
theorem join_rows_pad
    (joined : joinRows node rightSchema (rights.map Row.values) (lefts.map Row.values) = some out) :
    ∀ left ∈ lefts, (node.plan rightSchema).Pads left rights := by
  induction lefts generalizing out with
  | nil => simp
  | cons left lefts ih =>
      rw [List.map_cons, join_rows_cons] at joined
      obtain ⟨first, rest, here, later, rfl⟩ := joined
      refine List.forall_mem_cons.mpr ⟨fun joins none => ?_, ih later⟩
      obtain ⟨matching, keeps, ⟨-, -, nulls, -⟩ | ⟨matched, -⟩⟩ := join_row_cases here
      · exact nulls
      · have kept : (rights.filter ((node.plan rightSchema).accepts left)).map Row.values =
            matching :=
          accepted_kept keeps
        have nothing : rights.filter ((node.plan rightSchema).accepts left) = [] := by
          simpa using none
        rw [nothing] at kept
        exact absurd ⟨kept.symm, joins⟩ matched

theorem join_hands_out {outer inner : Executor} {lefts rights : List (Row × RID)}
    (brings : ∃ started, outer.init outer.fresh = some started ∧ outer.Delivers false started lefts)
    (restarts : ∀ state, inner.Reached state →
      ∃ started, inner.init state = some started ∧ inner.Delivers false started rights)
    (enough : lefts.length * (rights.length + 2) + 2 ≤ fuel)
    (joined : joinRows node rightSchema (rights.map fun row => row.1.values)
      (lefts.map fun row => row.1.values) = some out) :
    ∃ made, Outputs (nestedLoopJoinExecutor fuel (node.plan rightSchema) outer inner) made ∧
      made.map (fun row => row.1.values) = out := by
  have joins : joinRows node rightSchema ((rights.map Prod.fst).map Row.values)
    ((lefts.map Prod.fst).map Row.values) = some out := by
    simpa [Function.comp_def] using joined
  exact ⟨_, padded_outputs brings restarts enough (join_rows_pad joins), join_rows_relational joins⟩

end Executors

/-! ### Two plans -/

def oneInteger : Schema := [.integer]

/-- Table 0 has the rows 1 and 2, table 1 the row 2, the others are empty. -/
def someTables (tableOid : TableOid) : List Tuple :=
  if tableOid = 0 then [[.integer 1], [.integer 2]] else if tableOid = 1 then [[.integer 2]] else []

def sameColumns : Expression :=
  .comparison (.columnValue .left 0 .integer) (.columnValue .left 1 .integer) .equal

/-- `SELECT * FROM a, b WHERE a.x = b.x` -/
def crossProduct : PlanNode :=
  .projection [.integer, .integer] [.columnValue .left 0 .integer, .columnValue .left 1 .integer]
    (.filter sameColumns (.nestedLoopJoin ⟨.inner, .constantValue (Value.boolean (some true))⟩
      (.seqScan oneInteger 0 none) (.seqScan oneInteger 1 none)))

theorem some_tables_wide : ∀ tableOid, ∀ row ∈ someTables tableOid, row.length = 1 := by
  intro tableOid row member
  unfold someTables at member
  split at member
  · simp only [List.mem_cons, List.not_mem_nil, or_false] at member
    rcases member with rfl | rfl
    · rfl
    · rfl
  · split at member
    · obtain rfl := List.mem_singleton.mp member
      rfl
    · cases member

theorem cross_product_kept : ∃ after, crossProduct.merged = some after ∧
    ∀ rows, crossProduct.rows someTables = some rows →
      ∃ others, after.rows someTables = some others ∧ others.Perm rows := by
  apply rewriting_keeps_rows someTables crossProduct
  · exact ⟨⟨⟨some_tables_wide 0, some_tables_wide 1⟩, ⟨rfl, by decide⟩, rfl, by decide⟩, rfl⟩
  · refine ⟨⟨trivial, trivial⟩, fun node below => ⟨true, ?_⟩⟩
    obtain rfl := Option.some.inj below
    exact ⟨rfl, fun _ => rfl⟩

/-- `SELECT * FROM a LEFT JOIN c ON 't' WHERE a.x = c.x`, where c is empty. -/
def paddedJoin : PlanNode :=
  .projection [.integer, .integer] [.columnValue .left 0 .integer, .columnValue .left 1 .integer]
    (.filter sameColumns
      (.nestedLoopJoin ⟨.left, .constantValue ⟨.varchar, some (.text (ascii ['t']))⟩⟩
      (.seqScan oneInteger 0 none) (.seqScan oneInteger 2 none)))

/-- The filter takes the padded rows away; in the place of the join's predicate it does not. -/
theorem padded_join_changed :
    ¬∀ (tables : TableOid → List Tuple) (plan : PlanNode), plan.Conforms tables →
      ∃ after, plan.merged = some after ∧ ∀ rows, plan.rows tables = some rows →
      ∃ others, after.rows tables = some others ∧ others.Perm rows := by
  intro claim
  obtain ⟨after, made, keeps⟩ := claim someTables paddedJoin
    ⟨⟨⟨some_tables_wide 0, some_tables_wide 2⟩, ⟨rfl, by decide⟩, rfl, by decide⟩, rfl⟩
  obtain ⟨others, evaluates, perm⟩ := keeps [] (by decide)
  obtain rfl := Option.some.inj made
  obtain rfl := perm.eq_nil
  exact absurd evaluates (by decide)

end BusTub
