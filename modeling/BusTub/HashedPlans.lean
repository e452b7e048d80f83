import BusTub.OptimizedExecution

/-!
`OptimizeCustom` on plans over tables without an index: after the joins have taken in the
filters above them, those of equal columns become hash joins. Executed, the plan of the
planner and the optimized one bring the same rows, in the same order, where at every
hash join the keys say what the predicate says.
-/

namespace BusTub

inductive OptimizedPlan where
  | seqScan (outputSchema : Schema) (tableOid : TableOid) (filterPredicate : Option Expression)
  | values (outputSchema : Schema) (rows : List Tuple)
  | filter (predicate : Expression) (child : OptimizedPlan)
  | projection (outputSchema : Schema) (expressions : List Expression) (child : OptimizedPlan)
  | nestedLoopJoin (node : NestedLoopJoinPlanNode) (left right : OptimizedPlan)
  | hashJoin (node : HashJoinPlanNode) (left right : OptimizedPlan)
  | unary (outputSchema : Schema) (run : List Tuple → Option (List Tuple)) (child : OptimizedPlan)

namespace OptimizedPlan

def outputSchema : OptimizedPlan → Schema
  | seqScan outputSchema _ _ | values outputSchema _ | projection outputSchema _ _
  | unary outputSchema _ _ =>
    outputSchema
  | filter _ child => child.outputSchema
  | nestedLoopJoin _ left right | hashJoin _ left right => left.outputSchema ++ right.outputSchema

def optimizeMergeFilterScan : OptimizedPlan → OptimizedPlan
  | filter predicate child =>
      match child.optimizeMergeFilterScan with
      | seqScan outputSchema tableOid none => seqScan outputSchema tableOid (some predicate)
      | child => filter predicate child
  | projection outputSchema expressions child =>
      projection outputSchema expressions child.optimizeMergeFilterScan
  | nestedLoopJoin node left right =>
      nestedLoopJoin node left.optimizeMergeFilterScan right.optimizeMergeFilterScan
  | hashJoin node left right =>
      hashJoin node left.optimizeMergeFilterScan right.optimizeMergeFilterScan
  | unary outputSchema run child => unary outputSchema run child.optimizeMergeFilterScan
  | seqScan outputSchema tableOid filterPredicate => seqScan outputSchema tableOid filterPredicate
  | values outputSchema rows => values outputSchema rows

def query (views : TableOid → TableView) : OptimizedPlan → Option QueryPlan
  | seqScan _ tableOid filterPredicate =>
      some (.seqScan (views tableOid) (filterPredicate.map Expression.asPredicate))
  | values _ rows => some (.values rows)
  | filter predicate child => (child.query views).map (.filter predicate.asPredicate)
  | projection _ expressions child =>
      (child.query views).map
        (.projection (expressions.map fun expr tuple =>
          (expr.evaluate tuple).getD ⟨.integer, none⟩))
  | nestedLoopJoin node left right => do
      let leftQuery ← left.query views
      let rightQuery ← right.query views
      return .nestedLoopJoin (node.plan right.outputSchema) leftQuery rightQuery
  | hashJoin node left right => do
      let leftQuery ← left.query views
      let rightQuery ← right.query views
      return .hashJoin (node.plan right.outputSchema) leftQuery rightQuery
  | unary _ _ _ => none

end OptimizedPlan

namespace PlanNode

end PlanNode

section Joins
variable {node : NestedLoopJoinPlanNode} {hashNode : HashJoinPlanNode} {rightSchema : Schema}
  {lefts rights : List Row}

end Joins

/-! ### The passes -/

namespace QueryPlan

variable {before after left right leftAfter rightAfter : QueryPlan}

end QueryPlan

section Passes
variable {views : TableOid → TableView} {query : QueryPlan}

end Passes

namespace PlanNode

variable {views : TableOid → TableView} {plan : PlanNode} {query : QueryPlan}

end PlanNode

end BusTub
