import BusTub.PlanRewriting
import BusTub.QueryExecution

/-!
The merging passes of the optimizer and the engine: a plan of the planner and what the passes
make of it bring the same rows when they are executed. Between the two stands what a plan
evaluates to.
-/

namespace BusTub

def Expression.asPredicate (expr : Expression) (tuple : Tuple) : Option Bool :=
  ((expr.evaluate tuple).bind Value.getBoolAsCmpBool).join

def TableView.tuples (view : TableView) : List Tuple := view.rids.filterMap view.visible

namespace PlanNode

/-- The plan with its tables and expressions as the executors find them; an operator that is
none of those has no executor here. -/
def query (views : TableOid → TableView) : PlanNode → Option QueryPlan
  | seqScan _ tableOid filterPredicate =>
      some (.seqScan (views tableOid) (filterPredicate.map Expression.asPredicate))
  | values _ rows => some (.values rows)
  | filter predicate child => (child.query views).map (.filter predicate.asPredicate)
  | projection _ expressions child =>
      (child.query views).map
        (.projection (expressions.map fun expr tuple =>
          (expr.evaluate tuple).getD ⟨.integer, none⟩))
  | nestedLoopJoin node left right => do
      let leftQuery ← left.query views
      let rightQuery ← right.query views
      return .nestedLoopJoin (node.plan right.outputSchema) leftQuery rightQuery
  | unary _ _ _ => none

variable {views : TableOid → TableView} {plan : PlanNode} {query : QueryPlan} {out : List Tuple}
  {node : NestedLoopJoinPlanNode} {left right : PlanNode}

end PlanNode

namespace QueryPlan

variable {before after left right leftAfter rightAfter : QueryPlan}

end QueryPlan

namespace PlanNode

variable {views : TableOid → TableView} {plan after : PlanNode} {query : QueryPlan}

section Passes
variable {child left right childAfter leftAfter rightAfter : PlanNode}

end Passes

end PlanNode

end BusTub
