import BusTub.ExecutorContracts

/-!
The batch contract of the executors, over children that hand out one list of
rows but may do so in batches that are too large. A filter and a projection
push all that they kept back of a child batch, and a limit cuts off what its
child answers beyond the size; the others keep the contract whatever the child
does.
-/

namespace BusTub

open BatchSource

section Keeping
variable {source : Executor} (kept : source.State → List (Row × RID))
  (Rest : source.State → List (Row × RID) → Prop)

def KeptCareful : source.State → List Nat → Prop
  | _, [] => True
  | state, size :: sizes =>
      ((kept state).length < size ∨ (kept state).length = size ∧ ∀ rest,
        Rest state rest → rest = []) ∧ ∀ batch after, source.next state size = some (batch, after) →
          KeptCareful after sizes

variable {kept Rest}

end Keeping

def ChildEmits {child : Executor} (emit : Row → Option Row) (state : BufferedState child)
    (rows : List (Row × RID)) : Prop :=
  ∃ rest, child.Delivers false state.child rest ∧ rows = emitRows emit rest

def LimitCareful (count : Nat) (child : Executor) : LimitState child → List Nat → Prop
  | _, [] => True
  | state, size :: sizes => LimitKeeps count size state ∧
      ∀ batch after, (limitExecutor count child).next state size = some (batch, after) →
        LimitCareful count child after sizes

namespace Operator

def Careful (fuel : Nat) : (op : Operator) → (op.executor fuel).State → List Nat → Prop
  | .filter predicate child =>
      @KeptCareful (filterExecutor fuel predicate child)
        (fun state : BufferedState child => state.leftover (keepRow predicate))
          (ChildEmits (keepRow predicate))
  | .projection expressions child =>
      @KeptCareful (projectionExecutor expressions child)
        (fun state : BufferedState child => state.leftover (projectRow expressions))
        (ChildEmits (projectRow expressions))
  | .limit count child => LimitCareful count child
  | _ => fun _ _ => True

def Pads : Operator → Prop
  | .nestedLoopJoin plan _ _ => plan.joinType = .left → HasNulls plan.rightSchema
  | .hashJoin plan _ _ => plan.joinType = .left → HasNulls plan.rightSchema
  | _ => True

end Operator

section Starting
variable {fuel : Nat} {child outer inner : Executor} {sizes : List Nat} {rest : List (Row × RID)}

end Starting

def numberRows : List Tuple := [0, 1, 2, 3, 4].map fun number => [⟨.integer, some (.number number)⟩]

def notZero (values : Tuple) : Option Bool := some (values ≠ [⟨.integer, some (.number 0)⟩])

end BusTub
