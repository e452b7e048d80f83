import BusTub.Expressions
import BusTub.Executors

/-!
The rewrite of `optimizer/nlj_as_hash_join.cpp` and the keys of the hash join:
what `HashUtil` makes of a value, `operator==` and `std::hash` of `HashJoinKey`,
and the plans that the two join executors run.
-/

namespace BusTub

/-! ### Hashes -/

/-- The bits of a double that holds the number. The double -0.0 has no number here: it
compares like 0.0 and hashes apart. -/
def doubleBits (number : Rat) : Nat :=
  let size := mkRat number.num.natAbs number.den
  let exponent := binaryExponent size
  let bits :=
    if number = 0 then 0
    else if exponent < -1022 then (size * powerOfTwo 1074).floor.toNat
    else (exponent + 1022).toNat * (1 <<< 52) + (size * powerOfTwo (52 - exponent)).floor.toNat
  if number < 0 then 1 <<< 63 + bits else bits

def littleEndian (word : UInt64) : List UInt8 :=
  [word, word >>> 8, word >>> 16, word >>> 24, word >>> 32, word >>> 40, word >>> 48,
    word >>> 56].map UInt64.toUInt8

namespace HashUtil

def hashBytes (bytes : List UInt8) : UInt64 :=
  bytes.foldl (fun hash byte =>
    ((hash <<< 5) ^^^ (hash >>> 27)) ^^^ byte.toInt8.toInt64.toUInt64) bytes.length.toUInt64

def combineHashes (left right : UInt64) : UInt64 :=
  hashBytes (littleEndian left ++ littleEndian right)

/-- `HashValue` of a value that is not NULL: of an integer as an `int64_t`, of a
text with its closing zero. -/
def hashValue (typeId : TypeId) : Datum → UInt64
  | .number number =>
      if typeId = .boolean then hashBytes [UInt8.ofNat number.toNat] else hashBytes
        (littleEndian (UInt64.ofInt number))
  | .decimal number => hashBytes (littleEndian (UInt64.ofNat (doubleBits number)))
  | .text text => hashBytes (text ++ [0])

end HashUtil

def hashKey (key : HashJoinKey) : UInt64 :=
  key.foldl (fun currHash value => (value.datum.map fun datum =>
    HashUtil.combineHashes currHash (HashUtil.hashValue value.typeId datum)).getD currHash) 0

/-- `HashJoinKey::operator==`, `none` when a comparison on its way does not come back. -/
def equalKeys : HashJoinKey → HashJoinKey → Option Bool
  | left :: lefts, right :: rights => do
      let answer ← left.compare .equal right
      if answer = some true then equalKeys lefts rights else return false
  | _, _ => some true

def findsKey (key stored : HashJoinKey) : Option Bool :=
  if hashKey key = hashKey stored then equalKeys key stored else some false

/-! ### The rewrite -/

structure NestedLoopJoinPlanNode where
  joinType : JoinType
  predicate : Expression

structure HashJoinPlanNode where
  joinType : JoinType
  leftKeyExpressions : List Expression
  rightKeyExpressions : List Expression

/-- `ExtractEquiConditions`: the keys of each conjunct, left and right; `none` when
there is anything else in the predicate. -/
def extractEquiConditions : Expression → Option (List (Expression × Expression))
  | .logic left right .and => do
      let first ← extractEquiConditions left
      let second ← extractEquiConditions right
      return first ++ second
  | .comparison (.columnValue leftIdx leftCol leftType)
      (.columnValue rightIdx rightCol rightType) .equal =>
      let lhs := Expression.columnValue leftIdx leftCol leftType
      let rhs := Expression.columnValue rightIdx rightCol rightType
      -- the column of the left side may stand on either side of the `=`
      if leftIdx = rightIdx then none else if leftIdx = .left then some [(lhs, rhs)]
      else some [(rhs, lhs)]
  | _ => none

namespace NestedLoopJoinPlanNode

/-- What `OptimizeNLJAsHashJoin` makes of a nested-loop join, if it rewrites it. -/
def asHashJoin (node : NestedLoopJoinPlanNode) : Option HashJoinPlanNode :=
  (extractEquiConditions node.predicate).map fun keys =>
    { joinType := node.joinType
      leftKeyExpressions := keys.map Prod.fst
      rightKeyExpressions := keys.map Prod.snd }

/-- The value of the predicate on two rows, `none` where it does not come back. -/
def answer (node : NestedLoopJoinPlanNode) (left right : Row) : Option (Option Bool) :=
  (node.predicate.evaluateJoin left.values right.values).bind Value.getBoolAsCmpBool

def plan (node : NestedLoopJoinPlanNode) (rightSchema : Schema) : NestedLoopJoinPlan where
  joinType := node.joinType
  rightSchema := rightSchema
  predicate left right :=
    ((node.predicate.evaluateJoin left right).bind Value.getBoolAsCmpBool).join

end NestedLoopJoinPlanNode

def makeJoinKey (keyExprs : List Expression) (tuple : Tuple) :
    Option HashJoinKey := keyExprs.mapM fun expr => expr.evaluate tuple

namespace HashJoinPlanNode

def leftKey (node : HashJoinPlanNode) (row : Row) :
    HashJoinKey := (makeJoinKey node.leftKeyExpressions row.values).getD []

def rightKey (node : HashJoinPlanNode) (row : Row) :
    HashJoinKey := (makeJoinKey node.rightKeyExpressions row.values).getD []

def plan (node : HashJoinPlanNode) (rightSchema : Schema) : HashJoinPlan where
  joinType := node.joinType
  rightSchema := rightSchema
  leftKey tuple := (makeJoinKey node.leftKeyExpressions tuple).getD []
  rightKey tuple := (makeJoinKey node.rightKeyExpressions tuple).getD []
  finds key stored := findsKey key stored = some true

end HashJoinPlanNode

end BusTub
