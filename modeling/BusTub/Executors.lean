import BusTub.BatchSources
import BusTub.TransactionManager

/-!
The executors of `execution/*_executor.cpp`, each with its `Init` and `Next` as
the source has them, over any child executors. An expression is the function it
computes on a tuple, `none` of a predicate is NULL; an evaluation that throws
ends the statement and is left out. A loop runs for at most `fuel` rounds, and a
call whose loop does not end in them answers `none`.
-/

namespace BusTub

def BUSTUB_BATCH_SIZE : Nat := 20

/-- `RID{}`. -/
def RID.invalid : RID := ⟨-1, 0⟩

/-- A `Tuple` of the source: its values and its `rid_`. -/
structure Row where
  values : Tuple
  rid : RID := RID.invalid
  deriving DecidableEq

abbrev Executor := BatchSource Row RID

/-- Of a predicate's value only `true` lets a row through. -/
def holds (value : Option Bool) : Bool := value = some true

/-! ### Scans -/

/-- What a scan finds in the table: the RIDs its iterator visits and what the
transaction sees at each (`GetTupleAndUndoLink`, `CollectUndoLogs`, `ReconstructTuple`). -/
structure TableView where
  rids : List RID
  visible : RID → Option Tuple

/-- The loop of `SeqScanExecutor::Next` and `IndexScanExecutor::Next` over the
RIDs to come, with the rows pushed so far. -/
def scanRids (visible : RID → Option Tuple) (filterPredicate : Predicate) (size : Nat) :
    List RID → List (Row × RID) → List (Row × RID) × List RID
  | [], out => (out, [])
  | rid :: rids, out =>
      if out.length < size then
        match visible rid with
        | none => scanRids visible filterPredicate size rids out
        | some values =>
            if filterPredicate.accepts values then
              scanRids visible filterPredicate size rids (out ++ [(⟨values, rid⟩, rid)])
            else scanRids visible filterPredicate size rids out
      else (out, rid :: rids)

/-- The answer of the executors that hand out what they can and say no when it is nothing. -/
def handOut (out : List (Row × RID)) : Batch Row RID := Batch.pushed (!out.isEmpty) out

/-- The state is the iterator, `nullopt` before `Init`. -/
def seqScanExecutor (view : TableView) (filterPredicate : Predicate) : Executor where
  State := Option (List RID)
  fresh := none
  init _ := some (some view.rids)
  next
    | none, _ => none
    | some rids, size =>
        let (out, rids) := scanRids view.visible filterPredicate size rids []
        some (handOut out, some rids)

/-- `ScanKey` of the index, and its entries in key order for a scan of all of it. -/
structure IndexView where
  scanKey : Value → List RID
  entries : List RID

structure IndexScanPlan where
  predKeys : List Value
  filterPredicate : Predicate

/-- `lookup_rids_` from `lookup_cursor_` on, and the iterator where it is set. -/
structure IndexScanState where
  lookupRids : List RID := []
  iterator : Option (List RID) := none

/-- The keys of `pred_keys_` are looked up one by one, a RID found twice is kept
where it was found first; without keys the whole index is walked. -/
def indexScanExecutor (view : TableView) (index : IndexView) (plan : IndexScanPlan) : Executor where
  State := IndexScanState
  fresh := {}
  init _ :=
    if plan.predKeys.isEmpty then some { iterator := some index.entries }
    else some { lookupRids := (plan.predKeys.flatMap index.scanKey).eraseDups }
  next state size :=
    if plan.predKeys.isEmpty then
      match state.iterator with
      | none => none
      | some rids =>
          let (out, rids) := scanRids view.visible plan.filterPredicate size rids []
          some (handOut out, { state with iterator := some rids })
    else
      let (out, rids) := scanRids view.visible plan.filterPredicate size state.lookupRids []
      some (handOut out, { state with lookupRids := rids })

/-! ### Rows that are there after `Init` -/

/-- `while (cursor < entries.size() && out.size() < size) out.push_back(entries[cursor++])`. -/
def takeEntries (entries : List (Row × RID)) (cursor size : Nat) : List (Row × RID) :=
  (entries.drop cursor).take size

def valuesExecutor (values : List Tuple) : Executor where
  State := Nat
  fresh := 0
  init _ := some 0
  next cursor size :=
    let out := takeEntries (values.map fun row => (⟨row, RID.invalid⟩, RID.invalid)) cursor size
    some (handOut out, cursor + out.length)

structure SortState (child : Executor) where
  child : child.State
  entries : List Row := []
  cursor : Nat := 0

/-- `less` is the `TupleComparator` on the rows with their sort keys; `sort` is
`std::sort`, which is free to place equal rows as it likes. -/
def sortExecutor (fuel : Nat) (sort : (Row → Row → Bool) → List Row → List Row)
    (less : Row → Row → Bool) (child : Executor) : Executor where
  State := SortState child
  fresh := { child := child.fresh }
  init state := do
    let started ← child.init state.child
    let (rows, drained) ← child.drain BUSTUB_BATCH_SIZE fuel started
    return { child := drained, entries := sort less rows, cursor := 0 }
  next state size :=
    let out := takeEntries (state.entries.map fun row => (row, row.rid)) state.cursor size
    some (handOut out, { state with cursor := state.cursor + out.length })

abbrev AggregateKey := List Value
abbrev AggregateValue := List Value

/-- What has been done to an `unordered_map` that may move its entries. -/
inductive MapCall (Key : Type) where
  | insert (key : Key)
  | clear

/-- The keys inserted since the map was cleared; the past is given latest first. -/
def MapCall.keys {Key : Type} : List (MapCall Key) → List Key
  | .insert key :: past => keys past ++ [key]
  | .clear :: _ | [] => []

/-- The order in which the library lists the keys of a map. Only that each key is
listed once is documented, and `clear` may leave its mark: the buckets stay. -/
structure MapOrder (Key : Type) where
  listing : List (MapCall Key) → List Key
  perm : ∀ past, (listing past).Perm (MapCall.keys past)

structure AggregationPlan where
  groupBys : List (Tuple → Value)
  aggregates : List (Tuple → Value)
  generateInitialAggregateValue : AggregateValue
  combineAggregateValues : AggregateValue → AggregateValue → AggregateValue

/-- `SimpleAggregationHashTable`. -/
structure AggregationTable where
  ht : UnorderedMap AggregateKey AggregateValue := ∅
  past : List (MapCall AggregateKey) := []

namespace AggregationTable

def clear (table : AggregationTable) : AggregationTable := { ht := ∅, past := .clear :: table.past }

def insertInitial (plan : AggregationPlan) (table : AggregationTable) (key : AggregateKey) :
    AggregationTable :=
  { ht := table.ht.insert key plan.generateInitialAggregateValue
    past := .insert key :: table.past }

def insertCombine (plan : AggregationPlan) (table : AggregationTable) (key : AggregateKey)
    (value : AggregateValue) :
    AggregationTable :=
  let table := if (table.ht.lookup key).isNone then table.insertInitial plan key else table
  { table with
    ht := table.ht.insert key
      (plan.combineAggregateValues ((table.ht.lookup key).getD plan.generateInitialAggregateValue)
        value) }

/-- The entries from `Begin` to `End`. -/
def entries (order : MapOrder AggregateKey) (table : AggregationTable) :
    List (AggregateKey × AggregateValue) :=
  (order.listing table.past).filterMap fun key =>
    (table.ht.lookup key).map fun value => (key, value)

end AggregationTable

/-- The iterator is the list of the entries from it to the end. -/
structure AggregationState (child : Executor) where
  child : child.State
  aht : AggregationTable := {}
  ahtIterator : List (AggregateKey × AggregateValue) := []

/-- The table that `Init` builds. Without a GROUP BY there is a group for no rows. -/
def AggregationTable.build (plan : AggregationPlan) (aht : AggregationTable) (rows : List Row) :
    AggregationTable :=
  let aht :=
    rows.foldl (fun aht row =>
      aht.insertCombine plan (plan.groupBys.map fun expr => expr row.values)
      (plan.aggregates.map fun expr => expr row.values)) aht.clear
  if aht.ht.entries.isEmpty && plan.groupBys.isEmpty then aht.insertInitial plan [] else aht

def aggregationExecutor (fuel : Nat) (order : MapOrder AggregateKey) (plan : AggregationPlan)
    (child : Executor) :
    Executor where
  State := AggregationState child
  fresh := { child := child.fresh }
  init state := do
    let started ← child.init state.child
    let (rows, drained) ← child.drain BUSTUB_BATCH_SIZE fuel started
    let aht := state.aht.build plan rows
    return { child := drained, aht := aht, ahtIterator := aht.entries order }
  next state size :=
    let out := (state.ahtIterator.take size).map fun entry =>
      (⟨entry.1 ++ entry.2, RID.invalid⟩, RID.invalid)
    some (handOut out, { state with ahtIterator := state.ahtIterator.drop size })

/-! ### One child, read a batch at a time -/

/-- The members of `FilterExecutor` and `ProjectionExecutor`. -/
structure BufferedState (child : Executor) where
  child : child.State
  childTuples : List Row := []
  childRids : List RID := []
  childOffset : Nat := 0

/-- The loop over a child batch: what `emit` makes of its rows is pushed until
there are `size` rows; then also the index behind the last row looked at. -/
def fillBatch (emit : Row → Option Row) (size : Nat) :
    Nat → List (Row × RID) → List (Row × RID) → List (Row × RID) × Option Nat
  | _, [], out => (out, none)
  | index, (tuple, rid) :: rest, out =>
      match emit tuple with
      | none => fillBatch emit size (index + 1) rest out
      | some made =>
          let out := out ++ [(made, rid)]
          if size ≤ out.length then (out, some (index + 1))
          else fillBatch emit size (index + 1) rest out

/-- What `emit` makes of rows. -/
def emitRows (emit : Row → Option Row) (rows : List (Row × RID)) : List (Row × RID) :=
  rows.filterMap fun entry => (emit entry.1).map fun made => (made, entry.2)

namespace BufferedState

variable {child : Executor}

/-- The rows of the last child batch that are still to be looked at. -/
def pending (state : BufferedState child) : List (Row × RID) :=
  if state.childOffset ≠ 0 then (state.childTuples.zip state.childRids).drop state.childOffset
  else []

/-- The first loop of `Next`: all of them, whatever the size. -/
def leftover (emit : Row → Option Row) (state : BufferedState child) : List (Row × RID) :=
  emitRows emit state.pending

/-- The batch that was just read, with the offset that `Next` leaves in it. -/
def keep (after : child.State) (batch : Batch Row RID) (index : Option Nat) :
    BufferedState child where
  child := after
  childTuples := batch.tuples
  childRids := batch.rids
  childOffset :=
    match index with
    | none => 0
    | some index => if index < batch.tuples.length then index else 0

end BufferedState

/-- The `while (true)` of `FilterExecutor::Next`, its leftover already in `out`. -/
def filterFetch (emit : Row → Option Row) (child : Executor) (size : Nat) :
    Nat → child.State → List (Row × RID) → Option (Batch Row RID × BufferedState child)
  | 0, _, _ => none
  | fuel + 1, state, out => do
      let (batch, after) ← child.next state size
      if batch.status then
        match fillBatch emit size 0 batch.rows out with
        | (out, some index) => some (Batch.pushed true out, .keep after batch (some index))
        | (out, none) => filterFetch emit child size fuel after out
      else some (handOut out, .keep after batch none)

def keepRow (predicate : Tuple → Option Bool) (row : Row) : Option Row :=
  if holds (predicate row.values) then some row else none

/-- `Init` leaves `child_tuples_`, `child_rids_` and `child_offset_` as they are. -/
def filterExecutor (fuel : Nat) (predicate : Tuple → Option Bool) (child : Executor) :
    Executor where
  State := BufferedState child
  fresh := { child := child.fresh }
  init state := (child.init state.child).map fun started => { state with child := started }
  next state size :=
    filterFetch (keepRow predicate) child size fuel state.child (state.leftover (keepRow predicate))

/-- `ProjectionExecutor::Next`. -/
def projectFetch (emit : Row → Option Row) (child : Executor) (size : Nat)
    (state : BufferedState child) :
    Option (Batch Row RID × BufferedState child) := do
  let out := state.leftover emit
  let (batch, after) ← child.next state.child size
  if batch.status then
    let (out, index) := fillBatch emit size 0 batch.rows out
    return (handOut out, .keep after batch index)
  else return (handOut out, .keep after batch none)

def projectRow (expressions : List (Tuple → Value)) (row : Row) : Option Row :=
  some { values := expressions.map fun expr => expr row.values }

/-- As in the filter `Init` leaves the buffered batch as it is. -/
def projectionExecutor (expressions : List (Tuple → Value)) (child : Executor) : Executor where
  State := BufferedState child
  fresh := { child := child.fresh }
  init state := (child.init state.child).map fun started => { state with child := started }
  next state size := projectFetch (projectRow expressions) child size state

structure LimitState (child : Executor) where
  child : child.State
  emitted : Nat := 0

def limitExecutor (limit : Nat) (child : Executor) : Executor where
  State := LimitState child
  fresh := { child := child.fresh }
  init state := (child.init state.child).map fun started => { child := started, emitted := 0 }
  next state size :=
    if limit ≤ state.emitted ∨ size = 0 then some (⟨false, [], []⟩, state)
    else do
      let remaining := min size (limit - state.emitted)
      let (batch, after) ← child.next state.child remaining
      if batch.status then
        let exceeds := remaining < batch.tuples.length
        let tuples := if exceeds then batch.tuples.take remaining else batch.tuples
        let rids := if exceeds then batch.rids.take remaining else batch.rids
        return (⟨!tuples.isEmpty, tuples, rids⟩,
          { child := after, emitted := state.emitted + tuples.length })
      else return (batch, { state with child := after })

/-! ### Joins -/

inductive JoinType where
  | inner
  | left
  deriving DecidableEq

/-- The batch pulled from a child and the position in it. -/
structure Cursor (child : Executor) where
  state : child.State
  tuples : List Row := []
  index : Nat := 0

namespace Cursor

variable {child : Executor}

/-- How both joins come to their next left tuple, `none` when the child has no more.
An answer that says yes and brings no row is read beyond its end. -/
def advance (cursor : Cursor child) : Option (Option Row × Cursor child) :=
  match cursor.tuples[cursor.index]? with
  | some row => some (some row, { cursor with index := cursor.index + 1 })
  | none => do
      let (batch, after) ← child.next cursor.state BUSTUB_BATCH_SIZE
      if batch.status then
        match batch.tuples with
        | [] => none
        | row :: _ => return (some row, { state := after, tuples := batch.tuples, index := 1 })
      else return (none, { state := after, tuples := batch.tuples, index := cursor.index })

/-- `FetchNextRightTuple`. -/
def fetchNextRightTuple : Nat → Cursor child → Option (Option Row × Cursor child)
  | 0, _ => none
  | fuel + 1, cursor =>
      match cursor.tuples[cursor.index]? with
      | some row => some (some row, { cursor with index := cursor.index + 1 })
      | none => do
          let (batch, after) ← child.next cursor.state BUSTUB_BATCH_SIZE
          if batch.status then
            fetchNextRightTuple fuel { state := after, tuples := batch.tuples, index := 0 }
          else return (none, { state := after, tuples := batch.tuples, index := cursor.index })

end Cursor

/-- `ValueFactory::GetNullValueByType`, which throws for the types that it does not name. -/
def getNullValueByType : TypeId → Option Value
  | .timestamp | .vector => none
  | typeId => some ⟨typeId, none⟩

/-- `BuildJoinTuple`; where there is no right tuple the NULLs of its columns are made. -/
def buildJoinTuple (rightSchema : Schema) (left : Row) (right : Option Row) :
    Option (Row × RID) := do
  let values ← right.elim (rightSchema.mapM getNullValueByType) fun right => some right.values
  return (⟨left.values ++ values, RID.invalid⟩, RID.invalid)

structure NestedLoopJoinPlan where
  joinType : JoinType
  rightSchema : Schema
  predicate : Tuple → Tuple → Option Bool

/-- `current_left_tuple_` is there when `has_current_left_` is set. -/
structure NestedLoopState (left right : Executor) where
  left : Cursor left
  right : Cursor right
  currentLeft : Option Row := none
  currentMatchFound : Bool := false

/-- The rest of `NestedLoopJoinExecutor::Next`, with the rows pushed so far. -/
def nestedLoopFetch (fuel : Nat) (plan : NestedLoopJoinPlan) (left right : Executor) (size : Nat) :
    Nat → NestedLoopState left right → List (Row × RID) →
      Option (List (Row × RID) × NestedLoopState left right)
  | 0, _, _ => none
  | rounds + 1, state, out =>
      if size ≤ out.length then some (out, state)
      else
        match state.currentLeft with
        | none => do
            let (row, cursor) ← state.left.advance
            match row with
            | none => some (out, { state with left := cursor })
            | some row =>
                -- the right side is scanned again for every left row
                let started ← right.init state.right.state
                nestedLoopFetch fuel plan left right size rounds
                  { left := cursor, right := { state := started }, currentLeft := some row,
                    currentMatchFound := false } out
        | some current => do
            let (row, cursor) ← state.right.fetchNextRightTuple fuel
            match row with
            | none =>
                let done := { state with right := cursor, currentLeft := none }
                if !state.currentMatchFound && plan.joinType = .left then do
                  let padded ← buildJoinTuple plan.rightSchema current none
                  nestedLoopFetch fuel plan left right size rounds done (out ++ [padded])
                else nestedLoopFetch fuel plan left right size rounds done out
            | some row =>
                if holds (plan.predicate current.values row.values) then do
                  let joined ← buildJoinTuple plan.rightSchema current (some row)
                  nestedLoopFetch fuel plan left right size rounds
                    { state with right := cursor, currentMatchFound := true } (out ++ [joined])
                else nestedLoopFetch fuel plan left right size rounds { state with
                  right := cursor } out

def nestedLoopJoinExecutor (fuel : Nat) (plan : NestedLoopJoinPlan) (left right : Executor) :
    Executor where
  State := NestedLoopState left right
  fresh := { left := { state := left.fresh }, right := { state := right.fresh } }
  init state := (left.init state.left.state).map fun started =>
    { state with left := { state := started }, currentLeft := none }
  next state size := do
    let (out, state) ← nestedLoopFetch fuel plan left right size fuel state []
    return (handOut out, state)

abbrev HashJoinKey := List Value

structure HashJoinPlan where
  joinType : JoinType
  rightSchema : Schema
  leftKey : Tuple → HashJoinKey
  rightKey : Tuple → HashJoinKey
  /-- a lookup of the first key finds the second: same hash, and equal by `operator==` -/
  finds : HashJoinKey → HashJoinKey → Bool

/-- The entries of `hash_table_`. -/
abbrev HashJoinTable := List (HashJoinKey × List Row)

/-- `hash_table_[key].push_back(tuple)`. -/
def HashJoinTable.push (finds : HashJoinKey → HashJoinKey → Bool) (key : HashJoinKey) (row : Row) :
    HashJoinTable → HashJoinTable
  | [] => [(key, [row])]
  | (stored, rows) :: rest =>
      if finds key stored then (stored, rows ++ [row]) :: rest
      else (stored, rows) :: HashJoinTable.push finds key row rest

/-- `current_matches_` from `match_idx_` on stand for the two members. -/
structure HashJoinState (left right : Executor) where
  left : Cursor left
  right : right.State
  hashTable : HashJoinTable := []
  currentLeft : Option Row := none
  currentMatches : List Row := []
  currentMatchFound : Bool := false

def HashJoinPlan.lookup (plan : HashJoinPlan) (table : HashJoinTable) (left : Row) : List Row :=
  ((table.find? fun entry => plan.finds (plan.leftKey left.values) entry.1).map Prod.snd).getD []

def HashJoinPlan.build (plan : HashJoinPlan) (rows : List Row) : HashJoinTable :=
  rows.foldl (fun table row => HashJoinTable.push plan.finds (plan.rightKey row.values) row table)
    []

/-- The rest of `HashJoinExecutor::Next`, with the rows pushed so far. -/
def hashJoinFetch (plan : HashJoinPlan) (left right : Executor) (size : Nat) :
    Nat → HashJoinState left right → List (Row × RID) →
      Option (List (Row × RID) × HashJoinState left right)
  | 0, _, _ => none
  | rounds + 1, state, out =>
      if size ≤ out.length then some (out, state)
      else
        match state.currentLeft with
        | none => do
            let (row, cursor) ← state.left.advance
            match row with
            | none => some (out, { state with left := cursor })
            | some row =>
                hashJoinFetch plan left right size rounds
                  { state with
                    left := cursor, currentLeft := some row, currentMatches :=
                      plan.lookup state.hashTable row,
                    currentMatchFound := false } out
        | some current =>
            match state.currentMatches with
            | row :: rest => do
                let joined ← buildJoinTuple plan.rightSchema current (some row)
                hashJoinFetch plan left right size rounds
                  { state with currentMatches := rest, currentMatchFound := true } (out ++ [joined])
            | [] =>
                let done := { state with currentLeft := none }
                if !state.currentMatchFound && plan.joinType = .left then do
                  let padded ← buildJoinTuple plan.rightSchema current none
                  hashJoinFetch plan left right size rounds done (out ++ [padded])
                else hashJoinFetch plan left right size rounds done out

def hashJoinExecutor (fuel : Nat) (plan : HashJoinPlan) (left right : Executor) : Executor where
  State := HashJoinState left right
  fresh := { left := { state := left.fresh }, right := right.fresh }
  init state := do
    let leftStarted ← left.init state.left.state
    let rightStarted ← right.init state.right
    let (rows, drained) ← right.drain BUSTUB_BATCH_SIZE fuel rightStarted
    return { state with
      left := { state := leftStarted }, right := drained, hashTable :=
        plan.build rows, currentLeft := none }
  next state size := do
    let (out, state) ← hashJoinFetch plan left right size fuel state []
    return (handOut out, state)

/-! ### All of them -/

inductive Operator where
  | seqScan (view : TableView) (filterPredicate : Predicate)
  | indexScan (view : TableView) (index : IndexView) (plan : IndexScanPlan)
  | values (rows : List Tuple)
  | filter (predicate : Tuple → Option Bool) (child : Executor)
  | projection (expressions : List (Tuple → Value)) (child : Executor)
  | limit (count : Nat) (child : Executor)
  | nestedLoopJoin (plan : NestedLoopJoinPlan) (left right : Executor)
  | hashJoin (plan : HashJoinPlan) (left right : Executor)
  | sort (stdSort : (Row → Row → Bool) → List Row → List Row) (less : Row → Row → Bool)
      (child : Executor)
  | aggregation (order : MapOrder AggregateKey) (plan : AggregationPlan) (child : Executor)

namespace Operator

def executor (fuel : Nat) : Operator → Executor
  | seqScan view filterPredicate => seqScanExecutor view filterPredicate
  | indexScan view index plan => indexScanExecutor view index plan
  | values rows => valuesExecutor rows
  | filter predicate child => filterExecutor fuel predicate child
  | projection expressions child => projectionExecutor expressions child
  | limit count child => limitExecutor count child
  | nestedLoopJoin plan left right => nestedLoopJoinExecutor fuel plan left right
  | hashJoin plan left right => hashJoinExecutor fuel plan left right
  | sort stdSort less child => sortExecutor fuel stdSort less child
  | aggregation order plan child => aggregationExecutor fuel order plan child

def children : Operator → List Executor
  | seqScan _ _ | indexScan _ _ _ | values _ => []
  | filter _ child | projection _ child | limit _ child | sort _ _ child | aggregation _ _ child =>
      [child]
  | nestedLoopJoin _ left right | hashJoin _ left right => [left, right]

end Operator

end BusTub
