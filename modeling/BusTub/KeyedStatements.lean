import BusTub.SnapshotReads

/-!
INSERT, UPDATE and DELETE on a table with a primary key, as their executors and
`InsertTupleMvcc` run them over the transaction manager. The index is a map into
which a key goes once. Between two steps of a statement the transaction manager
may take a step of any other transaction. An exception ends the statement.
-/

namespace BusTub

/-- `KeyFromTuple`. -/
def keyFromTuple (keyAttrs : List Nat) (tuple : Tuple) : Tuple :=
  keyAttrs.filterMap fun column => tuple[column]?

/-- A table and the columns of its primary key. -/
structure TableInfo where
  oid : TableOid
  keyAttrs : List Nat

/-- Where a statement stands. -/
inductive Statement where
  | none
  /-- the child of an UPDATE or, without target expressions, of a DELETE yields rows -/
  | gathering (target : Option (Tuple → Tuple)) (rows : List (RID × Tuple))
  /-- in the loop that calls `ModifyTuple`; then come the inserts -/
  | modifying (updates : List (RID × Option Tuple)) (inserts : List Tuple)
  /-- before the next call of `InsertTupleMvcc` -/
  | inserting (tuples : List Tuple)
  /-- `ScanKey` has found the key -/
  | reviving (rid : RID) (tuple : Tuple) (rest : List Tuple)
  /-- `ScanKey` has not found it -/
  | placing (tuple : Tuple) (rest : List Tuple)
  /-- the tuple is in the table heap and its key not in the index yet -/
  | indexing (rid : RID) (tuple : Tuple) (rest : List Tuple)

/-- The loop of `InsertTupleMvcc` goes on or the statement has ended. -/
def Statement.next : List Tuple → Statement
  | [] => .none
  | tuples => .inserting tuples

structure KeyedStore where
  history : History
  index : UnorderedMap Tuple RID
  statement : TxnId → Statement

inductive KeyedOp where
  /-- a step of the transaction manager outside the writes of statements -/
  | txn (op : TxnOp)
  | insertRows (id : TxnId) (tuples : List Tuple)
  | updateRows (id : TxnId) (target : Tuple → Tuple)
  | deleteRows (id : TxnId)
  | gather (id : TxnId)
  | gathered (id : TxnId)
  | modifyNext (id : TxnId)
  | scanKey (id : TxnId)
  | revive (id : TxnId)
  | place (id : TxnId) (rid : RID)
  | noRoom (id : TxnId)
  | insertEntry (id : TxnId)

namespace KeyedStore

open Function (update)

def start (catalog : TableOid → Schema) : KeyedStore where
  history := History.start catalog
  index := ∅
  statement := fun _ => .none

def setStatement (store : KeyedStore) (id : TxnId) (statement : Statement) : KeyedStore :=
  { store with statement := update store.statement id statement }

/-- The rows that an UPDATE moves to another key. -/
def moved (table : TableInfo) (target : Tuple → Tuple) (rows : List (RID × Tuple))
    (rid : RID) : Bool :=
  rows.any fun row => row.1 = rid &&
    keyFromTuple table.keyAttrs row.2 ≠ keyFromTuple table.keyAttrs (target row.2)

/-- What an UPDATE or a DELETE does with the rows it has gathered. -/
def writes (table : TableInfo) (target : Option (Tuple → Tuple))
    (rows : List (RID × Tuple)) : Statement :=
  match target with
  | none => .modifying (rows.map fun row => (row.1, none)) []
  | some target =>
      let moved := moved table target rows
      .modifying (rows.map fun row => (row.1, if moved row.1 then none else some (target row.2)))
        ((rows.filter fun row => moved row.1).map fun row => target row.2)

/-- The step of the transaction manager, and where the statement stands after it. -/
def act (store : KeyedStore) (op : TxnOp) (id : TxnId) (statement : Statement) :
    Option KeyedStore :=
  (store.history.step op).map fun history =>
    { store with history := history }.setStatement id statement

/-- A call of `ModifyTuple`; what it throws ends the statement. -/
def modify (store : KeyedStore) (id : TxnId) (rid : RID) (target : Option Tuple)
    (requireDeleted : Bool) (next : Statement) : Option KeyedStore := do
  let (result, _) ← store.history.mgr.modifyTuple id rid target requireDeleted
  store.act (.modify id rid target requireDeleted) id (if result = .done then next else .none)

/-- The child of a statement scans and reads; the other steps come between
statements, which alone write this table. No collection. -/
def mayTake (table : TableInfo) (store : KeyedStore) : TxnOp → Bool
  | .begin _ => true
  | .garbageCollection => false
  | .scan id _ _ | .read id _ | .fetch id =>
      match store.statement id with
      | .none | .gathering _ _ => true
      | _ => false
  | .insert id oid _ _ => oid ≠ table.oid && (store.statement id matches .none)
  | .modify id rid _ _ =>
      (store.history.mgr.heap.lookup rid).any (fun slot => slot.oid ≠ table.oid) &&
        (store.statement id matches .none)
  | op => op.actor.all fun id => store.statement id matches .none

def step (table : TableInfo) (store : KeyedStore) : KeyedOp → Option KeyedStore
  | .txn op =>
      if store.mayTake table op then (store.history.step op).map fun history =>
        { store with history := history }
      else none
  | .insertRows id tuples =>
      match store.statement id with
      | .none => (store.history.mgr.ready id).map fun _ => store.setStatement id (.next tuples)
      | _ => none
  | .updateRows id target =>
      match store.statement id with
      | .none =>
          (store.history.mgr.ready id).map fun _ =>
            store.setStatement id (.gathering (some target) [])
      | _ => none
  | .deleteRows id =>
      match store.statement id with
      | .none =>
          (store.history.mgr.ready id).map fun _ => store.setStatement id (.gathering none [])
      | _ => none
  | .gather id =>
      match store.statement id, store.history.mgr.control id with
      | .gathering target rows, .returned rid (some tuple) =>
          if (store.history.mgr.heap.lookup rid).any fun slot => slot.oid = table.oid then
            some (store.setStatement id (.gathering target (rows ++ [(rid, tuple)])))
          else none
      | _, _ => none
  | .gathered id =>
      match store.statement id with
      | .gathering target rows => some (store.setStatement id (writes table target rows))
      | _ => none
  | .modifyNext id =>
      match store.statement id with
      | .modifying [] inserts => some (store.setStatement id (.next inserts))
      | .modifying ((rid, target) :: rest) inserts =>
          store.modify id rid target false (.modifying rest inserts)
      | _ => none
  | .scanKey id =>
      match store.statement id with
      | .inserting (tuple :: rest) => some (store.setStatement id
          (match store.index.lookup (keyFromTuple table.keyAttrs tuple) with
          | some rid => .reviving rid tuple rest
          | none => .placing tuple rest))
      | _ => none
  | .revive id =>
      match store.statement id with
      | .reviving rid tuple rest => store.modify id rid (some tuple) true (.next rest)
      | _ => none
  | .place id rid =>
      match store.statement id with
      | .placing tuple rest =>
          store.act (.insert id table.oid rid tuple) id (.indexing rid tuple rest)
      | _ => none
  | .noRoom id =>
      match store.statement id with
      | .placing _ _ => store.act (.throwWriteConflict id) id .none
      | _ => none
  | .insertEntry id =>
      match store.statement id with
      | .indexing rid tuple rest =>
          let key := keyFromTuple table.keyAttrs tuple
          if (store.index.lookup key).isSome then store.act (.throwWriteConflict id) id .none
          else some
            ({ store with index := store.index.insert key rid }.setStatement id (.next rest))
      | _ => none

end KeyedStore

/-- Every state that any number of transactions reach with their statements. -/
def KeyedReached (catalog : TableOid → Schema) (table : TableInfo) : KeyedStore → Prop :=
  TransitionSystem.Reachable (· = KeyedStore.start catalog)
    (TransitionSystem.graph (KeyedStore.step table))

end BusTub
