import BusTub.TransactionManager
import BusTub.TransitionSystem

/-!
What the store is for, said without timestamps in tuples and without undo logs:
a ledger of the rows every committed transaction left behind and of the rows
each running one has written so far. A history runs the transaction manager and
keeps the ledger beside it, with what each undo log was made from.
-/

namespace BusTub

/-- A row that a committed transaction left; `none` is a deleted row. -/
structure Version where
  commitTs : Timestamp
  writer : TxnId
  readTs : Timestamp
  row : Option Tuple

/-- The committed versions of each RID, newest first, and the last write of each
unfinished transaction. -/
structure Ledger where
  committed : RID → List Version
  pending : TxnId → RID → Option (Option Tuple)

namespace Ledger

open Function (update)

def empty : Ledger where
  committed := fun _ => []
  pending := fun _ _ => none

def write (ledger : Ledger) (id : TxnId) (rid : RID) (row : Option Tuple) : Ledger :=
  { ledger with pending := update ledger.pending id (update (ledger.pending id) rid (some row)) }

def undo (ledger : Ledger) (id : TxnId) (rid : RID) : Ledger :=
  { ledger with pending := update ledger.pending id (update (ledger.pending id) rid none) }

/-- All pending rows of a transaction become the newest versions at once. -/
def publish (ledger : Ledger) (id : TxnId) (readTs commitTs : Timestamp) : Ledger where
  committed := fun rid =>
    match ledger.pending id rid with
    | some row =>
        { commitTs := commitTs, writer := id, readTs := readTs, row := row } :: ledger.committed rid
    | none => ledger.committed rid
  pending := update ledger.pending id fun _ => none

/-- The row left by the last transaction that had committed by `ts`. -/
def committedAt (ledger : Ledger) (ts : Timestamp) (rid : RID) : Option Tuple :=
  ((ledger.committed rid).find? fun version => version.commitTs ≤ ts).bind Version.row

/-- What a transaction should see: its own last write, or else its snapshot. -/
def sees (ledger : Ledger) (id : TxnId) (readTs : Timestamp) (rid : RID) : Option Tuple :=
  (ledger.pending id rid).getD (ledger.committedAt readTs rid)

end Ledger

/-- A slot with its undo link, as a transaction found it before its first write. -/
structure Origin where
  metadata : TupleMeta
  tuple : Tuple
  link : Option UndoLink

structure History where
  mgr : TransactionManager
  ledger : Ledger
  /-- the timestamp and the row that each undo log was made from -/
  image : UndoLink → Timestamp × Option Tuple
  origin : TxnId → RID → Option Origin
  /-- the watermark of the last garbage collection -/
  horizon : Timestamp

namespace History

open Function (update)

def start (catalog : TableOid → Schema) : History where
  mgr := TransactionManager.new catalog
  ledger := Ledger.empty
  image := fun _ => (0, none)
  origin := fun _ _ => none
  horizon := -1

def rowOf (slot : Slot) : Option Tuple :=
  if slot.metadata.isDeleted then none else some slot.tuple

/-- A finished `ModifyTuple` is a write of the ledger. -/
def recordModify (history : History) (id : TxnId) (rid : RID) (target : Option Tuple)
    (result : ModifyResult) : History :=
  match history.mgr.txnMap.lookup id, history.mgr.heap.lookup rid with
  | some txn, some slot =>
      let first := slot.metadata.ts ≠ id ∧ result ≠ .writeConflict
      let ownLink : UndoLink := { prevTxn := id, prevLogIdx := txn.undoLogs.length }
      { history with
        ledger := if result = .done then history.ledger.write id rid target else history.ledger
        image :=
          if first then update history.image ownLink (slot.metadata.ts, rowOf slot)
          else history.image
        origin :=
          if first ∧ result = .done then
            update history.origin id (update (history.origin id) rid (some
              { metadata := slot.metadata
                tuple := slot.tuple
                link := history.mgr.getUndoLink rid }))
          else history.origin }
  | _, _ => history

def record (history : History) : TxnOp → History
  | .insert id _ rid tuple => { history with ledger := history.ledger.write id rid (some tuple) }
  | .modify id rid target requireDeleted =>
      match history.mgr.modifyTuple id rid target requireDeleted with
      | some (result, _) => history.recordModify id rid target result
      | none => history
  | .publish id =>
      match history.mgr.txnMap.lookup id, history.mgr.control id with
      | some txn, .stamping commitTs _ =>
          { history with ledger := history.ledger.publish id txn.readTs commitTs }
      | _, _ => history
  | .rollback id _ rid => { history with ledger := history.ledger.undo id rid }
  | .garbageCollection => { history with horizon := history.mgr.runningTxns.getWatermark }
  | _ => history

def step (history : History) (op : TxnOp) : Option History :=
  (history.mgr.step op).map fun mgr => { history.record op with mgr := mgr }

end History

/-- Every state that any number of transactions reach in any order of steps. -/
def Reached (catalog : TableOid → Schema) : History → Prop :=
  TransitionSystem.Reachable (· = History.start catalog) (TransitionSystem.graph History.step)

section Ledgers
variable {ledger : Ledger} {id other : TxnId} {rid place : RID} {row : Option Tuple}
  {readTs commitTs ts : Timestamp}

theorem update_at_other {Entry : Type} {table : TxnId → RID → Entry} {entry : Entry}
    (different : other ≠ id ∨ place ≠ rid) :
    Function.update table id (Function.update (table id) rid entry) other place =
      table other place := by
  by_cases same : other = id
  · subst same
    have elsewhere := different.resolve_left fun apart => apart rfl
    simp [Function.update_of_ne elsewhere]
  · simp [Function.update_of_ne same]

theorem committed_undo : (ledger.undo id rid).committed = ledger.committed := rfl

theorem pending_write_self : (ledger.write id rid row).pending id rid = some row := by
  simp [Ledger.write]

theorem pending_write_other (different : other ≠ id ∨ place ≠ rid) :
    (ledger.write id rid row).pending other place = ledger.pending other place :=
  update_at_other different

theorem pending_undo_self : (ledger.undo id rid).pending id rid = none := by
  simp [Ledger.undo]

theorem pending_undo_other (different : other ≠ id ∨ place ≠ rid) :
    (ledger.undo id rid).pending other place = ledger.pending other place :=
  update_at_other different

theorem pending_publish_self : (ledger.publish id readTs commitTs).pending id rid = none := by
  simp [Ledger.publish]

theorem pending_publish_other (different : other ≠ id) :
    (ledger.publish id readTs commitTs).pending other = ledger.pending other := by
  simp [Ledger.publish, Function.update_of_ne different]

theorem committed_publish (written : ledger.pending id rid = some row) :
    (ledger.publish id readTs commitTs).committed rid =
      { commitTs := commitTs, writer := id, readTs := readTs, row := row } ::
      ledger.committed rid := by
  simp [Ledger.publish, written]

theorem committed_publish_none (unwritten : ledger.pending id rid = none) :
    (ledger.publish id readTs commitTs).committed rid = ledger.committed rid := by
  simp [Ledger.publish, unwritten]

theorem published_version {version : Version}
    (member : version ∈ (ledger.publish id readTs commitTs).committed rid) :
    version ∈ ledger.committed rid ∨ ∃ row, ledger.pending id rid = some row ∧
      version = { commitTs := commitTs, writer := id, readTs := readTs, row := row } := by
  cases written : ledger.pending id rid with
  | none =>
      rw [committed_publish_none written] at member
      exact Or.inl member
  | some row =>
      rw [committed_publish written] at member
      rcases List.mem_cons.mp member with new | old
      · exact Or.inr ⟨row, rfl, new⟩
      · exact Or.inl old

/-- A commit is not seen by those who read before it. -/
theorem committed_at_publish (before : ts < commitTs) :
    (ledger.publish id readTs commitTs).committedAt ts rid = ledger.committedAt ts rid := by
  unfold Ledger.committedAt
  cases written : ledger.pending id rid with
  | none => rw [committed_publish_none written]
  | some row =>
      rw [committed_publish written, List.find?_cons_of_neg]
      simpa using before

end Ledgers

end BusTub
