import BusTub.VersionChain

/-!
The invariant of the version store. `ClockInv` is about transaction ids and
timestamps, `StoreInv` about slots, links and logs against the ledger,
`WriteInv` about write sets, `RecordedInv` about the records of committed
writers that a validation needs, and `CallInv` about transactions inside a call.
-/

namespace BusTub

open TransactionManager (matchesAny)

/-- The timestamp on a slot whose newest row a transaction has written: its own
id until `Commit` has come to the RID. -/
def Control.stampOf (control : Control) (id : TxnId) (rid : RID) : Timestamp :=
  match control with
  | .stamping commitTs rest => if rest.any (fun write => write.2 = rid) then id else commitTs
  | _ => id

/-- What a transaction has written and not yet rolled back. -/
def Control.owes (control : Control) (writeSet : List (TableOid × RID)) : List (TableOid × RID) :=
  match control with
  | .rollingBack rest => rest
  | _ => writeSet

namespace History

def logs (history : History) : UndoLink → Option UndoLog := history.mgr.getUndoLogOptional

def link (history : History) (rid : RID) : UndoLink := (history.mgr.getUndoLink rid).getD {}

def Live (history : History) (id : TxnId) (txn : Transaction) : Prop :=
  history.mgr.txnMap.lookup id = some txn ∧ txn.live = true

def stampOf (history : History) (id : TxnId) (rid : RID) : Timestamp :=
  (history.mgr.control id).stampOf id rid

def owes (history : History) (id : TxnId) (txn : Transaction) : List (TableOid × RID) :=
  (history.mgr.control id).owes txn.writeSet

end History

/-- Two tuples of one table that fit into the same slot. -/
def SameShape (left right : Tuple) : Prop :=
  left.map Value.typeId = right.map Value.typeId ∧ left.getLength = right.getLength

/-- Where the writer of a slot found it: it created the slot, or the log behind
the undo link remembers what stood there. -/
inductive OriginInv (linked : Option UndoLink) (logs : UndoLink → Option UndoLog)
    (image : UndoLink → Stage) (remembered : Option Origin) (id : TxnId)
    (all : List Stage) : Prop where
  | created (unlinked : linked = none) (noOrigin : remembered = none) (fresh : all = [])
  | logged (link : UndoLink) (log : UndoLog) (origin : Origin)
      (own : linked = some link) (owner : link.prevTxn = id)
      (found : logs link = some log) (known : remembered = some origin)
      (same : image link = (origin.metadata.ts,
        if origin.metadata.isDeleted then none else some origin.tuple))
      (prev : log.prevVersion = origin.link.getD {})
      (valid : ∀ older, origin.link = some older → older.isValid = true)

/-- A slot shows the newest committed row of its RID, or the row of the one
transaction that is writing it. -/
inductive SlotInv (history : History) (rid : RID) (slot : Slot) : Prop where
  | settled (row : Option Tuple) (older : List Stage)
      (free : ∀ id, history.ledger.pending id rid = none)
      (whole : StagesOf history.ledger rid ((slot.metadata.ts, row) :: older))
      (shows : Shows slot.tuple slot.metadata.isDeleted row)
      (chain : Chain history.logs history.image history.horizon slot.metadata.ts row
        (history.link rid) older)
  | owned (id : TxnId) (txn : Transaction) (row : Option Tuple) (all : List Stage)
      (live : history.Live id txn)
      (written : history.ledger.pending id rid = some row)
      (alone : ∀ other, other ≠ id → history.ledger.pending other rid = none)
      (shows : Shows slot.tuple slot.metadata.isDeleted row)
      (stamped : slot.metadata.ts = history.stampOf id rid)
      (whole : StagesOf history.ledger rid all)
      (chain : Chain history.logs history.image history.horizon slot.metadata.ts row
        (history.link rid) all)
      (older : ∀ stage ∈ all, stage.1 ≤ txn.readTs)
      (origin : OriginInv (history.mgr.getUndoLink rid) history.logs history.image
        (history.origin id rid) id all)

structure ClockInv (history : History) (ids : List TxnId) : Prop where
  unique : ids.Nodup
  exact : ∀ id, id ∈ ids ↔ ∃ txn, history.Live id txn
  reads : Watermark.Follows history.mgr.runningTxns
    (ids.map fun id => ((history.mgr.txnMap.lookup id).map Transaction.readTs).getD 0)
  commitTs : history.mgr.runningTxns.commitTs = history.mgr.lastCommitTs
  room : history.mgr.lastCommitTs + ids.length + TXN_START_ID ≤ history.mgr.nextTxnId
  bound : history.mgr.nextTxnId ≤ INT64_MAX
  known : ∀ id txn, history.mgr.txnMap.lookup id = some txn →
    TXN_START_ID ≤ id ∧ id < history.mgr.nextTxnId
  readTs : ∀ id txn, history.Live id txn → 0 ≤ txn.readTs ∧ history.horizon ≤ txn.readTs ∧
    txn.readTs ≤ history.mgr.lastCommitTs
  last : 0 ≤ history.mgr.lastCommitTs ∧ history.horizon ≤ history.mgr.lastCommitTs

structure StoreInv (history : History) : Prop where
  slot : ∀ rid slot, history.mgr.heap.lookup rid = some slot → SlotInv history rid slot
  empty : ∀ rid, history.mgr.heap.lookup rid = none → history.mgr.getUndoLink rid = none ∧
    history.ledger.committed rid = [] ∧
    ∀ id, history.ledger.pending id rid = none ∧ history.origin id rid = none
  fits : ∀ rid slot, history.mgr.heap.lookup rid = some slot →
    slot.tuple.Fits (history.mgr.catalog slot.oid)
  pendingShape : ∀ id rid slot tuple, history.mgr.heap.lookup rid = some slot →
    history.ledger.pending id rid = some (some tuple) → SameShape tuple slot.tuple
  committedShape : ∀ rid slot version tuple, history.mgr.heap.lookup rid = some slot →
    version ∈ history.ledger.committed rid → version.row = some tuple → SameShape tuple slot.tuple
  links : ∀ rid link, history.mgr.getUndoLink rid = some link → link.isValid = true
  logs : LogsStand history.logs history.image
  sorted : ∀ rid, (history.ledger.committed rid).Pairwise fun newer older =>
    older.commitTs ≤ newer.readTs
  dated : ∀ rid, ∀ version ∈ history.ledger.committed rid, 1 ≤ version.commitTs ∧
    version.readTs < version.commitTs ∧ version.commitTs ≤ history.mgr.lastCommitTs

structure WriteInv (history : History) : Prop where
  owes : ∀ id txn, history.Live id txn → (history.owes id txn).Nodup ∧
    ∀ oid rid, (oid, rid) ∈ history.owes id txn ↔ (history.ledger.pending id rid).isSome ∧
      ∃ slot, history.mgr.heap.lookup rid = some slot ∧ slot.oid = oid
  live : ∀ id rid, (history.ledger.pending id rid).isSome → ∃ txn, history.Live id txn

/-- Whoever has written since the snapshot of a serializable transaction is still
on record. -/
def RecordedInv (history : History) : Prop :=
  ∀ id txn, history.Live id txn → txn.isolationLevel = .serializable →
    ∀ rid, ∀ version ∈ history.ledger.committed rid, txn.readTs < version.commitTs →
      ∃ writer slot, history.mgr.txnMap.lookup version.writer = some writer ∧
        writer.state = .committed ∧ writer.commitTs = version.commitTs ∧
        history.mgr.heap.lookup rid = some slot ∧ (slot.oid, rid) ∈ writer.writeSet

/-- The timestamp of the version that a read in progress has come to. -/
def readAt (baseMeta : TupleMeta) (logs : List UndoLog) : Timestamp :=
  (logs.getLast?.map UndoLog.ts).getD baseMeta.ts

/-- The values of a read in progress, and what is left of the chain. -/
inductive ReaderInv (history : History) (id : TxnId) (readTs : Timestamp) (rid : RID) (base : Tuple)
    (baseMeta : TupleMeta) (logs : List UndoLog) (link : UndoLink) : Prop where
  | reading (upper : Timestamp) (values : Tuple) (deleted : Bool) (row : Option Tuple)
      (older : List Stage)
      (reached : logs.foldl (fun (values, _) log => (applyUndoLog values log, log.isDeleted))
        (base, baseMeta.isDeleted) = (values, deleted))
      (shows : Shows values deleted row)
      (chain : Chain history.logs history.image history.horizon upper row link older)
      (top : upper = readAt baseMeta logs)
      (late : readTs < upper)
      (lengths : ∀ stage ∈ older, ∀ tuple, stage.2 = some tuple → values.length = tuple.length)
      (rest : pick readTs older = history.ledger.committedAt readTs rid)
      (unwritten : history.ledger.pending id rid = none)
      (valid : link.isValid = true)

/-- A RID of a table with predicates that somebody has written since the snapshot. -/
def Changed (history : History) (txn : Transaction) (oid : TableOid) (rid : RID) : Prop :=
  (txn.scanPredicates.lookup oid).isSome ∧
    (∃ slot, history.mgr.heap.lookup rid = some slot ∧ slot.oid = oid) ∧
    ∃ version ∈ history.ledger.committed rid, txn.readTs < version.commitTs

/-- No predicate accepts the row of the snapshot or a row committed since. -/
def Cleared (history : History) (txn : Transaction) (oid : TableOid) (rid : RID) : Prop :=
  (∀ version ∈ history.ledger.committed rid, txn.readTs < version.commitTs →
      matchesAny txn oid version.row = false) ∧
    matchesAny txn oid (history.ledger.committedAt txn.readTs rid) = false

/-- The loop of `VerifyTxn` stands at one version of a RID, or at an uncommitted
row above all of them; it has refused the versions above. -/
structure WalkInv (history : History) (txn : Transaction) (rid : RID) (walk : VersionWalk)
    (newer older : List Stage) : Prop where
  shows : Shows walk.base walk.metadata.isDeleted walk.current
  chain : Chain history.logs history.image history.horizon walk.metadata.ts walk.current
    walk.link older
  lengths : ∀ stage ∈ older, ∀ tuple, stage.2 = some tuple → walk.base.length = tuple.length
  position : (walk.metadata.ts < TXN_START_ID ∧
      StagesOf history.ledger rid (newer ++ (walk.metadata.ts, walk.current) :: older)) ∨
    (TXN_START_ID ≤ walk.metadata.ts ∧ newer = [] ∧ StagesOf history.ledger rid older)
  refused : ∀ stage ∈ newer, matchesAny txn walk.oid stage.2 = false
  below : newer ≠ [] → matchesAny txn walk.oid walk.current = false

/-- The RIDs that `VerifyTxn` has still to look at. -/
inductive VerifyInv (history : History) (txn : Transaction) (rest : List (TableOid × RID)) :
    Option VersionWalk → Prop where
  | between (left : ∀ oid rid, Changed history txn oid rid →
      (oid, rid) ∈ rest ∨ Cleared history txn oid rid) : VerifyInv history txn rest none
  | walking (walk : VersionWalk) (rid : RID) (newer older : List Stage)
      (walks : WalkInv history txn rid walk newer older)
      (left : ∀ oid place, Changed history txn oid place →
        (oid, place) ∈ rest ∨ Cleared history txn oid place ∨ (oid = walk.oid ∧ place = rid)) :
      VerifyInv history txn rest (some walk)

/-- What `VerifyTxn` has found out when it returns true. -/
def Validated (history : History) (txn : Transaction) : Prop :=
  txn.isolationLevel = .serializable → txn.writeSet ≠ [] →
    ∀ oid rid, Changed history txn oid rid → Cleared history txn oid rid

/-- What holds of a transaction inside a call, or of what its last read returned. -/
def CallInv (history : History) (id : TxnId) : Control → Prop
  | .idle => True
  | .threw _ => False
  | .returned rid visible =>
      ∃ txn, history.Live id txn ∧ visible = history.ledger.sees id txn.readTs rid
  | .collecting rid base baseMeta logs link => ∃ txn, history.Live id txn ∧
      ReaderInv history id txn.readTs rid base baseMeta logs link
  | .verifying rest walk => history.mgr.commitMutex = some id ∧
      ∃ txn, history.mgr.txnMap.lookup id = some txn ∧ txn.state = .running ∧
        VerifyInv history txn rest walk
  | .stamping commitTs rest => history.mgr.commitMutex = some id ∧
      commitTs = history.mgr.lastCommitTs + 1 ∧ rest.Nodup ∧
      ∃ txn, history.mgr.txnMap.lookup id = some txn ∧ txn.state = .running ∧ rest ⊆ txn.writeSet ∧
        Validated history txn
  | .rollingBack _ => ∃ txn, history.Live id txn

structure Inv (history : History) : Prop where
  clock : ∃ ids, ClockInv history ids
  store : StoreInv history
  writes : WriteInv history
  recorded : RecordedInv history
  calls : ∀ id, CallInv history id (history.mgr.control id)

end BusTub
