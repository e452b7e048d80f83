import BusTub.Watermark

/-!
The transaction manager of `concurrency/transaction_manager.cpp` and
`transaction_manager_impl.cpp` over the table heap, with `ModifyTuple`,
`InsertTupleMvcc` without its index, `CollectUndoLogs` and `VerifyTxn` of the
callers. What runs under one page latch or under `txn_map_mutex_` is one step;
between two steps of a transaction any other transaction may take one.
`control` is where a transaction stands inside a call. `none` is a call the
state does not allow, one that throws and changes nothing, or one that waits.
-/

namespace BusTub

abbrev TableOid := Nat

structure RID where
  pageId : PageId
  slotNum : Nat
  deriving DecidableEq

/-- A tuple on its page, with the table whose page it is. -/
structure Slot where
  oid : TableOid
  metadata : TupleMeta
  tuple : Tuple

/-- `UpdateTupleInPlaceUnsafe`; `none` is "Tuple size mismatch". -/
def Slot.updateTupleInPlace (slot : Slot) (metadata : TupleMeta) (tuple : Tuple) : Option Slot :=
  if slot.tuple.getLength ≠ tuple.getLength then none
  else some { slot with metadata := metadata, tuple := tuple }

inductive TransactionState where
  | running
  | tainted
  | committed
  | aborted
  deriving DecidableEq

inductive IsolationLevel where
  | readUncommitted
  | snapshotIsolation
  | serializable
  deriving DecidableEq

/-- A filter predicate evaluates to a boolean or to NULL; no predicate is the
null pointer of a scan without a filter. -/
abbrev Predicate := Option (Tuple → Option Bool)

def Predicate.accepts : Predicate → Tuple → Bool
  | none, _ => true
  | some evaluate, tuple => (evaluate tuple).getD false

def INVALID_TS : Timestamp := -1

structure Transaction where
  isolationLevel : IsolationLevel
  state : TransactionState := .running
  readTs : Timestamp
  commitTs : Timestamp := INVALID_TS
  undoLogs : List UndoLog := []
  writeSet : List (TableOid × RID) := []
  scanPredicates : UnorderedMap TableOid (List Predicate) := ∅

namespace Transaction

def appendUndoLog (txn : Transaction) (log : UndoLog) : Transaction :=
  { txn with undoLogs := txn.undoLogs ++ [log] }

def modifyUndoLog (txn : Transaction) (logIdx : Nat) (log : UndoLog) : Transaction :=
  { txn with undoLogs := txn.undoLogs.set logIdx log }

def appendWriteSet (txn : Transaction) (oid : TableOid) (rid : RID) : Transaction :=
  { txn with writeSet := txn.writeSet.insert (oid, rid) }

def appendScanPredicate (txn : Transaction) (oid : TableOid) (predicate : Predicate) :
    Transaction :=
  { txn with
    scanPredicates := txn.scanPredicates.insert oid
      ((txn.scanPredicates.lookup oid).getD [] ++ [predicate]) }

/-- RUNNING or TAINTED: neither committed nor aborted. -/
def live (txn : Transaction) : Bool := txn.state = .running || txn.state = .tainted

end Transaction

/-- The variables of the loop of `VerifyTxn` over the versions of one RID. -/
structure VersionWalk where
  oid : TableOid
  metadata : TupleMeta
  base : Tuple
  link : UndoLink
  current : Option Tuple

inductive Control where
  | idle
  /-- in the loop of `CollectUndoLogs`; the link is valid -/
  | collecting (rid : RID) (base : Tuple) (baseMeta : TupleMeta) (logs : List UndoLog)
      (link : UndoLink)
  /-- a read has returned what the transaction sees at the RID -/
  | returned (rid : RID) (visible : Option Tuple)
  /-- a read has thrown "undo log not exist" -/
  | threw (rid : RID)
  | verifying (rest : List (TableOid × RID)) (walk : Option VersionWalk)
  | stamping (commitTs : Timestamp) (rest : List (TableOid × RID))
  | rollingBack (rest : List (TableOid × RID))

/-- The transaction is between two calls. -/
def Control.atRest : Control → Bool
  | .idle | .returned _ _ | .threw _ => true
  | _ => false

/-- How a call of `ModifyTuple` ends; the last two are exceptions. -/
inductive ModifyResult where
  | done
  | writeConflict
  | sizeMismatch
  deriving DecidableEq

structure TransactionManager where
  catalog : TableOid → Schema
  heap : UnorderedMap RID Slot
  versionInfo : UnorderedMap RID UndoLink
  txnMap : UnorderedMap TxnId Transaction
  lastCommitTs : Timestamp
  nextTxnId : TxnId
  runningTxns : Watermark
  commitMutex : Option TxnId
  control : TxnId → Control

def INT64_MAX : Int := 2 ^ 63 - 1

namespace TransactionManager

open Function (update)

def new (catalog : TableOid → Schema) : TransactionManager where
  catalog := catalog
  heap := ∅
  versionInfo := ∅
  txnMap := ∅
  lastCommitTs := 0
  nextTxnId := TXN_START_ID
  runningTxns := Watermark.new 0
  commitMutex := none
  control := fun _ => .idle

def setTxn (mgr : TransactionManager) (id : TxnId) (txn : Transaction) : TransactionManager :=
  { mgr with txnMap := mgr.txnMap.insert id txn }

def setControl (mgr : TransactionManager) (id : TxnId) (control : Control) : TransactionManager :=
  { mgr with control := update mgr.control id control }

def setSlot (mgr : TransactionManager) (rid : RID) (slot : Slot) : TransactionManager :=
  { mgr with heap := mgr.heap.insert rid slot }

def updateUndoLink (mgr : TransactionManager) (rid : RID) (prevLink : Option UndoLink) :
    TransactionManager :=
  match prevLink with
  | some link => { mgr with versionInfo := mgr.versionInfo.insert rid link }
  | none => { mgr with versionInfo := mgr.versionInfo.erase rid }

def getUndoLink (mgr : TransactionManager) (rid : RID) : Option UndoLink :=
  mgr.versionInfo.lookup rid

def getUndoLogOptional (mgr : TransactionManager) (link : UndoLink) : Option UndoLog :=
  (mgr.txnMap.lookup link.prevTxn).bind fun txn => txn.undoLogs[link.prevLogIdx]?

/-- A transaction that may start a call: RUNNING or TAINTED and in no call. -/
def ready (mgr : TransactionManager) (id : TxnId) : Option Transaction :=
  (mgr.txnMap.lookup id).bind fun txn =>
    if txn.live && (mgr.control id).atRest then some txn else none

/-- The ids end where `txn_id_t` does. -/
def begin (mgr : TransactionManager) (isolationLevel : IsolationLevel) :
    Option TransactionManager :=
  if mgr.nextTxnId + 1 > INT64_MAX then none
  else do
    let runningTxns ← mgr.runningTxns.addTxn mgr.lastCommitTs
    let txn : Transaction := { isolationLevel := isolationLevel, readTs := mgr.lastCommitTs }
    some { mgr.setTxn mgr.nextTxnId txn with
      nextTxnId := mgr.nextTxnId + 1
      runningTxns := runningTxns }

def appendScanPredicate (mgr : TransactionManager) (id : TxnId) (oid : TableOid)
    (predicate : Predicate) : Option TransactionManager := do
  let txn ← mgr.ready id
  some ((mgr.setTxn id (txn.appendScanPredicate oid predicate)).setControl id .idle)

/-! Reading: `GetTupleAndUndoLink`, then `CollectUndoLogs` log by log, then
`ReconstructTuple`. -/

/-- The head of the loop of `CollectUndoLogs`. -/
def collectFrom (rid : RID) (base : Tuple) (baseMeta : TupleMeta) (logs : List UndoLog)
    (link : UndoLink) : Control :=
  if link.isValid then .collecting rid base baseMeta logs link else .returned rid none

def read (mgr : TransactionManager) (id : TxnId) (rid : RID) : Option TransactionManager := do
  let txn ← mgr.ready id
  let slot ← mgr.heap.lookup rid
  if slot.metadata.ts ≤ txn.readTs ∨ slot.metadata.ts = id then
    some (mgr.setControl id (.returned rid (reconstructTuple slot.tuple slot.metadata [])))
  else
    some (mgr.setControl id
      (collectFrom rid slot.tuple slot.metadata [] ((mgr.getUndoLink rid).getD {})))

def fetch (mgr : TransactionManager) (id : TxnId) : Option TransactionManager := do
  let txn ← mgr.txnMap.lookup id
  match mgr.control id with
  | .collecting rid base baseMeta logs link =>
      match mgr.getUndoLogOptional link with
      | none => some (mgr.setControl id (.threw rid))
      | some log =>
          let logs := logs ++ [log]
          if log.ts ≤ txn.readTs then
            some (mgr.setControl id (.returned rid (reconstructTuple base baseMeta logs)))
          else some (mgr.setControl id (collectFrom rid base baseMeta logs log.prevVersion))
  | _ => none

/-! Writing. -/

/-- `ThrowWriteConflict`; on a transaction that is not RUNNING the process ends. -/
def throwWriteConflict (mgr : TransactionManager) (id : TxnId) : Option TransactionManager := do
  let txn ← mgr.ready id
  if txn.state = .running then
    some ((mgr.setTxn id { txn with state := .tainted }).setControl id .idle)
  else none

def conflicts (id : TxnId) (txn : Transaction) (slot : Slot) (requireDeleted : Bool) : Bool :=
  (slot.metadata.ts ≠ id && slot.metadata.ts > txn.readTs) ||
    (requireDeleted && !slot.metadata.isDeleted)

/-- The undo log of a write and the link to it. A slot the transaction created
itself has no log. -/
def recordUndo (mgr : TransactionManager) (id : TxnId) (txn : Transaction) (slot : Slot)
    (link : Option UndoLink) (target : Option Tuple) : Transaction × Option UndoLink :=
  let before := if slot.metadata.isDeleted then none else some slot.tuple
  if slot.metadata.ts = id then
    match link with
    | some own =>
        if own.prevTxn = id then
          match txn.undoLogs[own.prevLogIdx]? with
          | some log =>
              (txn.modifyUndoLog own.prevLogIdx (generateUpdatedUndoLog before target log), link)
          | none => (txn, link)
        else (txn, link)
    | none => (txn, link)
  else
    (txn.appendUndoLog
      (generateNewUndoLog (mgr.catalog slot.oid) before target slot.metadata.ts (link.getD {})),
      some { prevTxn := id, prevLogIdx := txn.undoLogs.length })

/-- The undo log of a write cannot be made: that would compare VECTORs. -/
def undoThrows (mgr : TransactionManager) (id : TxnId) (txn : Transaction) (slot : Slot)
    (link : Option UndoLink) (target : Option Tuple) : Bool :=
  let before := if slot.metadata.isDeleted then none else some slot.tuple
  if slot.metadata.ts = id then
    link.any fun own => own.prevTxn = id &&
      (txn.undoLogs[own.prevLogIdx]?).any fun log => updatedUndoLogThrows log before target
  else newUndoLogThrows (mgr.catalog slot.oid) before target

/-- `ModifyTuple` gets past its test for a conflict and throws before it changes anything. -/
def modifyThrows (mgr : TransactionManager) (id : TxnId) (rid : RID) (target : Option Tuple)
    (requireDeleted : Bool) : Bool :=
  (mgr.ready id).any fun txn => (mgr.heap.lookup rid).any fun slot =>
    !conflicts id txn slot requireDeleted && mgr.undoThrows id txn slot (mgr.getUndoLink rid) target

/-- `ModifyTuple` under its page latch. A tuple is the values that the columns of its
table read from its bytes, and so it fits them. When the new tuple has another size the
call throws after the undo log was recorded and before anything else changed. -/
def modifyTuple (mgr : TransactionManager) (id : TxnId) (rid : RID) (target : Option Tuple)
    (requireDeleted : Bool) : Option (ModifyResult × TransactionManager) := do
  let txn ← mgr.ready id
  let slot ← mgr.heap.lookup rid
  if ∃ tuple ∈ target, ¬ tuple.Fits (mgr.catalog slot.oid) then none
  else if conflicts id txn slot requireDeleted then
    (mgr.throwWriteConflict id).map fun tainted => (.writeConflict, tainted)
  else if mgr.undoThrows id txn slot (mgr.getUndoLink rid) target then none
  else
    let (recorded, link) := mgr.recordUndo id txn slot (mgr.getUndoLink rid) target
    let metadata : TupleMeta := { ts := id, isDeleted := target.isNone }
    match slot.updateTupleInPlace metadata (target.getD slot.tuple) with
    | none => some (.sizeMismatch, (mgr.setTxn id recorded).setControl id .idle)
    | some updated =>
        let written := (mgr.setTxn id (recorded.appendWriteSet slot.oid rid)).setControl id .idle
        some (.done, (written.setSlot rid updated).updateUndoLink rid link)

/-- The insertion into the table heap; the heap picks a RID nobody has. -/
def insertTuple (mgr : TransactionManager) (id : TxnId) (oid : TableOid) (rid : RID)
    (tuple : Tuple) :
    Option TransactionManager := do
  let txn ← mgr.ready id
  if (mgr.heap.lookup rid).isSome ∨ ¬ tuple.Fits (mgr.catalog oid) then none
  else
    let slot : Slot := { oid := oid, metadata := { ts := id, isDeleted := false }, tuple := tuple }
    some (((mgr.setTxn id (txn.appendWriteSet oid rid)).setControl id .idle).setSlot rid slot)

/-! `Commit` with `VerifyTxn`. -/

/-- The RIDs that transactions committed after the snapshot have written in the
tables of which the transaction keeps predicates. -/
def changed (mgr : TransactionManager) (txn : Transaction) : List (TableOid × RID) :=
  (mgr.txnMap.entries.flatMap fun other =>
    if other.2.state = .committed ∧ other.2.commitTs > txn.readTs then
      other.2.writeSet.filter fun write => (txn.scanPredicates.lookup write.1).isSome
    else []).dedup

/-- The lambda `matches`. -/
def matchesAny (txn : Transaction) (oid : TableOid) (row : Option Tuple) : Bool :=
  match row with
  | none => false
  | some tuple =>
      ((txn.scanPredicates.lookup oid).getD []).any fun predicate => predicate.accepts tuple

/-- The commit mutex is taken; a serializable transaction that wrote anything
goes through `VerifyTxn` first. -/
def commit (mgr : TransactionManager) (id : TxnId) : Option TransactionManager := do
  let txn ← mgr.ready id
  if txn.state ≠ .running ∨ mgr.commitMutex.isSome then none
  else
    let locked := { mgr with commitMutex := some id }
    if txn.isolationLevel = .serializable ∧ txn.writeSet ≠ [] then
      some (locked.setControl id (.verifying (mgr.changed txn) none))
    else some (locked.setControl id (.stamping (mgr.lastCommitTs + 1) txn.writeSet))

/-- The next RID of the loop, in whatever order the hash tables have. -/
def verifyRid (mgr : TransactionManager) (id : TxnId) (oid : TableOid) (rid : RID) :
    Option TransactionManager :=
  match mgr.control id with
  | .verifying rest none =>
      if (oid, rid) ∈ rest then do
        let slot ← mgr.heap.lookup rid
        let walk : VersionWalk :=
          { oid := oid, metadata := slot.metadata, base := slot.tuple,
            link := (mgr.getUndoLink rid).getD {},
            current := reconstructTuple slot.tuple slot.metadata [] }
        some (mgr.setControl id (.verifying (rest.erase (oid, rid)) (some walk)))
      else none
  | _ => none

/-- The local `log` of the loop. -/
def logBehind (mgr : TransactionManager) (walk : VersionWalk) : Option UndoLog :=
  if walk.link.isValid then mgr.getUndoLogOptional walk.link else none

/-- The local `before`. -/
def rowBehind (mgr : TransactionManager) (walk : VersionWalk) : Option Tuple :=
  (mgr.logBehind walk).bind fun log => reconstructTuple walk.base walk.metadata [log]

/-- A committed version or the one before it matches; temporary versions are not
committed writes. -/
def walkMatches (mgr : TransactionManager) (txn : Transaction) (walk : VersionWalk) : Bool :=
  walk.metadata.ts < TXN_START_ID &&
    (matchesAny txn walk.oid walk.current || matchesAny txn walk.oid (mgr.rowBehind walk))

def walkBack (mgr : TransactionManager) (walk : VersionWalk) : Option VersionWalk :=
  (mgr.logBehind walk).map fun log =>
    { walk with
      metadata := { ts := log.ts, isDeleted := log.isDeleted }
      base := (mgr.rowBehind walk).getD walk.base
      link := log.prevVersion
      current := mgr.rowBehind walk }

/-- One round of the loop over the versions of a RID, with its condition. -/
def verifyVersion (mgr : TransactionManager) (id : TxnId) : Option TransactionManager := do
  let txn ← mgr.txnMap.lookup id
  match mgr.control id with
  | .verifying rest (some walk) =>
      if walk.metadata.ts ≤ txn.readTs then some (mgr.setControl id (.verifying rest none))
      else if mgr.walkMatches txn walk then
        some ({ mgr with commitMutex := none }.setControl id (.rollingBack txn.writeSet))
      else some (mgr.setControl id (.verifying rest (mgr.walkBack walk)))
  | _ => none

def verified (mgr : TransactionManager) (id : TxnId) : Option TransactionManager := do
  let txn ← mgr.txnMap.lookup id
  match mgr.control id with
  | .verifying [] none => some (mgr.setControl id (.stamping (mgr.lastCommitTs + 1) txn.writeSet))
  | _ => none

/-- One RID of the write set gets the commit timestamp. -/
def stamp (mgr : TransactionManager) (id : TxnId) (oid : TableOid) (rid : RID) :
    Option TransactionManager :=
  match mgr.control id with
  | .stamping commitTs rest =>
      if (oid, rid) ∈ rest then do
        let slot ← mgr.heap.lookup rid
        let next := mgr.setControl id (.stamping commitTs (rest.erase (oid, rid)))
        if slot.metadata.ts = id then do
          let metadata : TupleMeta := { ts := commitTs, isDeleted := slot.metadata.isDeleted }
          let stamped ← slot.updateTupleInPlace metadata slot.tuple
          some (next.setSlot rid stamped)
        else some next
      else none
  | _ => none

/-- The end of `Commit`, under `txn_map_mutex_`. -/
def publish (mgr : TransactionManager) (id : TxnId) : Option TransactionManager := do
  let txn ← mgr.txnMap.lookup id
  match mgr.control id with
  | .stamping commitTs [] =>
      let running := (mgr.runningTxns.updateCommitTs commitTs).removeTxn txn.readTs
      some { (mgr.setTxn id { txn with
        commitTs := commitTs
        state := .committed }).setControl id .idle with
        lastCommitTs := commitTs
        runningTxns := running
        commitMutex := none }
  | _ => none

/-! `Abort`. -/

def abort (mgr : TransactionManager) (id : TxnId) : Option TransactionManager := do
  let txn ← mgr.ready id
  some (mgr.setControl id (.rollingBack txn.writeSet))

/-- One RID of the write set under its page latch. -/
def rollback (mgr : TransactionManager) (id : TxnId) (oid : TableOid) (rid : RID) :
    Option TransactionManager := do
  let txn ← mgr.txnMap.lookup id
  match mgr.control id with
  | .rollingBack rest =>
      if (oid, rid) ∈ rest then do
        let slot ← mgr.heap.lookup rid
        let next := mgr.setControl id (.rollingBack (rest.erase (oid, rid)))
        if slot.metadata.ts ≠ id then some next
        else
          match (mgr.getUndoLink rid).filter fun link => link.prevTxn = id with
          | some link => do
              let log ← txn.undoLogs[link.prevLogIdx]?
              let restored := reconstructTuple slot.tuple slot.metadata [log]
              let metadata : TupleMeta := { ts := log.ts, isDeleted := log.isDeleted }
              let slot ← slot.updateTupleInPlace metadata (restored.getD slot.tuple)
              some ((next.setSlot rid slot).updateUndoLink rid
                (if log.prevVersion.isValid then some log.prevVersion else none))
          | none => do
              let slot ← slot.updateTupleInPlace { ts := 0, isDeleted := true } slot.tuple
              some (next.setSlot rid slot)
      else none
  | _ => none

def aborted (mgr : TransactionManager) (id : TxnId) : Option TransactionManager := do
  let txn ← mgr.txnMap.lookup id
  match mgr.control id with
  | .rollingBack [] =>
      some { (mgr.setTxn id { txn with state := .aborted }).setControl id .idle with
        runningTxns := mgr.runningTxns.removeTxn txn.readTs }
  | _ => none

/-! `GarbageCollection`. -/

/-- The owners of the logs from one link down to the first version that the
watermark does not pass. `fuel` bounds the length of the chain. -/
def neededFrom (mgr : TransactionManager) (watermark : Timestamp) : Nat → UndoLink → List TxnId
  | 0, _ => []
  | fuel + 1, link =>
      if link.isValid then
        match mgr.getUndoLogOptional link with
        | none => []
        | some log =>
            link.prevTxn ::
              (if log.ts ≤ watermark then [] else neededFrom mgr watermark fuel log.prevVersion)
      else []

/-- Timestamps fall along a chain, so none has more versions than there were
commits, besides one that is not committed and one deleted at zero. -/
def needed (mgr : TransactionManager) (watermark : Timestamp) : List TxnId :=
  mgr.heap.entries.flatMap fun entry =>
    if entry.2.metadata.ts ≤ watermark then []
    else mgr.neededFrom watermark (mgr.lastCommitTs.toNat + 2) ((mgr.getUndoLink entry.1).getD {})

def serialReadTs (mgr : TransactionManager) : Timestamp :=
  mgr.txnMap.entries.foldl
    (fun lowest entry =>
      if entry.2.isolationLevel = .serializable ∧ entry.2.live then min lowest entry.2.readTs
      else lowest)
    INT64_MAX

/-- Neither running nor needed by a reader or by a validation. -/
def collectable (mgr : TransactionManager) (id : TxnId) (txn : Transaction) : Bool :=
  !txn.live && id ∉ mgr.needed mgr.runningTxns.getWatermark &&
    (txn.state ≠ .committed || txn.commitTs ≤ mgr.serialReadTs)

/-- The entries of a map that meet a condition, in the same order. -/
def keepEntries {Key Value : Type} (map : UnorderedMap Key Value) (keep : Key → Value → Bool) :
    UnorderedMap Key Value where
  entries := map.entries.filter fun entry => keep entry.1 entry.2
  nodupKeys := map.nodupKeys.sublist List.filter_sublist

/-- Called only while no other call is in progress. -/
def garbageCollection (mgr : TransactionManager) : Option TransactionManager :=
  if mgr.txnMap.keys.all fun id => (mgr.control id).atRest then
    some { mgr with txnMap := keepEntries mgr.txnMap fun id txn => !mgr.collectable id txn }
  else none

end TransactionManager

/-- The steps of the system; a transaction id says who takes the step. -/
inductive TxnOp where
  | begin (isolationLevel : IsolationLevel)
  | scan (id : TxnId) (oid : TableOid) (predicate : Predicate)
  | read (id : TxnId) (rid : RID)
  | fetch (id : TxnId)
  | insert (id : TxnId) (oid : TableOid) (rid : RID) (tuple : Tuple)
  | modify (id : TxnId) (rid : RID) (target : Option Tuple) (requireDeleted : Bool)
  | throwWriteConflict (id : TxnId)
  | commit (id : TxnId)
  | verifyRid (id : TxnId) (oid : TableOid) (rid : RID)
  | verifyVersion (id : TxnId)
  | verified (id : TxnId)
  | stamp (id : TxnId) (oid : TableOid) (rid : RID)
  | publish (id : TxnId)
  | abort (id : TxnId)
  | rollback (id : TxnId) (oid : TableOid) (rid : RID)
  | aborted (id : TxnId)
  | garbageCollection

def TransactionManager.step (mgr : TransactionManager) : TxnOp → Option TransactionManager
  | .begin isolationLevel => mgr.begin isolationLevel
  | .scan id oid predicate => mgr.appendScanPredicate id oid predicate
  | .read id rid => mgr.read id rid
  | .fetch id => mgr.fetch id
  | .insert id oid rid tuple => mgr.insertTuple id oid rid tuple
  | .modify id rid target requireDeleted =>
      (mgr.modifyTuple id rid target requireDeleted).map Prod.snd
  | .throwWriteConflict id => mgr.throwWriteConflict id
  | .commit id => mgr.commit id
  | .verifyRid id oid rid => mgr.verifyRid id oid rid
  | .verifyVersion id => mgr.verifyVersion id
  | .verified id => mgr.verified id
  | .stamp id oid rid => mgr.stamp id oid rid
  | .publish id => mgr.publish id
  | .abort id => mgr.abort id
  | .rollback id oid rid => mgr.rollback id oid rid
  | .aborted id => mgr.aborted id
  | .garbageCollection => mgr.garbageCollection

end BusTub
