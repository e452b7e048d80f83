import BusTub.MvccInvariant

/-!
What a step leaves alone. A step of one transaction changes its own record and
its own place in a call, and at most one slot; the lemmas here carry the
invariant over everything else.
-/

namespace BusTub

open Function (update)

namespace TransactionManager

section Lookups
variable {mgr : TransactionManager} {id other : TxnId} {txn old : Transaction} {rid place : RID}

@[simp] theorem lookup_set_txn : (mgr.setTxn id txn).txnMap.lookup id = some txn := by
  simp [setTxn]

theorem lookup_set_txn_other (different : other ≠ id) :
    (mgr.setTxn id txn).txnMap.lookup other = mgr.txnMap.lookup other := by
  simp [setTxn, AList.lookup_insert_ne different]

@[simp] theorem control_set_control (control : Control) :
    (mgr.setControl id control).control id = control := by
  simp [setControl]

theorem control_set_control_other (different : other ≠ id) (control : Control) :
    (mgr.setControl id control).control other = mgr.control other := by
  simp [setControl, Function.update_of_ne different]

theorem logs_of_lookup {after : TransactionManager}
    (same : ∀ id, (after.txnMap.lookup id).map Transaction.undoLogs =
      (mgr.txnMap.lookup id).map Transaction.undoLogs) :
    after.getUndoLogOptional = mgr.getUndoLogOptional := by
  funext link
  unfold getUndoLogOptional
  have owner := same link.prevTxn
  cases found : mgr.txnMap.lookup link.prevTxn with
  | none =>
      rw [found] at owner
      rw [Option.map_eq_none_iff.mp owner]
  | some txn =>
      rw [found] at owner
      obtain ⟨txn', found', logs⟩ := Option.map_eq_some_iff.mp owner
      rw [found', Option.bind_some, Option.bind_some, logs]

theorem get_undo_link_update (link : Option UndoLink) :
    (mgr.updateUndoLink rid link).getUndoLink rid = link := by
  cases link <;> simp [updateUndoLink, getUndoLink]

theorem get_undo_link_update_other (different : place ≠ rid) (link : Option UndoLink) :
    (mgr.updateUndoLink rid link).getUndoLink place = mgr.getUndoLink place := by
  cases link
  · simp [updateUndoLink, getUndoLink, AList.lookup_erase_ne different]
  · simp [updateUndoLink, getUndoLink, AList.lookup_insert_ne different]

theorem update_undo_link_rest (link : Option UndoLink) :
    (mgr.updateUndoLink rid link).heap = mgr.heap ∧
      (mgr.updateUndoLink rid link).txnMap = mgr.txnMap ∧
      (mgr.updateUndoLink rid link).control = mgr.control ∧
      (mgr.updateUndoLink rid link).catalog = mgr.catalog ∧
      (mgr.updateUndoLink rid link).lastCommitTs = mgr.lastCommitTs ∧
      (mgr.updateUndoLink rid link).nextTxnId = mgr.nextTxnId ∧
      (mgr.updateUndoLink rid link).runningTxns = mgr.runningTxns ∧
      (mgr.updateUndoLink rid link).commitMutex = mgr.commitMutex := by
  cases link <;> exact ⟨rfl, rfl, rfl, rfl, rfl, rfl, rfl, rfl⟩

theorem ready_iff : mgr.ready id = some txn ↔
    mgr.txnMap.lookup id = some txn ∧ txn.live = true ∧ (mgr.control id).atRest = true := by
  unfold ready
  cases mgr.txnMap.lookup id with
  | none => simp
  | some found =>
      by_cases rest : (found.live && (mgr.control id).atRest) = true
      · simp only [Option.bind_some, rest, if_true, Option.some.injEq]
        rw [Bool.and_eq_true] at rest
        constructor
        · rintro rfl
          exact ⟨rfl, rest⟩
        · exact fun same => same.1
      · simp only [Option.bind_some, rest, if_false, Option.some.injEq, Bool.false_eq_true]
        rw [Bool.and_eq_true] at rest
        constructor
        · intro impossible
          cases impossible
        · rintro ⟨rfl, live, still⟩
          exact absurd ⟨live, still⟩ rest

end Lookups

end TransactionManager

/-- All that the invariant of one slot looks at is as before, or its logs have grown. -/
structure SlotFrame (before after : History) (rid : RID) : Prop where
  committed : after.ledger.committed rid = before.ledger.committed rid
  pending : ∀ id, after.ledger.pending id rid = before.ledger.pending id rid
  origin : ∀ id, after.origin id rid = before.origin id rid
  link : after.mgr.getUndoLink rid = before.mgr.getUndoLink rid
  logs : LogsGrow before.logs before.image after.logs after.image
  horizon : after.horizon = before.horizon
  live : ∀ id txn, before.Live id txn → (before.ledger.pending id rid).isSome →
    ∃ txn', after.Live id txn' ∧ txn'.readTs = txn.readTs
  stamp : ∀ id, (before.ledger.pending id rid).isSome → after.stampOf id rid = before.stampOf id rid

section Slots
variable {before after : History} {rid : RID} {slot : Slot} {all : List Stage} {id : TxnId}

theorem stages_of_same {ledger ledger' : Ledger}
    (same : ledger'.committed rid = ledger.committed rid) :
    StagesOf ledger' rid all ↔ StagesOf ledger rid all := by
  unfold StagesOf Ledger.stages
  rw [same]

theorem origin_grows {linked : Option UndoLink} {remembered : Option Origin}
    {logs logs' : UndoLink → Option UndoLog} {image image' : UndoLink → Stage}
    (grows : LogsGrow logs image logs' image')
    (origin : OriginInv linked logs image remembered id all) :
    OriginInv linked logs' image' remembered id all := by
  cases origin with
  | created unlinked noOrigin fresh => exact OriginInv.created unlinked noOrigin fresh
  | logged link log origin own owner found known same prev valid =>
      obtain ⟨log', found', sameImage, samePrev, _⟩ := grows link log found
      exact OriginInv.logged link log' origin own owner found' known (sameImage ▸ same)
        (samePrev.trans prev) valid

theorem slot_frame (frame : SlotFrame before after rid) (inv : SlotInv before rid slot) :
    SlotInv after rid slot := by
  have link : after.link rid = before.link rid := by rw [History.link, History.link, frame.link]
  cases inv with
  | settled row older free whole shows chain =>
      refine SlotInv.settled row older (fun id => (frame.pending id).trans (free id))
        ((stages_of_same frame.committed).mpr whole) shows ?_
      rw [link, frame.horizon]
      exact chain_grows frame.logs chain
  | owned id txn row all live written alone shows stamped whole chain older origin =>
      obtain ⟨txn', live', readTs⟩ := frame.live id txn live (by rw [written]; rfl)
      refine SlotInv.owned id txn' row all live' ((frame.pending id).trans written)
        (fun other different => (frame.pending other).trans (alone other different)) shows
        (stamped.trans (frame.stamp id (by rw [written]; rfl)).symm)
        ((stages_of_same frame.committed).mpr whole) ?_ (by rw [readTs]; exact older)
        (by rw [frame.link, frame.origin]; exact origin_grows frame.logs origin)
      rw [link, frame.horizon]
      exact chain_grows frame.logs chain

end Slots

/-- A slot stays in its table. -/
def SameTables (before after : History) : Prop :=
  ∀ rid slot, before.mgr.heap.lookup rid = some slot →
    ∃ slot', after.mgr.heap.lookup rid = some slot' ∧ slot'.oid = slot.oid

/-- All that a transaction inside a call looks at, seen from the step of another. -/
structure CallFrame (before after : History) (id : TxnId) : Prop where
  txn : after.mgr.txnMap.lookup id = before.mgr.txnMap.lookup id
  control : after.mgr.control id = before.mgr.control id
  pending : ∀ rid, after.ledger.pending id rid = before.ledger.pending id rid
  committedAt : ∀ ts rid, ts ≤ before.mgr.lastCommitTs →
    after.ledger.committedAt ts rid = before.ledger.committedAt ts rid
  tables : SameTables before after
  logs : LogsGrow before.logs before.image after.logs after.image
  horizon : after.horizon = before.horizon
  mutex : before.mgr.commitMutex = some id →
    after.mgr.commitMutex = some id ∧ after.mgr.lastCommitTs = before.mgr.lastCommitTs ∧
      after.ledger.committed = before.ledger.committed

section Calls
variable {before after : History} {id : TxnId} {txn : Transaction} {rid : RID} {oid : TableOid}

theorem live_of_lookup (same : after.mgr.txnMap.lookup id = before.mgr.txnMap.lookup id)
    (live : before.Live id txn) : after.Live id txn :=
  ⟨same.trans live.1, live.2⟩

theorem sees_frame (frame : CallFrame before after id) {ts : Timestamp}
    (bound : ts ≤ before.mgr.lastCommitTs) (rid : RID) :
    after.ledger.sees id ts rid = before.ledger.sees id ts rid := by
  rw [Ledger.sees, Ledger.sees, frame.pending, frame.committedAt ts rid bound]

theorem reader_frame (frame : CallFrame before after id) {readTs : Timestamp}
    (bound : readTs ≤ before.mgr.lastCommitTs) {base : Tuple} {baseMeta : TupleMeta}
    {logs : List UndoLog} {link : UndoLink}
    (reader : ReaderInv before id readTs rid base baseMeta logs link) :
    ReaderInv after id readTs rid base baseMeta logs link := by
  cases reader with
  | reading upper values deleted row older reached shows chain top late lengths rest
      unwritten valid =>
      refine ReaderInv.reading upper values deleted row older reached shows ?_ top late lengths
        (rest.trans (frame.committedAt readTs rid bound).symm)
          ((frame.pending rid).trans unwritten) valid
      rw [frame.horizon]
      exact chain_grows frame.logs chain

/-- While the committed versions stay, so does what a validation is about. -/
theorem changed_frame (store : StoreInv before) (tables : SameTables before after)
    (committed : after.ledger.committed = before.ledger.committed)
    (changed : Changed after txn oid rid) : Changed before txn oid rid := by
  obtain ⟨kept, ⟨slot', now, sameOid⟩, version, member, late⟩ := changed
  rw [committed] at member
  cases found : before.mgr.heap.lookup rid with
  | none =>
      rw [(store.empty rid found).2.1] at member
      cases member
  | some slot =>
      obtain ⟨other, here, oid'⟩ := tables rid slot found
      obtain rfl : slot' = other := Option.some.inj (now.symm.trans here)
      exact ⟨kept, ⟨slot, found, oid'.symm.trans sameOid⟩, version, member, late⟩

theorem cleared_frame (committed : after.ledger.committed = before.ledger.committed)
    (cleared : Cleared before txn oid rid) :
    Cleared after txn oid rid := by
  unfold Cleared Ledger.committedAt
  rw [committed]
  exact cleared

theorem validated_frame (store : StoreInv before) (tables : SameTables before after)
    (committed : after.ledger.committed = before.ledger.committed)
    (validated : Validated before txn) : Validated after txn :=
  fun serializable wrote oid rid changed =>
    cleared_frame committed
      (validated serializable wrote oid rid (changed_frame store tables committed changed))

theorem walk_frame (committed : after.ledger.committed = before.ledger.committed)
    (logs : LogsGrow before.logs before.image after.logs after.image)
    (horizon : after.horizon = before.horizon) {walk : VersionWalk} {newer older : List Stage}
    (walks : WalkInv before txn rid walk newer older) :
    WalkInv after txn rid walk newer older where
  shows := walks.shows
  chain := horizon ▸ chain_grows logs walks.chain
  lengths := walks.lengths
  position := by
    rw [stages_of_same (congrFun committed rid), stages_of_same (congrFun committed rid)]
    exact walks.position
  refused := walks.refused
  below := walks.below

theorem verify_frame (store : StoreInv before) (tables : SameTables before after)
    (logs : LogsGrow before.logs before.image after.logs after.image)
    (horizon : after.horizon = before.horizon)
    (committed : after.ledger.committed = before.ledger.committed) {rest : List (TableOid × RID)}
    {walk : Option VersionWalk} (verify : VerifyInv before txn rest walk) :
    VerifyInv after txn rest walk := by
  cases verify with
  | between left =>
      refine VerifyInv.between fun oid rid changed => ?_
      rcases left oid rid (changed_frame store tables committed changed) with ahead | cleared
      · exact Or.inl ahead
      · exact Or.inr (cleared_frame committed cleared)
  | walking walk rid newer older walks left =>
      refine VerifyInv.walking walk rid newer older (walk_frame committed logs horizon walks)
        fun oid place changed => ?_
      rcases left oid place (changed_frame store tables committed changed) with ahead |
        cleared | here
      · exact Or.inl ahead
      · exact Or.inr (Or.inl (cleared_frame committed cleared))
      · exact Or.inr (Or.inr here)

theorem call_frame {ids : List TxnId} (clock : ClockInv before ids) (store : StoreInv before)
    (frame : CallFrame before after id) (call : CallInv before id (before.mgr.control id)) :
    CallInv after id (after.mgr.control id) := by
  rw [frame.control]
  have bound {txn : Transaction} (live : before.Live id txn) := (clock.readTs id txn live).2.2
  cases stage : before.mgr.control id with
  | idle => trivial
  | threw rid =>
      rw [stage] at call
      exact call
  | returned rid visible =>
      rw [stage] at call
      obtain ⟨txn, live, same⟩ := call
      exact ⟨txn, live_of_lookup frame.txn live,
        same.trans (sees_frame frame (bound live) rid).symm⟩
  | collecting rid base baseMeta logs link =>
      rw [stage] at call
      obtain ⟨txn, live, reader⟩ := call
      exact ⟨txn, live_of_lookup frame.txn live, reader_frame frame (bound live) reader⟩
  | verifying rest walk =>
      rw [stage] at call
      obtain ⟨mutex, txn, found, running, verify⟩ := call
      obtain ⟨mutex', _, committed⟩ := frame.mutex mutex
      exact ⟨mutex', txn, frame.txn.trans found, running,
        verify_frame store frame.tables frame.logs frame.horizon committed verify⟩
  | stamping commitTs rest =>
      rw [stage] at call
      obtain ⟨mutex, next, unique, txn, found, running, inside, validated⟩ := call
      obtain ⟨mutex', last, committed⟩ := frame.mutex mutex
      exact ⟨mutex', last ▸ next, unique, txn, frame.txn.trans found, running, inside,
        validated_frame store frame.tables committed validated⟩
  | rollingBack rest =>
      rw [stage] at call
      obtain ⟨txn, live⟩ := call
      exact ⟨txn, live_of_lookup frame.txn live⟩

end Calls

/-- What every step of a transaction inside its calls has in common: the actor's
record may change but for its snapshot, and logs may grow. -/
structure Acts (before after : History) (id : TxnId) : Prop where
  catalog : after.mgr.catalog = before.mgr.catalog
  lastCommitTs : after.mgr.lastCommitTs = before.mgr.lastCommitTs
  nextTxnId : after.mgr.nextTxnId = before.mgr.nextTxnId
  runningTxns : after.mgr.runningTxns = before.mgr.runningTxns
  horizon : after.horizon = before.horizon
  logs : LogsGrow before.logs before.image after.logs after.image
  stand : LogsStand after.logs after.image
  others : ∀ other, other ≠ id → after.mgr.txnMap.lookup other = before.mgr.txnMap.lookup other
  own : ∃ txn txn', before.Live id txn ∧ after.Live id txn' ∧ txn'.readTs = txn.readTs ∧
    txn'.isolationLevel = txn.isolationLevel
  control : ∀ other, other ≠ id → after.mgr.control other = before.mgr.control other
  mutex : ∀ other, other ≠ id → before.mgr.commitMutex = some other →
    after.mgr.commitMutex = some other
  committed : after.ledger.committed = before.ledger.committed
  tables : SameTables before after

section Actors
variable {before after : History} {id other : TxnId} {txn : Transaction} {ids : List TxnId}

theorem stamp_other (same : after.mgr.control other = before.mgr.control other)
    (rid : RID) : after.stampOf other rid = before.stampOf other rid := by
  rw [History.stampOf, History.stampOf, same]

theorem owes_other (same : after.mgr.control other = before.mgr.control other)
    (txn : Transaction) : after.owes other txn = before.owes other txn := by
  rw [History.owes, History.owes, same]

theorem acts_live (acts : Acts before after id) (live : before.Live other txn) :
    ∃ txn', after.Live other txn' ∧ txn'.readTs = txn.readTs := by
  by_cases same : other = id
  · obtain ⟨old, txn', was, now, readTs, _⟩ := acts.own
    subst same
    obtain rfl : old = txn := Option.some.inj (was.1.symm.trans live.1)
    exact ⟨txn', now, readTs⟩
  · exact ⟨txn, live_of_lookup (acts.others other same) live, rfl⟩

theorem acts_live_back (acts : Acts before after id) (live : after.Live other txn) :
    ∃ txn', before.Live other txn' ∧ txn'.readTs = txn.readTs ∧
      txn'.isolationLevel = txn.isolationLevel ∧ (other ≠ id → txn' = txn) := by
  by_cases same : other = id
  · obtain ⟨old, txn', was, now, readTs, isolationLevel⟩ := acts.own
    subst same
    obtain rfl : txn' = txn := Option.some.inj (now.1.symm.trans live.1)
    exact ⟨old, was, readTs.symm, isolationLevel.symm, fun different => absurd rfl different⟩
  · exact ⟨txn, live_of_lookup (acts.others other same).symm live, rfl, rfl, fun _ => rfl⟩

theorem acts_clock (acts : Acts before after id) (clock : ClockInv before ids) :
    ClockInv after ids := by
  have exact' (other : TxnId) : (∃ txn, after.Live other txn) ↔ ∃ txn, before.Live other txn := by
    constructor
    · rintro ⟨txn, live⟩
      obtain ⟨txn', live', _⟩ := acts_live_back acts live
      exact ⟨txn', live'⟩
    · rintro ⟨txn, live⟩
      obtain ⟨txn', live', _⟩ := acts_live acts live
      exact ⟨txn', live'⟩
  have reads (other : TxnId) : ((after.mgr.txnMap.lookup other).map Transaction.readTs).getD 0 =
      ((before.mgr.txnMap.lookup other).map Transaction.readTs).getD 0 := by
    by_cases same : other = id
    · obtain ⟨txn, txn', was, now, readTs, _⟩ := acts.own
      subst same
      rw [was.1, now.1, Option.map_some, Option.map_some, readTs]
    · rw [acts.others other same]
  refine ⟨clock.unique, fun other => (clock.exact other).trans (exact' other).symm, ?_,
      ?_, ?_, ?_, ?_, ?_, ?_⟩
  · rw [acts.runningTxns]
    simp only [reads]
    exact clock.reads
  · rw [acts.runningTxns, acts.lastCommitTs]
    exact clock.commitTs
  · rw [acts.lastCommitTs, acts.nextTxnId]
    exact clock.room
  · rw [acts.nextTxnId]
    exact clock.bound
  · intro other txn found
    rw [acts.nextTxnId]
    by_cases same : other = id
    · obtain ⟨old, _, was, _⟩ := acts.own
      subst same
      exact clock.known other old was.1
    · exact clock.known other txn ((acts.others other same).symm.trans found)
  · intro other txn live
    obtain ⟨txn', live', readTs, _⟩ := acts_live_back acts live
    rw [acts.horizon, acts.lastCommitTs, ← readTs]
    exact clock.readTs other txn' live'
  · rw [acts.lastCommitTs, acts.horizon]
    exact clock.last

theorem acts_calls (acts : Acts before after id)
    (pending : ∀ other, other ≠ id → ∀ rid, after.ledger.pending other rid =
      before.ledger.pending other rid) (clock : ClockInv before ids) (store : StoreInv before)
    (calls : ∀ other, CallInv before other (before.mgr.control other))
    (own : CallInv after id (after.mgr.control id)) (other : TxnId) :
    CallInv after other (after.mgr.control other) := by
  by_cases same : other = id
  · rw [same]
    exact own
  · refine call_frame clock store ?_ (calls other)
    refine ⟨acts.others other same, acts.control other same, pending other same, ?_,
        acts.tables, acts.logs, acts.horizon, fun held =>
          ⟨acts.mutex other same held, acts.lastCommitTs, acts.committed⟩⟩
    intro ts rid _
    rw [Ledger.committedAt, Ledger.committedAt, acts.committed]

/-- The records of committed writers stay, the actor's own is not one of them. -/
theorem acts_recorded (acts : Acts before after id) (recorded : RecordedInv before) :
    RecordedInv after := by
  intro other txn live serializable rid version member late
  obtain ⟨txn', live', readTs, isolationLevel, _⟩ := acts_live_back acts live
  rw [acts.committed] at member
  obtain ⟨writer, slot, found, committed, commitTs, here, wrote⟩ :=
    recorded other txn' live' (isolationLevel.trans serializable) rid version member (readTs ▸ late)
  obtain ⟨slot', now, sameOid⟩ := acts.tables rid slot here
  have different : version.writer ≠ id := by
    intro same
    obtain ⟨old, _, was, _⟩ := acts.own
    obtain rfl : writer = old := Option.some.inj (found.symm.trans (same ▸ was.1))
    have dead := was.2
    simp [Transaction.live, committed] at dead
  exact ⟨writer, slot', (acts.others _ different).trans found, committed, commitTs, now,
    sameOid ▸ wrote⟩

end Actors

/-- A step of one transaction that keeps the invariant. -/
structure Moved (before after : History) (id : TxnId) : Prop extends Acts before after id where
  pending : ∀ other, other ≠ id → ∀ rid, after.ledger.pending other rid =
    before.ledger.pending other rid
  inv : Inv after

/-- A step that touches no slot. -/
structure Quiet (before after : History) (id : TxnId) : Prop extends Acts before after id where
  heap : after.mgr.heap = before.mgr.heap
  versionInfo : after.mgr.versionInfo = before.mgr.versionInfo
  ledger : after.ledger = before.ledger
  origin : after.origin = before.origin
  stamp : ∀ rid, (before.ledger.pending id rid).isSome →
    after.stampOf id rid = before.stampOf id rid
  owes : ∀ txn txn', before.Live id txn → after.Live id txn' →
    after.owes id txn' = before.owes id txn

section QuietSteps
variable {before after : History} {id : TxnId}

theorem quiet_slot_frame (quiet : Quiet before after id) (rid : RID) :
    SlotFrame before after rid where
  committed := by rw [quiet.ledger]
  pending := by simp [quiet.ledger]
  origin := by simp [quiet.origin]
  link := by rw [TransactionManager.getUndoLink, TransactionManager.getUndoLink, quiet.versionInfo]
  logs := quiet.logs
  horizon := quiet.horizon
  live := fun _ _ live _ => acts_live quiet.toActs live
  stamp := by
    intro other written
    by_cases same : other = id
    · subst same
      exact quiet.stamp rid written
    · exact stamp_other (quiet.control other same) rid

theorem quiet_store (quiet : Quiet before after id) (store : StoreInv before) : StoreInv after where
  slot := by
    intro rid slot found
    rw [quiet.heap] at found
    exact slot_frame (quiet_slot_frame quiet rid) (store.slot rid slot found)
  empty := by
    intro rid absent
    rw [quiet.heap] at absent
    rw [(quiet_slot_frame quiet rid).link, quiet.ledger, quiet.origin]
    exact store.empty rid absent
  fits := by rw [quiet.heap, quiet.catalog]; exact store.fits
  pendingShape := by rw [quiet.heap, quiet.ledger]; exact store.pendingShape
  committedShape := by rw [quiet.heap, quiet.ledger]; exact store.committedShape
  links := by
    intro rid link linked
    rw [(quiet_slot_frame quiet rid).link] at linked
    exact store.links rid link linked
  logs := quiet.stand
  sorted := by rw [quiet.ledger]; exact store.sorted
  dated := by rw [quiet.ledger, quiet.lastCommitTs]; exact store.dated

theorem quiet_writes (quiet : Quiet before after id) (writes : WriteInv before) :
    WriteInv after where
  owes := by
    intro other txn live
    obtain ⟨txn', live', _, _, unchanged⟩ := acts_live_back quiet.toActs live
    have owes : after.owes other txn = before.owes other txn' := by
      by_cases same : other = id
      · subst same
        exact quiet.owes txn' txn live' live
      · rw [unchanged same]
        exact owes_other (quiet.control other same) txn
    rw [owes, quiet.ledger, quiet.heap]
    exact writes.owes other txn' live'
  live := by
    intro other rid written
    rw [quiet.ledger] at written
    obtain ⟨txn, live⟩ := writes.live other rid written
    obtain ⟨txn', live', _⟩ := acts_live quiet.toActs live
    exact ⟨txn', live'⟩

theorem quiet_moved (quiet : Quiet before after id) (inv : Inv before)
    (call : CallInv after id (after.mgr.control id)) : Moved before after id := by
  obtain ⟨ids, clock⟩ := inv.clock
  have pending (other : TxnId) (_ : other ≠ id) (rid : RID) :
      after.ledger.pending other rid = before.ledger.pending other rid := by rw [quiet.ledger]
  exact ⟨quiet.toActs, pending, ⟨ids, acts_clock quiet.toActs clock⟩, quiet_store quiet inv.store,
    quiet_writes quiet inv.writes, acts_recorded quiet.toActs inv.recorded,
    acts_calls quiet.toActs pending clock inv.store inv.calls call⟩

end QuietSteps

/-- A step that touches one slot. -/
structure Touch (before after : History) (id : TxnId) (rid : RID) : Prop
    extends Acts before after id where
  heap : ∀ place, place ≠ rid → after.mgr.heap.lookup place = before.mgr.heap.lookup place
  link : ∀ place, place ≠ rid → after.mgr.getUndoLink place = before.mgr.getUndoLink place
  pending : ∀ other place, other ≠ id ∨ place ≠ rid →
    after.ledger.pending other place = before.ledger.pending other place
  origin : ∀ other place, other ≠ id ∨ place ≠ rid →
    after.origin other place = before.origin other place
  stamp : ∀ place, place ≠ rid → (before.ledger.pending id place).isSome →
    after.stampOf id place = before.stampOf id place

section TouchSteps
variable {before after : History} {id : TxnId} {rid : RID} {slot : Slot}

theorem touch_slot_frame (touch : Touch before after id rid) {place : RID}
    (elsewhere : place ≠ rid) :
    SlotFrame before after place where
  committed := by rw [touch.committed]
  pending := fun other => touch.pending other place (Or.inr elsewhere)
  origin := fun other => touch.origin other place (Or.inr elsewhere)
  link := touch.link place elsewhere
  logs := touch.logs
  horizon := touch.horizon
  live := fun _ _ live _ => acts_live touch.toActs live
  stamp := by
    intro other written
    by_cases same : other = id
    · subst same
      exact touch.stamp place elsewhere written
    · exact stamp_other (touch.control other same) place

/-- What is left to show when one slot was touched. -/
theorem touch_store (touch : Touch before after id rid) (store : StoreInv before)
    (found : after.mgr.heap.lookup rid = some slot) (inv : SlotInv after rid slot)
    (fits : slot.tuple.Fits (after.mgr.catalog slot.oid))
    (pendingShape : ∀ other tuple, after.ledger.pending other rid = some (some tuple) →
      SameShape tuple slot.tuple)
    (committedShape : ∀ version ∈ after.ledger.committed rid, ∀ tuple, version.row = some tuple →
      SameShape tuple slot.tuple)
    (valid : ∀ link, after.mgr.getUndoLink rid = some link → link.isValid = true) :
    StoreInv after where
  slot := by
    intro place other here
    by_cases same : place = rid
    · subst same
      obtain rfl : slot = other := Option.some.inj (found.symm.trans here)
      exact inv
    · rw [touch.heap place same] at here
      exact slot_frame (touch_slot_frame touch same) (store.slot place other here)
  empty := by
    intro place absent
    have same : place ≠ rid := by
      rintro rfl
      rw [found] at absent
      cases absent
    rw [touch.heap place same] at absent
    obtain ⟨unlinked, uncommitted, unwritten⟩ := store.empty place absent
    refine ⟨(touch.link place same).trans unlinked, by rw [touch.committed]; exact uncommitted, ?_⟩
    intro other
    exact ⟨(touch.pending other place (Or.inr same)).trans (unwritten other).1,
      (touch.origin other place (Or.inr same)).trans (unwritten other).2⟩
  fits := by
    intro place other here
    by_cases same : place = rid
    · subst same
      obtain rfl : slot = other := Option.some.inj (found.symm.trans here)
      exact fits
    · rw [touch.heap place same] at here
      rw [touch.catalog]
      exact store.fits place other here
  pendingShape := by
    intro other place here tuple lookup written
    by_cases same : place = rid
    · subst same
      obtain rfl : slot = here := Option.some.inj (found.symm.trans lookup)
      exact pendingShape other tuple written
    · rw [touch.heap place same] at lookup
      rw [touch.pending other place (Or.inr same)] at written
      exact store.pendingShape other place here tuple lookup written
  committedShape := by
    intro place here version tuple lookup member row
    by_cases same : place = rid
    · subst same
      obtain rfl : slot = here := Option.some.inj (found.symm.trans lookup)
      exact committedShape version member tuple row
    · rw [touch.heap place same] at lookup
      rw [touch.committed] at member
      exact store.committedShape place here version tuple lookup member row
  links := by
    intro place link linked
    by_cases same : place = rid
    · subst same
      exact valid link linked
    · rw [touch.link place same] at linked
      exact store.links place link linked
  logs := touch.stand
  sorted := by rw [touch.committed]; exact store.sorted
  dated := by rw [touch.committed, touch.lastCommitTs]; exact store.dated

/-- The write sets of the others, and of the actor away from the slot. -/
theorem touch_writes (touch : Touch before after id rid) (writes : WriteInv before)
    (found : after.mgr.heap.lookup rid = some slot)
    (sameTable : ∀ old, before.mgr.heap.lookup rid = some old → old.oid = slot.oid)
    (known : ∀ other, other ≠ id → before.mgr.heap.lookup rid = none →
      before.ledger.pending other rid = none)
    (owes : ∀ txn, after.Live id txn → (after.owes id txn).Nodup ∧ ∀ oid place,
      (oid, place) ∈ after.owes id txn ↔ (after.ledger.pending id place).isSome ∧
        ∃ slot, after.mgr.heap.lookup place = some slot ∧ slot.oid = oid) : WriteInv after where
  owes := by
    intro other txn live
    by_cases same : other = id
    · subst same
      exact owes txn live
    · obtain ⟨txn', live', _, _, unchanged⟩ := acts_live_back touch.toActs live
      rw [unchanged same] at live'
      obtain ⟨unique, exact'⟩ := writes.owes other txn live'
      rw [owes_other (touch.control other same) txn]
      refine ⟨unique, fun oid place => (exact' oid place).trans ?_⟩
      rw [touch.pending other place (Or.inl same)]
      by_cases here : place = rid
      · subst here
        cases old : before.mgr.heap.lookup place with
        | none => simp [known other same old]
        | some slot' =>
            have oids := sameTable slot' old
            simp [found, oids]
      · rw [touch.heap place here]
  live := by
    intro other place written
    by_cases same : other = id
    · obtain ⟨_, txn', _, now, _⟩ := touch.own
      subst same
      exact ⟨txn', now⟩
    · rw [touch.pending other place (Or.inl same)] at written
      obtain ⟨txn, live⟩ := writes.live other place written
      obtain ⟨txn', live', _⟩ := acts_live touch.toActs live
      exact ⟨txn', live'⟩

theorem touch_moved (touch : Touch before after id rid) (inv : Inv before) (store : StoreInv after)
    (writes : WriteInv after) (call : CallInv after id (after.mgr.control id)) :
    Moved before after id := by
  obtain ⟨ids, clock⟩ := inv.clock
  have pending (other : TxnId) (different : other ≠ id) (place : RID) :
      after.ledger.pending other place = before.ledger.pending other place :=
    touch.pending other place (Or.inl different)
  exact ⟨touch.toActs, pending, ⟨ids, acts_clock touch.toActs clock⟩, store, writes,
    acts_recorded touch.toActs inv.recorded,
    acts_calls touch.toActs pending clock inv.store inv.calls call⟩

end TouchSteps

end BusTub
