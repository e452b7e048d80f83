import BusTub.MvccRollback

/-!
How transactions begin and end: `Begin`, the end of `Commit` and the end of
`Abort`.
-/

namespace BusTub

section Lifetimes
variable {before after : History} {id : TxnId} {txn : Transaction} {ids : List TxnId}
  {mgr : TransactionManager}

/-- A transaction begins or ends: slots, links and undo logs are as before, and
whoever has written anything stays. -/
structure Still (before after : History) : Prop where
  catalog : after.mgr.catalog = before.mgr.catalog
  heap : after.mgr.heap = before.mgr.heap
  versionInfo : after.mgr.versionInfo = before.mgr.versionInfo
  logs : after.logs = before.logs
  image : after.image = before.image
  origin : after.origin = before.origin
  horizon : after.horizon = before.horizon
  live : ∀ id txn, before.Live id txn → ∀ rid, (after.ledger.pending id rid).isSome →
    after.Live id txn ∧ after.mgr.control id = before.mgr.control id

theorem still_slot_frame (still : Still before after) (writes : WriteInv before) {rid : RID}
    (committed : after.ledger.committed rid = before.ledger.committed rid)
    (pending : ∀ id, after.ledger.pending id rid = before.ledger.pending id rid) :
    SlotFrame before after rid where
  committed := committed
  pending := pending
  origin := fun _ => by rw [still.origin]
  link := by rw [TransactionManager.getUndoLink, TransactionManager.getUndoLink, still.versionInfo]
  logs := by
    rw [still.logs, still.image]
    exact logs_grow_refl _ _
  horizon := still.horizon
  live := fun id txn here written =>
    ⟨txn, (still.live id txn here rid (pending id ▸ written)).1, rfl⟩
  stamp := by
    intro id written
    obtain ⟨txn, here⟩ := writes.live id rid written
    exact stamp_other (still.live id txn here rid (pending id ▸ written)).2 rid

theorem still_link (still : Still before after) (rid : RID) :
    after.mgr.getUndoLink rid = before.mgr.getUndoLink rid := by
  rw [TransactionManager.getUndoLink, TransactionManager.getUndoLink, still.versionInfo]

theorem still_tables (still : Still before after) : SameTables before after := by
  intro rid slot found
  exact ⟨slot, still.heap ▸ found, rfl⟩

/-- The same when the ledger stays too. -/
theorem still_store (still : Still before after) (inv : Inv before)
    (ledger : after.ledger = before.ledger)
    (last : after.mgr.lastCommitTs = before.mgr.lastCommitTs) : StoreInv after where
  slot := by
    intro rid slot found
    rw [still.heap] at found
    refine slot_frame (still_slot_frame still inv.writes ?_ ?_) (inv.store.slot rid slot found)
    · rw [ledger]
    · simp [ledger]
  empty := by
    intro rid absent
    rw [still.heap] at absent
    rw [still_link still, ledger, still.origin]
    exact inv.store.empty rid absent
  fits := by rw [still.heap, still.catalog]; exact inv.store.fits
  pendingShape := by rw [still.heap, ledger]; exact inv.store.pendingShape
  committedShape := by rw [still.heap, ledger]; exact inv.store.committedShape
  links := by
    intro rid link linked
    rw [still_link still] at linked
    exact inv.store.links rid link linked
  logs := by rw [still.logs, still.image]; exact inv.store.logs
  sorted := by rw [ledger]; exact inv.store.sorted
  dated := by rw [ledger, last]; exact inv.store.dated

theorem unknown_id (clock : ClockInv before ids) :
    before.mgr.txnMap.lookup before.mgr.nextTxnId = none := by
  cases found : before.mgr.txnMap.lookup before.mgr.nextTxnId with
  | none => rfl
  | some txn =>
      have known := clock.known _ txn found
      lia

/-- Only a live transaction is inside a call. -/
theorem call_live {control : Control} (call : CallInv before id control) :
    control = .idle ∨ ∃ txn, before.Live id txn := by
  cases control with
  | idle => exact Or.inl rfl
  | threw rid => exact call.elim
  | returned rid visible =>
      obtain ⟨txn, live, _⟩ := call
      exact Or.inr ⟨txn, live⟩
  | collecting rid base baseMeta logs link =>
      obtain ⟨txn, live, _⟩ := call
      exact Or.inr ⟨txn, live⟩
  | verifying rest walk =>
      obtain ⟨_, txn, found, running⟩ := call
      exact Or.inr ⟨txn, found, by simp [Transaction.live, running]⟩
  | stamping commitTs rest =>
      obtain ⟨_, _, _, txn, found, running, _⟩ := call
      exact Or.inr ⟨txn, found, by simp [Transaction.live, running]⟩
  | rollingBack rest => exact Or.inr call

/-- A new transaction with the next id and nothing to its name. -/
structure Begun (before after : History) (new : Transaction) (running : Watermark) : Prop where
  mgr : after.mgr = { before.mgr.setTxn before.mgr.nextTxnId new with
    nextTxnId := before.mgr.nextTxnId + 1, runningTxns := running }
  rest : after = { before with mgr := after.mgr }
  live : new.live = true
  empty : new.undoLogs = [] ∧ new.writeSet = [] ∧ new.readTs = before.mgr.lastCommitTs
  added : before.mgr.runningTxns.addTxn before.mgr.lastCommitTs = some running
  room : before.mgr.nextTxnId + 1 ≤ INT64_MAX

section Begins
variable {new : Transaction} {running : Watermark} {other : TxnId} {isolationLevel : IsolationLevel}

theorem begun_here (begun : Begun before after new running) :
    after.mgr.txnMap.lookup before.mgr.nextTxnId = some new := by
  rw [begun.mgr]
  exact TransactionManager.lookup_set_txn

theorem begun_others (begun : Begun before after new running)
    (different : other ≠ before.mgr.nextTxnId) :
    after.mgr.txnMap.lookup other = before.mgr.txnMap.lookup other := by
  rw [begun.mgr]
  exact TransactionManager.lookup_set_txn_other different

theorem old_id (clock : ClockInv before ids) (found : before.mgr.txnMap.lookup other = some txn) :
    other ≠ before.mgr.nextTxnId := by
  rintro rfl
  cases (unknown_id clock).symm.trans found

theorem begun_live (begun : Begun before after new running) (clock : ClockInv before ids) :
    after.Live other txn ↔ (other = before.mgr.nextTxnId ∧ txn = new) ∨ before.Live other txn := by
  constructor
  · rintro ⟨found, live⟩
    by_cases same : other = before.mgr.nextTxnId
    · subst same
      exact Or.inl ⟨rfl, Option.some.inj (found.symm.trans (begun_here begun))⟩
    · exact Or.inr ⟨(begun_others begun same).symm.trans found, live⟩
  · rintro (⟨rfl, rfl⟩ | was)
    · exact ⟨begun_here begun, begun.live⟩
    · exact ⟨(begun_others begun (old_id clock was.1)).trans was.1, was.2⟩

theorem begun_logs (begun : Begun before after new running) (clock : ClockInv before ids) :
    after.logs = before.logs := by
  refine (logs_with _ _ (begun_here begun) fun _ different => begun_others begun different).trans ?_
  funext link
  unfold logsWith
  split
  · rename_i mine
    have missing : before.mgr.txnMap.lookup link.prevTxn = none := mine ▸ unknown_id clock
    simp [begun.empty.1, History.logs, TransactionManager.getUndoLogOptional, missing]
  · rfl

theorem begun_still (begun : Begun before after new running) (clock : ClockInv before ids) :
    Still before after := by
  refine ⟨?_, ?_, ?_, begun_logs begun clock, ?_, ?_, ?_, ?_⟩
  · rw [begun.mgr]
    rfl
  · rw [begun.mgr]
    rfl
  · rw [begun.mgr]
    rfl
  · rw [begun.rest]
  · rw [begun.rest]
  · rw [begun.rest]
  · intro other txn was _ _
    refine ⟨(begun_live begun clock).mpr (Or.inr was), ?_⟩
    rw [begun.mgr]
    rfl

theorem begun_clock (begun : Begun before after new running) (clock : ClockInv before ids) :
    ClockInv after (before.mgr.nextTxnId :: ids) := by
  have last : after.mgr.lastCommitTs = before.mgr.lastCommitTs := by
    rw [begun.mgr]
    rfl
  have next : after.mgr.nextTxnId = before.mgr.nextTxnId + 1 := by rw [begun.mgr]
  have runs : after.mgr.runningTxns = running := by rw [begun.mgr]
  have horizon : after.horizon = before.horizon := (begun_still begun clock).horizon
  obtain ⟨follows, sameCommit⟩ := Watermark.add_follows clock.reads begun.added
  have room := clock.room
  refine ⟨List.nodup_cons.mpr ⟨?_, clock.unique⟩, ?_, ?_, ?_, ?_, ?_, ?_, ?_, ?_⟩
  · intro member
    obtain ⟨txn, was⟩ := (clock.exact _).mp member
    exact old_id clock was.1 rfl
  · intro other
    simp only [List.mem_cons, clock.exact other, begun_live begun clock, exists_or, exists_and_left,
      exists_eq, and_true]
  · have reads : (ids.map fun other =>
        ((after.mgr.txnMap.lookup other).map Transaction.readTs).getD 0) =
        ids.map fun other => ((before.mgr.txnMap.lookup other).map Transaction.readTs).getD 0 := by
      refine List.map_congr_left fun other member => ?_
      obtain ⟨txn, was⟩ := (clock.exact other).mp member
      rw [begun_others begun (old_id clock was.1)]
    rw [List.map_cons, reads, begun_here begun, runs, Option.map_some, Option.getD_some,
      begun.empty.2.2]
    exact follows
  · rw [runs, last]
    exact sameCommit.trans clock.commitTs
  · rw [last, next, List.length_cons]
    push_cast
    lia
  · rw [next]
    exact begun.room
  · intro other txn found
    rw [next]
    by_cases same : other = before.mgr.nextTxnId
    · have positive := clock.last.1
      lia
    · have known := clock.known other txn ((begun_others begun same).symm.trans found)
      lia
  · intro other txn now
    rw [horizon, last]
    rcases (begun_live begun clock).mp now with ⟨_, rfl⟩ | was
    · rw [begun.empty.2.2]
      exact ⟨clock.last.1, clock.last.2, Int.le_refl _⟩
    · exact clock.readTs other txn was
  · rw [last, horizon]
    exact clock.last

theorem begun_control (begun : Begun before after new running) :
    after.mgr.control = before.mgr.control := by
  rw [begun.mgr]
  rfl

/-- The next id is in no call yet. -/
theorem next_idle (inv : Inv before) (clock : ClockInv before ids) :
    before.mgr.control before.mgr.nextTxnId = .idle := by
  rcases call_live (inv.calls before.mgr.nextTxnId) with idle | ⟨txn, live⟩
  · exact idle
  · exact absurd rfl (old_id clock live.1)

theorem begun_writes (begun : Begun before after new running) (inv : Inv before)
    (clock : ClockInv before ids) :
    WriteInv after := by
  have ledger : after.ledger = before.ledger := by rw [begun.rest]
  constructor
  · intro other txn now
    rw [ledger, (begun_still begun clock).heap]
    have owes : after.owes other txn = before.owes other txn :=
      owes_other (congrFun (begun_control begun) other) txn
    rw [owes]
    rcases (begun_live begun clock).mp now with ⟨rfl, rfl⟩ | was
    · simp only [History.owes, next_idle inv clock, Control.owes, begun.empty.2.1]
      refine ⟨List.nodup_nil, fun oid rid => ?_⟩
      constructor
      · intro member
        cases member
      · rintro ⟨written, _⟩
        obtain ⟨txn, live⟩ := inv.writes.live _ rid written
        exact absurd rfl (old_id clock live.1)
    · exact inv.writes.owes other txn was
  · intro other rid written
    rw [ledger] at written
    obtain ⟨txn, was⟩ := inv.writes.live other rid written
    exact ⟨txn, (begun_live begun clock).mpr (Or.inr was)⟩

/-- A new snapshot has every committed version behind it. -/
theorem begun_recorded (begun : Begun before after new running) (inv : Inv before)
    (clock : ClockInv before ids) :
    RecordedInv after := by
  have ledger : after.ledger = before.ledger := by rw [begun.rest]
  intro other txn now serializable rid version member late
  rw [ledger] at member
  rcases (begun_live begun clock).mp now with ⟨_, rfl⟩ | was
  · have dated := inv.store.dated rid version member
    have snapshot := begun.empty.2.2
    lia
  · obtain ⟨writer, slot, found, facts⟩ :=
      inv.recorded other txn was serializable rid version member late
    rw [(begun_still begun clock).heap]
    exact ⟨writer, slot, (begun_others begun (old_id clock found)).trans found, facts⟩

theorem begun_calls (begun : Begun before after new running) (inv : Inv before)
    (clock : ClockInv before ids)
    (other : TxnId) : CallInv after other (after.mgr.control other) := by
  have ledger : after.ledger = before.ledger := by rw [begun.rest]
  by_cases same : other = before.mgr.nextTxnId
  · rw [begun_control begun, same, next_idle inv clock]
    trivial
  · refine call_frame clock inv.store ⟨begun_others begun same,
        congrFun (begun_control begun) other, ?_, ?_, still_tables (begun_still begun clock), ?_,
          (begun_still begun clock).horizon, ?_⟩ (inv.calls other)
    · simp [ledger]
    · simp [ledger]
    · rw [(begun_still begun clock).logs, (begun_still begun clock).image]
      exact logs_grow_refl _ _
    · intro held
      rw [ledger, begun.mgr]
      exact ⟨held, rfl, rfl⟩

theorem begun_step (stepped : before.step (.begin isolationLevel) = some after) :
    ∃ running, Begun before after
      { isolationLevel := isolationLevel, readTs := before.mgr.lastCommitTs } running := by
  obtain ⟨mgr, ran, rfl⟩ := Option.map_eq_some_iff.mp stepped
  simp only [TransactionManager.step, TransactionManager.begin] at ran
  split at ran
  · cases ran
  · rename_i room
    obtain ⟨running, added, same⟩ := Option.bind_eq_some_iff.mp ran
    obtain rfl := Option.some.inj same
    exact ⟨running, rfl, rfl, rfl, ⟨rfl, rfl, rfl⟩, added, Int.not_lt.mp room⟩

theorem begin_inv (inv : Inv before)
    (stepped : before.step (.begin isolationLevel) = some after) : Inv after := by
  obtain ⟨ids, clock⟩ := inv.clock
  obtain ⟨running, begun⟩ := begun_step stepped
  have ledger : after.ledger = before.ledger := by rw [begun.rest]
  have last : after.mgr.lastCommitTs = before.mgr.lastCommitTs := by
    rw [begun.mgr]
    rfl
  exact ⟨⟨_, begun_clock begun clock⟩, still_store (begun_still begun clock) inv ledger last,
    begun_writes begun inv clock, begun_recorded begun inv clock, begun_calls begun inv clock⟩

end Begins

/-- A transaction leaves the running ones. -/
structure Ended (before after : History) (id : TxnId) (txn txn' : Transaction) : Prop where
  was : before.Live id txn
  here : after.mgr.txnMap.lookup id = some txn'
  dead : txn'.live = false
  same : txn'.undoLogs = txn.undoLogs
  others : ∀ other, other ≠ id → after.mgr.txnMap.lookup other = before.mgr.txnMap.lookup other
  nextTxnId : after.mgr.nextTxnId = before.mgr.nextTxnId
  horizon : after.horizon = before.horizon
  last : after.mgr.lastCommitTs = before.mgr.lastCommitTs ∨
    after.mgr.lastCommitTs = before.mgr.lastCommitTs + 1
  running : after.mgr.runningTxns =
    ({ before.mgr.runningTxns with commitTs := after.mgr.lastCommitTs } : Watermark).removeTxn
      txn.readTs
  idle : after.mgr.control id = .idle
  control : ∀ other, other ≠ id → after.mgr.control other = before.mgr.control other

section Ends
variable {txn' : Transaction}

theorem ended_live (ended : Ended before after id txn txn') {other : TxnId} {record : Transaction} :
    after.Live other record ↔ other ≠ id ∧ before.Live other record := by
  constructor
  · rintro ⟨found, live⟩
    by_cases same : other = id
    · subst same
      obtain rfl : txn' = record := Option.some.inj (ended.here.symm.trans found)
      rw [ended.dead] at live
      cases live
    · exact ⟨same, (ended.others other same).symm.trans found, live⟩
  · rintro ⟨different, found, live⟩
    exact ⟨(ended.others other different).trans found, live⟩

theorem ended_clock (ended : Ended before after id txn txn') (clock : ClockInv before ids) :
    ClockInv after (ids.erase id) := by
  have member : id ∈ ids := (clock.exact id).mpr ⟨txn, ended.was⟩
  have positive := List.length_pos_of_mem member
  have last := clock.last
  have room := clock.room
  have later := ended.last
  have follows : Watermark.Follows { before.mgr.runningTxns with
      commitTs := after.mgr.lastCommitTs } _ :=
    ⟨clock.reads.counts, clock.reads.timestamps, clock.reads.mark⟩
  have ownRead : txn.readTs = ((before.mgr.txnMap.lookup id).map Transaction.readTs).getD 0 := by
    rw [ended.was.1]
    rfl
  have inside : txn.readTs ∈
    ids.map fun other => ((before.mgr.txnMap.lookup other).map Transaction.readTs).getD 0 :=
    List.mem_map.mpr ⟨id, member, ownRead.symm⟩
  obtain ⟨removed, commitTs⟩ := Watermark.remove_follows follows inside
  refine ⟨clock.unique.erase _, ?_, ?_, ?_, ?_, ?_, ?_, ?_, ?_⟩
  · intro other
    rw [clock.unique.mem_erase_iff, clock.exact]
    simp only [ended_live ended, exists_and_left]
  · rw [ended.running]
    refine Watermark.follows_perm ?_ removed
    have kept : ((ids.erase id).map fun other =>
        ((after.mgr.txnMap.lookup other).map Transaction.readTs).getD 0) =
        (ids.erase id).map fun other =>
          ((before.mgr.txnMap.lookup other).map Transaction.readTs).getD 0 := by
      refine List.map_congr_left fun other left => ?_
      rw [ended.others other (clock.unique.mem_erase_iff.mp left).1]
    rw [kept, ownRead]
    have split := ((List.perm_cons_erase member).map
      fun other => ((before.mgr.txnMap.lookup other).map Transaction.readTs).getD 0).erase
        (((before.mgr.txnMap.lookup id).map Transaction.readTs).getD 0)
    rwa [List.map_cons, List.erase_cons_head] at split
  · rw [ended.running]
    exact commitTs
  · rw [ended.nextTxnId, List.length_erase_of_mem member]
    lia
  · rw [ended.nextTxnId]
    exact clock.bound
  · intro other record found
    rw [ended.nextTxnId]
    by_cases same : other = id
    · subst same
      exact clock.known other txn ended.was.1
    · exact clock.known other record ((ended.others other same).symm.trans found)
  · intro other record now
    have snapshot := clock.readTs other record ((ended_live ended).mp now).2
    rw [ended.horizon]
    lia
  · rw [ended.horizon]
    lia

theorem ended_logs (ended : Ended before after id txn txn') : after.logs = before.logs := by
  refine (logs_with _ _ ended.here ended.others).trans ?_
  rw [ended.same]
  exact logs_with_same ended.was

/-- A transaction that owes nothing has nothing pending. -/
theorem nothing_pending (inv : Inv before) (live : before.Live id txn)
    (owes : before.owes id txn = []) (rid : RID) : before.ledger.pending id rid = none := by
  by_contra written
  have written := Option.isSome_iff_ne_none.mpr written
  cases found : before.mgr.heap.lookup rid with
  | none =>
      rw [((inv.store.empty rid found).2.2 id).1] at written
      cases written
  | some slot =>
      have member := ((inv.writes.owes id txn live).2 slot.oid rid).mpr ⟨written, slot, found, rfl⟩
      rw [owes] at member
      cases member

/-- Whatever is pending is in the write set, with its table. -/
theorem own_write (inv : Inv before) (live : before.Live id txn)
    (owes : before.owes id txn = txn.writeSet) {rid : RID}
    (written : (before.ledger.pending id rid).isSome) :
    ∃ slot, before.mgr.heap.lookup rid = some slot ∧ (slot.oid, rid) ∈ txn.writeSet := by
  cases found : before.mgr.heap.lookup rid with
  | none =>
      rw [((inv.store.empty rid found).2.2 id).1] at written
      cases written
  | some slot =>
      have member := ((inv.writes.owes id txn live).2 slot.oid rid).mpr ⟨written, slot, found, rfl⟩
      exact ⟨slot, rfl, owes ▸ member⟩

/-- The records of committed writers stay, and the new one is there. -/
theorem ended_recorded (ended : Ended before after id txn txn') (recorded : RecordedInv before)
    (heap : after.mgr.heap = before.mgr.heap)
    (versions : ∀ rid, ∀ version ∈ after.ledger.committed rid,
      version ∈ before.ledger.committed rid ∨
        (version.writer = id ∧ txn'.state = .committed ∧ txn'.commitTs = version.commitTs ∧ ∃ slot,
          before.mgr.heap.lookup rid = some slot ∧ (slot.oid, rid) ∈ txn'.writeSet)) :
    RecordedInv after := by
  intro other record now serializable rid version member late
  rw [heap]
  rcases versions rid version member with old | ⟨own, committed, commitTs, slot, here, wrote⟩
  · obtain ⟨writer, slot, found, committed, facts⟩ :=
      recorded other record ((ended_live ended).mp now).2 serializable rid version old late
    have different : version.writer ≠ id := by
      intro same
      obtain rfl : writer = txn := Option.some.inj (found.symm.trans (same ▸ ended.was.1))
      have live := ended.was.2
      simp [Transaction.live, committed] at live
    exact ⟨writer, slot, (ended.others _ different).trans found, committed, facts⟩
  · exact ⟨txn', slot, own ▸ ended.here, committed, commitTs, here, wrote⟩

/-- The write sets of the others. -/
theorem ended_writes (ended : Ended before after id txn txn') (writes : WriteInv before)
    (heap : after.mgr.heap = before.mgr.heap)
    (pending : ∀ other, other ≠ id → after.ledger.pending other = before.ledger.pending other)
    (own : ∀ rid, after.ledger.pending id rid = none) : WriteInv after := by
  constructor
  · intro other record now
    obtain ⟨different, was⟩ := (ended_live ended).mp now
    rw [owes_other (ended.control other different), pending other different, heap]
    exact writes.owes other record was
  · intro other rid written
    have different : other ≠ id := by
      rintro rfl
      rw [own] at written
      cases written
    rw [pending other different] at written
    obtain ⟨record, was⟩ := writes.live other rid written
    exact ⟨record, (ended_live ended).mpr ⟨different, was⟩⟩

theorem ended_calls (ended : Ended before after id txn txn') (inv : Inv before)
    (clock : ClockInv before ids) (image : after.image = before.image)
    (pending : ∀ other, other ≠ id → after.ledger.pending other = before.ledger.pending other)
    (committedAt : ∀ ts rid, ts ≤ before.mgr.lastCommitTs →
      after.ledger.committedAt ts rid = before.ledger.committedAt ts rid)
    (heap : after.mgr.heap = before.mgr.heap)
    (mutex : ∀ other, other ≠ id → before.mgr.commitMutex = some other →
      after.mgr.commitMutex = some other ∧ after.mgr.lastCommitTs = before.mgr.lastCommitTs ∧
        after.ledger.committed = before.ledger.committed)
    (other : TxnId) : CallInv after other (after.mgr.control other) := by
  by_cases same : other = id
  · rw [same, ended.idle]
    trivial
  · refine call_frame clock inv.store ⟨ended.others other same, ended.control other same,
      congrFun (pending other same), committedAt, fun rid slot found =>
        ⟨slot, heap ▸ found, rfl⟩, ?_,
      ended.horizon, mutex other same⟩ (inv.calls other)
    rw [ended_logs ended, image]
    exact logs_grow_refl _ _

/-- The end of `Abort`: everything has been rolled back. -/
structure Aborted (before after : History) (id : TxnId) (txn : Transaction) : Prop
    extends Ended before after id txn { txn with state := .aborted }, Still before after where
  stage : before.mgr.control id = .rollingBack []
  nothing : ∀ rid, before.ledger.pending id rid = none
  ledger : after.ledger = before.ledger
  unchanged : after.mgr.lastCommitTs = before.mgr.lastCommitTs
  mutex : after.mgr.commitMutex = before.mgr.commitMutex

theorem aborted_step (inv : Inv before) (stepped : before.step (.aborted id) = some after) :
    ∃ txn, Aborted before after id txn := by
  obtain ⟨mgr, ran, rfl⟩ := Option.map_eq_some_iff.mp stepped
  obtain ⟨txn, inMap, same⟩ := Option.bind_eq_some_iff.mp ran
  split at same
  · rename_i stage
    obtain rfl := Option.some.inj same
    have call := inv.calls id
    rw [stage] at call
    obtain ⟨record, live⟩ := call
    obtain rfl : txn = record := Option.some.inj (inMap.symm.trans live.1)
    obtain ⟨ids, clock⟩ := inv.clock
    have owes : before.owes id txn = [] := by
      rw [History.owes, stage]
      rfl
    have nothing := nothing_pending inv live owes
    have ended : Ended before { before with
        mgr := { (before.mgr.setTxn id { txn with state := .aborted }).setControl id .idle with
          runningTxns := before.mgr.runningTxns.removeTxn txn.readTs } } id txn { txn with
            state := .aborted } := by
      refine ⟨live, TransactionManager.lookup_set_txn, rfl, rfl,
        fun other different =>
          TransactionManager.lookup_set_txn_other different, rfl, rfl, Or.inl rfl, ?_,
        Function.update_self .., fun _ different => Function.update_of_ne different _ _⟩
      exact congrArg (fun commitTs =>
          ({ before.mgr.runningTxns with commitTs := commitTs } : Watermark).removeTxn
        txn.readTs) clock.commitTs
    have still (other : TxnId) (record : Transaction) (was : before.Live other record) (rid : RID)
      (written : (before.ledger.pending other rid).isSome) :=
      have different : other ≠ id := by
        rintro rfl
        rw [nothing] at written
        cases written
      And.intro ((ended_live ended).mpr ⟨different, was⟩) (ended.control other different)
    exact ⟨txn, { ended with
      catalog := rfl, heap := rfl, versionInfo := rfl, logs := ended_logs ended, image :=
        rfl, origin := rfl,
      live := still, stage := stage, nothing := nothing, ledger := rfl, unchanged :=
        rfl, mutex := rfl }⟩
  · cases same

theorem aborted_inv (inv : Inv before) (stepped : before.step (.aborted id) = some after) :
    Inv after := by
  obtain ⟨ids, clock⟩ := inv.clock
  obtain ⟨txn, aborted⟩ := aborted_step inv stepped
  have ended := aborted.toEnded
  have ledger := aborted.ledger
  refine ⟨⟨_, ended_clock ended clock⟩, still_store aborted.toStill inv ledger aborted.unchanged,
    ended_writes ended inv.writes aborted.heap ?_ ?_,
    ended_recorded ended inv.recorded aborted.heap ?_,
    ended_calls ended inv clock aborted.image ?_ ?_ aborted.heap ?_⟩
  · simp [ledger]
  · rw [ledger]
    exact aborted.nothing
  · rw [ledger]
    exact fun _ _ member => Or.inl member
  · simp [ledger]
  · simp [ledger]
  · intro other _ held
    exact ⟨aborted.mutex.trans held, aborted.unchanged, by rw [ledger]⟩

section Publishing
variable {commitTs : Timestamp} {rid : RID}

/-- What `Commit` publishes. -/
structure Published (before after : History) (id : TxnId) (txn txn' : Transaction)
    (commitTs : Timestamp) : Prop
    extends Ended before after id txn txn', Still before after where
  stage : before.mgr.control id = .stamping commitTs []
  next : commitTs = before.mgr.lastCommitTs + 1
  published : after.mgr.lastCommitTs = commitTs
  ledger : after.ledger = before.ledger.publish id txn.readTs commitTs
  mutex : before.mgr.commitMutex = some id
  owned : before.owes id txn = txn.writeSet
  record : txn' = { txn with commitTs := commitTs, state := .committed }

theorem published_pending (published : Published before after id txn txn' commitTs) {other : TxnId}
    (different : other ≠ id) : after.ledger.pending other = before.ledger.pending other := by
  rw [published.ledger]
  exact pending_publish_other different

theorem published_none (published : Published before after id txn txn' commitTs) (rid : RID) :
    after.ledger.pending id rid = none := by
  rw [published.ledger]
  exact pending_publish_self

/-- The newest version of a RID that the transaction has written is its own. -/
theorem published_slot (published : Published before after id txn txn' commitTs) (inv : Inv before)
    {slot : Slot} (found : before.mgr.heap.lookup rid = some slot) :
    SlotInv after rid slot := by
  have still := published.toStill
  cases written : before.ledger.pending id rid with
  | none =>
      refine slot_frame (still_slot_frame still inv.writes ?_ ?_) (inv.store.slot rid slot found)
      · rw [published.ledger]
        exact committed_publish_none written
      · intro other
        by_cases same : other = id
        · rw [same, published_none published, written]
        · rw [published_pending published same]
  | some row =>
      obtain ⟨row', all, pending, alone, shows, stamped, whole, chain, _, _⟩ :=
        slot_pending inv published.was found (by rw [written]; rfl)
      obtain rfl : row = row' := Option.some.inj (written.symm.trans pending)
      have ts : slot.metadata.ts = commitTs := by
        rw [stamped, History.stampOf, published.stage]
        rfl
      have committed : after.ledger.stages rid = (commitTs, row) :: before.ledger.stages rid := by
        rw [published.ledger, Ledger.stages, committed_publish written]
        rfl
      refine SlotInv.settled row all ?_ ?_ shows ?_
      · intro other
        by_cases same : other = id
        · rw [same, published_none published]
        · rw [published_pending published same]
          exact alone other same
      · rw [ts, StagesOf, committed]
        rcases whole with rfl | rfl
        · exact Or.inl rfl
        · exact Or.inr rfl
      · rw [still.logs, still.image, still.horizon, History.link, still_link still]
        exact chain

/-- Whoever writes a RID has seen its newest committed version. -/
theorem read_before_write (inv : Inv before) (live : before.Live id txn)
    (written : (before.ledger.pending id rid).isSome) {version : Version}
    (member : version ∈ before.ledger.committed rid) : version.commitTs ≤ txn.readTs := by
  cases found : before.mgr.heap.lookup rid with
  | none =>
      rw [(inv.store.empty rid found).2.1] at member
      cases member
  | some slot =>
      obtain ⟨_, all, _, _, _, _, whole, _, older, _⟩ := slot_pending inv live found written
      exact older (version.commitTs, version.row) (version_listed whole member)

theorem published_store (published : Published before after id txn txn' commitTs) (inv : Inv before)
    (clock : ClockInv before ids) : StoreInv after where
  slot := by
    intro rid slot found
    rw [published.heap] at found
    exact published_slot published inv found
  empty := by
    intro rid absent
    rw [published.heap] at absent
    obtain ⟨unlinked, uncommitted, unwritten⟩ := inv.store.empty rid absent
    refine ⟨(still_link published.toStill rid).trans unlinked, ?_, ?_⟩
    · rw [published.ledger, committed_publish_none (unwritten id).1, uncommitted]
    · intro other
      refine ⟨?_, published.origin ▸ (unwritten other).2⟩
      by_cases same : other = id
      · rw [same, published_none published]
      · rw [published_pending published same]
        exact (unwritten other).1
  fits := by rw [published.heap, published.catalog]; exact inv.store.fits
  pendingShape := by
    intro other rid slot tuple found written
    rw [published.heap] at found
    have different : other ≠ id := by
      rintro rfl
      cases (published_none published rid).symm.trans written
    rw [published_pending published different] at written
    exact inv.store.pendingShape other rid slot tuple found written
  committedShape := by
    intro rid slot version tuple found member row
    rw [published.heap] at found
    rw [published.ledger] at member
    rcases published_version member with old | ⟨new, written, rfl⟩
    · exact inv.store.committedShape rid slot version tuple found old row
    · exact inv.store.pendingShape id rid slot tuple found (written.trans (congrArg some row))
  links := by
    intro rid link linked
    rw [still_link published.toStill] at linked
    exact inv.store.links rid link linked
  logs := by rw [published.toStill.logs, published.image]; exact inv.store.logs
  sorted := by
    intro rid
    rw [published.ledger]
    cases written : before.ledger.pending id rid with
    | none =>
        rw [committed_publish_none written]
        exact inv.store.sorted rid
    | some row =>
        rw [committed_publish written]
        refine List.pairwise_cons.mpr ⟨?_, inv.store.sorted rid⟩
        intro version member
        exact read_before_write inv published.was (by rw [written]; rfl) member
  dated := by
    intro rid version member
    rw [published.ledger] at member
    have last := clock.last
    have snapshot := clock.readTs id txn published.was
    have next := published.next
    rw [published.published]
    rcases published_version member with old | ⟨row, written, rfl⟩
    · have dated := inv.store.dated rid version old
      lia
    · exact ⟨by lia, by lia, Int.le_refl _⟩

theorem published_step (inv : Inv before) (stepped : before.step (.publish id) = some after) :
    ∃ txn txn' commitTs, Published before after id txn txn' commitTs := by
  obtain ⟨mgr, ran, rfl⟩ := Option.map_eq_some_iff.mp stepped
  obtain ⟨txn, inMap, same⟩ := Option.bind_eq_some_iff.mp ran
  split at same
  · rename_i commitTs stage
    obtain rfl := Option.some.inj same
    have call := inv.calls id
    rw [stage] at call
    obtain ⟨mutex, next, _, record, found, running, _, _⟩ := call
    obtain rfl : txn = record := Option.some.inj (inMap.symm.trans found)
    have live : before.Live id txn := ⟨inMap, by simp [Transaction.live, running]⟩
    have owes : before.owes id txn = txn.writeSet := by
      rw [History.owes, stage]
      rfl
    have recorded : before.record (.publish id) =
        { before with ledger := before.ledger.publish id txn.readTs commitTs } := by
      simp only [History.record, inMap, stage]
    rw [recorded]
    have ended : Ended before { before with
        mgr := {
          (before.mgr.setTxn id { txn with commitTs := commitTs, state := .committed }).setControl
          id
            .idle with
          lastCommitTs := commitTs
          runningTxns := (before.mgr.runningTxns.updateCommitTs commitTs).removeTxn txn.readTs
          commitMutex := none }
        ledger := before.ledger.publish id txn.readTs commitTs } id txn
        { txn with commitTs := commitTs, state := .committed } :=
      ⟨live, TransactionManager.lookup_set_txn, rfl, rfl,
        fun other different =>
          TransactionManager.lookup_set_txn_other different, rfl, rfl, Or.inr next, rfl,
        Function.update_self .., fun _ different => Function.update_of_ne different _ _⟩
    have still (other : TxnId) (record : Transaction) (was : before.Live other record) (rid : RID)
      (written : ((before.ledger.publish id txn.readTs commitTs).pending other rid).isSome) :=
      have different : other ≠ id := by
        rintro rfl
        rw [pending_publish_self] at written
        cases written
      And.intro ((ended_live ended).mpr ⟨different, was⟩) (ended.control other different)
    exact ⟨txn, _, commitTs, { ended with
      catalog := rfl, heap := rfl, versionInfo := rfl, logs := ended_logs ended, image :=
        rfl, origin := rfl,
      live := still, stage := stage, next := next, published := rfl, ledger := rfl, mutex := mutex,
      owned := owes, record := rfl }⟩
  · cases same

theorem publish_inv (inv : Inv before) (stepped : before.step (.publish id) = some after) :
    Inv after := by
  obtain ⟨ids, clock⟩ := inv.clock
  obtain ⟨txn, txn', commitTs, published⟩ := published_step inv stepped
  have ended := published.toEnded
  refine ⟨⟨_, ended_clock ended clock⟩, published_store published inv clock,
    ended_writes ended inv.writes published.heap (fun _ different =>
      published_pending published different)
      (published_none published),
    ended_recorded ended inv.recorded published.heap ?_,
    ended_calls ended inv clock published.image (fun _ different =>
      published_pending published different)
      ?_ published.heap ?_⟩
  · intro rid version member
    rw [published.ledger] at member
    rcases published_version member with old | ⟨row, written, rfl⟩
    · exact Or.inl old
    · rw [published.record]
      exact Or.inr ⟨rfl, rfl, rfl,
        own_write inv published.was published.owned (by rw [written]; rfl)⟩
  · intro ts rid early
    rw [published.ledger]
    have next := published.next
    exact committed_at_publish (by lia)
  · intro other different held
    rw [published.mutex, Option.some.injEq] at held
    exact absurd held.symm different

end Publishing

end Ends

end Lifetimes

end BusTub
