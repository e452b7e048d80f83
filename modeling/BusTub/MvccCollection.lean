import BusTub.MvccLifetimes
import BusTub.MvccValidation

/-!
Garbage collection keeps the invariant: above the watermark it takes no log that
a chain hangs on, and no record that a validation may ask for.
-/

namespace BusTub

open TransactionManager (keepEntries)

section Collecting
variable {mgr : TransactionManager} {id : TxnId} {txn : Transaction} {watermark : Timestamp}
  {link : UndoLink}

theorem lookup_keep_some {Key Value : Type} [DecidableEq Key] {map : UnorderedMap Key Value}
    {keep : Key → Value → Bool} {key : Key} {value : Value} :
    (keepEntries map keep).lookup key = some value ↔ map.lookup key = some value ∧
      keep key value = true := by
  have listed (map : UnorderedMap Key Value) : map.lookup key = some value ↔
      ⟨key, value⟩ ∈ map.entries :=
    AList.mem_lookup_iff
  rw [listed, listed]
  exact List.mem_filter

/-- The state after a collection. -/
def TransactionManager.collected (mgr : TransactionManager) : TransactionManager :=
  { mgr with txnMap := keepEntries mgr.txnMap fun id txn => !mgr.collectable id txn }

/-- Only a live serializable transaction counts for the lowest of their snapshots. -/
theorem fold_serial_le (entries : List (Sigma fun _ : TxnId => Transaction)) (start : Timestamp) :
    let lowest := entries.foldl
      (fun lowest entry =>
        if entry.2.isolationLevel = .serializable ∧ entry.2.live then
          min lowest entry.2.readTs else lowest)
      start
    lowest ≤ start ∧ ∀ entry ∈ entries, entry.2.isolationLevel = .serializable →
      entry.2.live = true → lowest ≤ entry.2.readTs := by
  induction entries generalizing start with
  | nil => exact ⟨Int.le_refl _, by simp⟩
  | cons first rest ih =>
      intro lowest
      obtain ⟨below, others⟩ := ih
        (if first.2.isolationLevel = .serializable ∧
          first.2.live then min start first.2.readTs else start)
      refine ⟨?_, ?_⟩
      · refine Int.le_trans below ?_
        split
        · exact Int.min_le_left _ _
        · exact Int.le_refl _
      · intro entry member serializable live
        rcases List.mem_cons.mp member with rfl | later
        · refine Int.le_trans below ?_
          rw [if_pos ⟨serializable, live⟩]
          exact Int.min_le_right _ _
        · exact others entry later serializable live

theorem serial_read_ts_le (found : mgr.txnMap.lookup id = some txn) (live : txn.live = true)
    (serializable : txn.isolationLevel = .serializable) : mgr.serialReadTs ≤ txn.readTs :=
  (fold_serial_le mgr.txnMap.entries INT64_MAX).2 ⟨id, txn⟩ (AList.mem_lookup_iff.mp found)
    serializable live

theorem live_kept (live : txn.live = true) : mgr.collectable id txn = false := by
  simp [TransactionManager.collectable, live]

theorem needed_kept (needed : id ∈ mgr.needed mgr.runningTxns.getWatermark) :
    mgr.collectable id txn = false := by
  simp [TransactionManager.collectable, needed]

/-- Neither a live transaction nor one that is needed loses its logs. -/
theorem logs_kept (kept : ∀ txn, mgr.txnMap.lookup link.prevTxn = some txn →
      mgr.collectable link.prevTxn txn = false) :
    mgr.collected.getUndoLogOptional link = mgr.getUndoLogOptional link := by
  have same : mgr.collected.txnMap.lookup link.prevTxn = mgr.txnMap.lookup link.prevTxn := by
    cases found : mgr.txnMap.lookup link.prevTxn with
    | none =>
        cases after : mgr.collected.txnMap.lookup link.prevTxn with
        | none => rfl
        | some txn => cases found.symm.trans (lookup_keep_some.mp after).1
    | some txn => exact lookup_keep_some.mpr ⟨found, by simp [kept txn found]⟩
  unfold TransactionManager.getUndoLogOptional
  rw [same]

/-- The chain above the watermark survives when the owners on it do. -/
theorem chain_collected {logs' : UndoLink → Option UndoLog} {image : UndoLink → Stage}
    {horizon upper : Timestamp} {row : Option Tuple} {older : List Stage}
    (stand : LogsStand mgr.getUndoLogOptional image) (raised : horizon ≤ watermark)
    (chain : Chain mgr.getUndoLogOptional image horizon upper row link older)
    (above : watermark < upper) (fuel : Nat) (dated : ∀ stage ∈ older, 0 ≤ stage.1)
    (enough : ∀ stage ∈ older.head?, stage.1 < fuel)
    (kept : ∀ link', link'.prevTxn ∈ mgr.neededFrom watermark fuel link →
      logs' link' = mgr.getUndoLogOptional link') :
    Chain logs' image watermark upper row link older := by
  induction chain generalizing fuel with
  | stale low => lia
  | root invalid => exact Chain.root invalid
  | @older upper row link log rest valid found before covers below ih =>
      have positive := dated _ (List.mem_cons_self ..)
      have bound := enough _ rfl
      cases fuel with
      | zero => lia
      | succ fuel =>
          have ts := (stand link log found).1
          have unfolded : mgr.neededFrom watermark (fuel + 1) link = link.prevTxn ::
              (if log.ts ≤ watermark then []
                else mgr.neededFrom watermark fuel log.prevVersion) := by
            simp [TransactionManager.neededFrom, valid, found]
          rw [unfolded] at kept
          have here := (kept link (List.mem_cons_self ..)).trans found
          refine Chain.older valid here before covers ?_
          by_cases low : log.ts ≤ watermark
          · exact Chain.stale (ts ▸ low)
          · rw [if_neg low] at kept
            refine ih (by lia) fuel (fun stage member =>
                dated stage (List.mem_cons_of_mem _ member)) ?_
              (fun link' member => kept link' (List.mem_cons_of_mem _ member))
            intro stage first
            cases below with
            | stale low' => lia
            | root _ => cases first
            | older _ _ before' _ _ =>
                obtain rfl := Option.some.inj first
                push_cast at bound
                lia

end Collecting

section Collections
variable {before after : History} {id : TxnId} {txn : Transaction} {ids : List TxnId} {rid : RID}
  {slot : Slot}

/-- A history after a collection. -/
def History.collected (history : History) : History :=
  { history with mgr := history.mgr.collected, horizon := history.mgr.runningTxns.getWatermark }

/-- The watermark lies between the last one and the snapshots. -/
theorem watermark_bounds (clock : ClockInv before ids) :
    before.horizon ≤ before.mgr.runningTxns.getWatermark ∧
      before.mgr.runningTxns.getWatermark ≤ before.mgr.lastCommitTs ∧
      ∀ id txn, before.Live id txn → before.mgr.runningTxns.getWatermark ≤ txn.readTs := by
  have read {id : TxnId} {txn : Transaction} (live : before.Live id txn) : txn.readTs ∈
    ids.map fun id => ((before.mgr.txnMap.lookup id).map Transaction.readTs).getD 0 :=
    List.mem_map.mpr ⟨id, (clock.exact id).mpr ⟨txn, live⟩, by rw [live.1]; rfl⟩
  have bounds : before.horizon ≤ before.mgr.runningTxns.getWatermark ∧
      before.mgr.runningTxns.getWatermark ≤ before.mgr.lastCommitTs := by
    rcases Watermark.watermark_cases clock.reads with same | member
    · rw [same, clock.commitTs]
      exact ⟨clock.last.2, Int.le_refl _⟩
    · obtain ⟨id, inside, same⟩ := List.mem_map.mp member
      obtain ⟨txn, live⟩ := (clock.exact id).mp inside
      rw [live.1, Option.map_some, Option.getD_some] at same
      rw [← same]
      exact (clock.readTs id txn live).2
  exact ⟨bounds.1, bounds.2, fun id txn live => Watermark.watermark_le clock.reads (read live)⟩

theorem collected_live : before.collected.Live id txn ↔ before.Live id txn := by
  constructor
  · rintro ⟨found, live⟩
    exact ⟨(lookup_keep_some.mp found).1, live⟩
  · rintro ⟨found, live⟩
    exact ⟨lookup_keep_some.mpr ⟨found, by simp [live_kept live]⟩, live⟩

theorem collected_stand (store : StoreInv before) :
    LogsStand before.collected.logs before.collected.image := by
  intro link log found
  obtain ⟨txn, here, logged⟩ := Option.bind_eq_some_iff.mp found
  refine store.logs link log ?_
  exact Option.bind_eq_some_iff.mpr ⟨txn, (lookup_keep_some.mp here).1, logged⟩

/-- What a slot above the watermark hangs on is needed. -/
theorem slot_chain_collected (inv : Inv before) (clock : ClockInv before ids)
    (found : before.mgr.heap.lookup rid = some slot) {row : Option Tuple} {older : List Stage}
    (chain : Chain before.logs before.image before.horizon slot.metadata.ts row
      (before.link rid) older)
    (dated : ∀ stage ∈ older, 0 ≤ stage.1 ∧ stage.1 ≤ before.mgr.lastCommitTs) :
    Chain before.collected.logs before.image before.mgr.runningTxns.getWatermark
      slot.metadata.ts row
      (before.link rid) older := by
  by_cases low : slot.metadata.ts ≤ before.mgr.runningTxns.getWatermark
  · exact Chain.stale low
  · have last := clock.last.1
    refine chain_collected inv.store.logs (watermark_bounds clock).1 chain (Int.not_le.mp low)
      (before.mgr.lastCommitTs.toNat + 2) (fun stage member => (dated stage member).1) ?_ ?_
    · intro stage first
      have bound := dated stage (List.mem_of_mem_head? first)
      push_cast
      lia
    · intro link owner
      refine logs_kept fun txn _ => needed_kept ?_
      refine List.mem_flatMap.mpr ⟨⟨rid, slot⟩, AList.mem_lookup_iff.mp found, ?_⟩
      rw [if_neg low]
      exact owner

theorem slot_collected (inv : Inv before) (clock : ClockInv before ids)
    (found : before.mgr.heap.lookup rid = some slot) : SlotInv before.collected rid slot := by
  cases inv.store.slot rid slot found with
  | settled row older free whole shows chain =>
      refine SlotInv.settled row older free whole shows
        (slot_chain_collected inv clock found chain ?_)
      intro stage member
      exact stages_dated inv.store whole (List.mem_cons_of_mem _ member) clock.last.1
  | owned id txn row all live written alone shows stamped whole chain older origin =>
      refine SlotInv.owned id txn row all (collected_live.mpr live) written alone
        shows stamped whole
        (slot_chain_collected inv clock found chain ?_) older ?_
      · exact fun stage member => stages_dated inv.store whole member clock.last.1
      · cases origin with
        | created unlinked noOrigin fresh => exact OriginInv.created unlinked noOrigin fresh
        | logged link log origin own owner here known same prev valid =>
            refine OriginInv.logged link log origin own owner ?_ known same prev valid
            refine (logs_kept fun record present => ?_).trans here
            rw [owner, live.1] at present
            rw [← Option.some.inj present]
            exact live_kept live.2

/-- Nobody is inside a call. -/
theorem quiescent (inv : Inv before)
    (quiet : before.mgr.txnMap.keys.all fun id => (before.mgr.control id).atRest) (id : TxnId) :
    (before.mgr.control id).atRest = true := by
  rcases call_live (inv.calls id) with idle | ⟨txn, live⟩
  · rw [idle]
    rfl
  · refine List.all_eq_true.mp quiet id ?_
    rw [← AList.mem_keys]
    exact AList.lookup_isSome.mp (by rw [live.1]; rfl)

theorem collected_clock (clock : ClockInv before ids) : ClockInv before.collected ids := by
  obtain ⟨_, below, snapshots⟩ := watermark_bounds clock
  refine ⟨clock.unique, fun id => ?_, ?_, clock.commitTs, clock.room, clock.bound, ?_, ?_,
    clock.last.1, below⟩
  · rw [clock.exact]
    simp only [collected_live]
  · have reads : (ids.map fun id =>
        ((before.collected.mgr.txnMap.lookup id).map Transaction.readTs).getD 0) =
        ids.map fun id => ((before.mgr.txnMap.lookup id).map Transaction.readTs).getD 0 := by
      refine List.map_congr_left fun id member => ?_
      obtain ⟨txn, live⟩ := (clock.exact id).mp member
      rw [live.1, (collected_live.mpr live).1]
    rw [reads]
    exact clock.reads
  · intro id txn found
    exact clock.known id txn (lookup_keep_some.mp found).1
  · intro id txn live
    have was := collected_live.mp live
    have snapshot := clock.readTs id txn was
    exact ⟨snapshot.1, snapshots id txn was, snapshot.2.2⟩

/-- A committed writer that a validation may ask for is not collected. -/
theorem collected_recorded (recorded : RecordedInv before) : RecordedInv before.collected := by
  intro id txn live serializable rid version member late
  have was := collected_live.mp live
  obtain ⟨writer, slot, found, committed, commitTs, facts⟩ :=
    recorded id txn was serializable rid version member late
  have lowest := serial_read_ts_le was.1 was.2 serializable
  have kept : before.mgr.collectable version.writer writer = false := by
    have recent : ¬ writer.commitTs ≤ before.mgr.serialReadTs := by lia
    simp [TransactionManager.collectable, committed, recent]
  exact ⟨writer, slot, lookup_keep_some.mpr ⟨found, by simp [kept]⟩, committed, commitTs, facts⟩

theorem collected_inv (inv : Inv before)
    (quiet : before.mgr.txnMap.keys.all fun id => (before.mgr.control id).atRest) :
    Inv before.collected := by
  obtain ⟨ids, clock⟩ := inv.clock
  refine ⟨⟨ids, collected_clock clock⟩, ?_, ?_, collected_recorded inv.recorded, ?_⟩
  · exact ⟨fun rid slot found => slot_collected inv clock found, inv.store.empty, inv.store.fits,
      inv.store.pendingShape, inv.store.committedShape, inv.store.links, collected_stand inv.store,
      inv.store.sorted, inv.store.dated⟩
  · constructor
    · exact fun id txn live => inv.writes.owes id txn (collected_live.mp live)
    · intro id rid written
      obtain ⟨txn, live⟩ := inv.writes.live id rid written
      exact ⟨txn, collected_live.mpr live⟩
  · intro id
    have rest := quiescent inv quiet id
    have call := inv.calls id
    change CallInv before.collected id (before.mgr.control id)
    cases stage : before.mgr.control id with
    | idle => trivial
    | threw rid =>
        rw [stage] at call
        exact call
    | returned rid visible =>
        rw [stage] at call
        obtain ⟨txn, live, same⟩ := call
        exact ⟨txn, collected_live.mpr live, same⟩
    | _ => simp [stage, Control.atRest] at rest

theorem collected_step (stepped : before.step .garbageCollection = some after) :
    after = before.collected ∧
      (before.mgr.txnMap.keys.all fun id => (before.mgr.control id).atRest) = true := by
  obtain ⟨mgr, ran, rfl⟩ := Option.map_eq_some_iff.mp stepped
  simp only [TransactionManager.step, TransactionManager.garbageCollection] at ran
  split at ran
  · rename_i quiet
    obtain rfl := Option.some.inj ran
    exact ⟨rfl, quiet⟩
  · cases ran

theorem gc_inv (inv : Inv before) (stepped : before.step .garbageCollection = some after) :
    Inv after := by
  obtain ⟨rfl, quiet⟩ := collected_step stepped
  exact collected_inv inv quiet

end Collections

end BusTub
