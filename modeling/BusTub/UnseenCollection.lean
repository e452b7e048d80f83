import BusTub.WriteConflicts

/-!
Garbage collection is not seen. A store that was collected and one that was not
go through the same steps with the same answers: they differ in the records of
finished transactions, and no step looks at those that are gone.
-/

namespace BusTub

open TransitionSystem (Run graph run_follows)
open TransactionManager (keepEntries)

def TransactionManager.without (mgr : TransactionManager) (gone : TxnId → Bool) :
    TransactionManager :=
  { mgr with txnMap := keepEntries mgr.txnMap fun id _ => !gone id }

/-- Transactions of the past that nobody asks for: they are finished, and what
they have committed is part of the snapshot of every serializable transaction. -/
structure Forgotten (history : History) (gone : TxnId → Bool) : Prop where
  old : ∀ id, gone id = true → id < history.mgr.nextTxnId
  dead : ∀ id txn, gone id = true → ¬ history.Live id txn
  early : ∀ id txn, gone id = true → history.mgr.txnMap.lookup id = some txn →
    txn.state = .committed → txn.writeSet ≠ [] → ∀ reader record, history.Live reader record →
      record.isolationLevel = .serializable → txn.commitTs ≤ record.readTs

structure Twins (gone : TxnId → Bool) (full lean : History) : Prop where
  mgr : lean.mgr = full.mgr.without gone
  inv : Inv full
  written : WrittenInv full
  leanInv : Inv lean
  forgotten : Forgotten full gone

section Lookups
variable {mgr : TransactionManager} {gone : TxnId → Bool} {id : TxnId} {txn : Transaction}

theorem lookup_without :
    (mgr.without gone).txnMap.lookup id = if gone id then none else mgr.txnMap.lookup id := by
  apply Option.ext
  intro txn
  refine lookup_keep_some.trans ?_
  cases gone id <;> simp

theorem lookup_kept (kept : gone id = false) :
    (mgr.without gone).txnMap.lookup id = mgr.txnMap.lookup id := by
  simp [lookup_without, kept]

theorem filter_kerase (entries : List (Sigma fun _ : TxnId => Transaction))
    (kept : gone id = false) :
    (entries.kerase id).filter (fun entry => !gone entry.1) =
      (entries.filter fun entry => !gone entry.1).kerase id := by
  induction entries with
  | nil => rfl
  | cons first rest ih =>
      by_cases here : id = first.1
      · rw [List.kerase_cons_eq here, List.filter_cons_of_pos (by simp [← here, kept]),
          List.kerase_cons_eq here]
      · rw [List.kerase_cons_ne here]
        cases gone : gone first.1 with
        | false => simp [gone, List.kerase_cons_ne here, ih]
        | true => simp [gone, ih]

theorem set_txn_without (kept : gone id = false) (txn : Transaction) :
    (mgr.without gone).setTxn id txn = (mgr.setTxn id txn).without gone := by
  have entries : (keepEntries mgr.txnMap fun id _ => !gone id).insert id txn =
      keepEntries (mgr.txnMap.insert id txn) fun id _ => !gone id := by
    apply AList.ext
    simp only [AList.entries_insert, keepEntries]
    rw [List.filter_cons_of_pos (by simp [kept]), filter_kerase _ kept]
  unfold TransactionManager.setTxn TransactionManager.without
  rw [entries]

theorem update_undo_link_without (mgr : TransactionManager) (gone : TxnId → Bool) (rid : RID)
    (link : Option UndoLink) :
    (mgr.without gone).updateUndoLink rid link = (mgr.updateUndoLink rid link).without gone := by
  cases link <;> rfl

end Lookups

section Twinned
variable {full lean : History} {gone : TxnId → Bool} {id : TxnId} {txn : Transaction}
  {mgr : TransactionManager} {link : UndoLink}

theorem gone_idle (twins : Twins gone full lean) (hidden : gone id = true) :
    full.mgr.control id = .idle := by
  rcases call_live (twins.inv.calls id) with idle | ⟨txn, live⟩
  · exact idle
  · exact absurd live (twins.forgotten.dead id txn hidden)

theorem live_kept_record (twins : Twins gone full lean) (live : full.Live id txn) :
    gone id = false := by
  cases hidden : gone id with
  | false => rfl
  | true => exact absurd live (twins.forgotten.dead id txn hidden)

theorem ready_without (twins : Twins gone full lean) (id : TxnId) :
    (full.mgr.without gone).ready id = full.mgr.ready id := by
  cases hidden : gone id with
  | false =>
      unfold TransactionManager.ready
      rw [lookup_kept hidden]
      rfl
  | true =>
      have nobody : full.mgr.ready id = none := by
        rw [Option.eq_none_iff_forall_not_mem]
        intro txn ready
        obtain ⟨found, live, _⟩ := TransactionManager.ready_iff.mp ready
        exact twins.forgotten.dead id txn hidden ⟨found, live⟩
      rw [nobody]
      unfold TransactionManager.ready
      simp [lookup_without, hidden]

theorem log_kept {log : UndoLog} (found : (mgr.without gone).getUndoLogOptional link = some log) :
    mgr.getUndoLogOptional link = some log := by
  obtain ⟨txn, here, logged⟩ := Option.bind_eq_some_iff.mp found
  rw [lookup_without] at here
  split at here
  · cases here
  · exact Option.bind_eq_some_iff.mpr ⟨txn, here, logged⟩

/-- A step that looks its transaction up: in a call the record is there, and it is the same one. -/
theorem record_without (twins : Twins gone full lean)
    (call leanCall : Transaction → Option TransactionManager)
    (idle : full.mgr.control id = .idle → ∀ txn, call txn = none)
    (same : ∀ txn, full.mgr.txnMap.lookup id = some txn → gone id = false →
      leanCall txn = (call txn).map (·.without gone)) :
    ((full.mgr.without gone).txnMap.lookup id).bind leanCall =
      ((full.mgr.txnMap.lookup id).bind call).map (·.without gone) := by
  cases hidden : gone id with
  | false =>
      rw [lookup_kept hidden]
      cases found : full.mgr.txnMap.lookup id with
      | none => rfl
      | some txn => exact same txn found hidden
  | true =>
      rw [lookup_without, if_pos hidden]
      cases full.mgr.txnMap.lookup id with
      | none => rfl
      | some txn =>
          rw [Option.bind_some, idle (gone_idle twins hidden) txn]
          rfl

theorem live_twin (twins : Twins gone full lean) (live : full.Live id txn) : lean.Live id txn := by
  refine ⟨?_, live.2⟩
  rw [twins.mgr, lookup_kept (live_kept_record twins live)]
  exact live.1

theorem control_twin (twins : Twins gone full lean) : lean.mgr.control = full.mgr.control := by
  rw [twins.mgr]
  rfl

theorem ready_kept (twins : Twins gone full lean) (ready : full.mgr.ready id = some txn) :
    gone id = false := by
  obtain ⟨found, live, _⟩ := TransactionManager.ready_iff.mp ready
  exact live_kept_record twins ⟨found, live⟩

theorem scan_without (twins : Twins gone full lean) (oid : TableOid) (predicate : Predicate) :
    (full.mgr.without gone).appendScanPredicate id oid predicate =
      (full.mgr.appendScanPredicate id oid predicate).map (·.without gone) := by
  unfold TransactionManager.appendScanPredicate
  rw [ready_without twins]
  cases ready : full.mgr.ready id with
  | none => rfl
  | some txn =>
      simp only [Option.bind_eq_bind, Option.bind_some, Option.map_some]
      rw [set_txn_without (ready_kept twins ready)]
      rfl

theorem read_without (twins : Twins gone full lean) (rid : RID) :
    (full.mgr.without gone).read id rid = (full.mgr.read id rid).map (·.without gone) := by
  unfold TransactionManager.read
  rw [ready_without twins]
  cases full.mgr.ready id with
  | none => rfl
  | some txn =>
      change (full.mgr.heap.lookup rid).bind _ = ((full.mgr.heap.lookup rid).bind _).map _
      cases full.mgr.heap.lookup rid with
      | none => rfl
      | some slot =>
          simp only [Option.bind_some]
          split <;> rfl

theorem fetch_without (twins : Twins gone full lean) :
    (full.mgr.without gone).fetch id = (full.mgr.fetch id).map (·.without gone) := by
  refine record_without twins _ _ ?_ ?_
  · intro idle txn
    simp [idle]
  · intro txn found kept
    have control : (full.mgr.without gone).control id = full.mgr.control id := rfl
    rw [control]
    cases stage : full.mgr.control id with
    | collecting rid base baseMeta logs link =>
        have call := twins.inv.calls id
        rw [stage] at call
        obtain ⟨record, live, _⟩ := call
        have leanStage : lean.mgr.control id = .collecting rid base baseMeta logs link := by
          rw [control_twin twins, stage]
        obtain ⟨_, log, here, _⟩ := fetch_spec twins.leanInv (live_twin twins live) leanStage
        rw [twins.mgr] at here
        simp only [here, log_kept here]
        split <;> rfl
    | _ => rfl

theorem write_conflict_without (twins : Twins gone full lean) :
    (full.mgr.without gone).throwWriteConflict id =
      (full.mgr.throwWriteConflict id).map (·.without gone) := by
  unfold TransactionManager.throwWriteConflict
  rw [ready_without twins]
  cases ready : full.mgr.ready id with
  | none => rfl
  | some txn =>
      simp only [Option.bind_eq_bind, Option.bind_some]
      rw [set_txn_without (ready_kept twins ready)]
      split <;> rfl

theorem insert_without (twins : Twins gone full lean) (oid : TableOid) (rid : RID) (tuple : Tuple) :
    (full.mgr.without gone).insertTuple id oid rid tuple =
      (full.mgr.insertTuple id oid rid tuple).map (·.without gone) := by
  unfold TransactionManager.insertTuple
  rw [ready_without twins]
  cases ready : full.mgr.ready id with
  | none => rfl
  | some txn =>
      simp only [Option.bind_eq_bind, Option.bind_some]
      rw [set_txn_without (ready_kept twins ready)]
      change (if (full.mgr.heap.lookup rid).isSome ∨
        ¬ tuple.Fits (full.mgr.catalog oid) then none else _) = _
      split <;> rfl

theorem modify_without (twins : Twins gone full lean) (rid : RID) (target : Option Tuple)
    (requireDeleted : Bool) :
    (full.mgr.without gone).modifyTuple id rid target requireDeleted =
      (full.mgr.modifyTuple id rid target requireDeleted).map fun answer =>
        (answer.1, answer.2.without gone) := by
  unfold TransactionManager.modifyTuple
  rw [ready_without twins, write_conflict_without twins]
  cases ready : full.mgr.ready id with
  | none => rfl
  | some txn =>
      have kept := ready_kept twins ready
      simp only [Option.bind_eq_bind, Option.bind_some, set_txn_without kept]
      change (full.mgr.heap.lookup rid).bind _ = ((full.mgr.heap.lookup rid).bind _).map _
      cases full.mgr.heap.lookup rid with
      | none => rfl
      | some slot =>
          simp only [Option.bind_some]
          change (if ∃ tuple ∈ target, ¬ tuple.Fits (full.mgr.catalog slot.oid) then none else _) =
            _
          split
          · rfl
          · split
            · cases full.mgr.throwWriteConflict id <;> rfl
            · change (if full.mgr.undoThrows id txn slot (full.mgr.getUndoLink rid) target then none
                else _) = _
              split
              · rfl
              · cases slot.updateTupleInPlace { ts := id, isDeleted := target.isNone }
                    (target.getD slot.tuple) with
                | none => rfl
                | some updated =>
                    let (recorded, link) :=
                      full.mgr.recordUndo id txn slot (full.mgr.getUndoLink rid) target
                    let written :=
                      (full.mgr.setTxn id (recorded.appendWriteSet slot.oid rid)).setControl id
                        .idle
                    exact congrArg (fun mgr => some (ModifyResult.done, mgr))
                      (update_undo_link_without (written.setSlot rid updated) gone rid link)

theorem changed_without (twins : Twins gone full lean) (live : full.Live id txn)
    (serializable : txn.isolationLevel = .serializable) :
    (full.mgr.without gone).changed txn = full.mgr.changed txn := by
  unfold TransactionManager.changed TransactionManager.without keepEntries
  dsimp only
  congr 1
  -- an entry that is gone contributes no write
  have nothing (entry : Sigma fun _ : TxnId => Transaction)
    (member : entry ∈ full.mgr.txnMap.entries)
    (hidden : gone entry.1 = true) (recent : entry.2.state = .committed ∧
      entry.2.commitTs > txn.readTs) :
    entry.2.writeSet = [] := by
    by_contra wrote
    have before :=
      twins.forgotten.early entry.1 entry.2 hidden (AList.mem_lookup_iff.mpr member)
        recent.1 wrote id txn
      live serializable
    lia
  generalize full.mgr.txnMap.entries = entries at nothing
  induction entries with
  | nil => rfl
  | cons first rest ih =>
      have others := ih fun entry member => nothing entry (List.mem_cons_of_mem _ member)
      cases hidden : gone first.1 with
      | false =>
          rw [List.filter_cons_of_pos (by simp [hidden]), List.flatMap_cons,
            List.flatMap_cons, others]
      | true =>
          rw [List.filter_cons_of_neg (by simp [hidden]), List.flatMap_cons, others]
          split
          · rename_i recent
            rw [nothing first List.mem_cons_self hidden recent]
            rfl
          · rfl

theorem commit_without (twins : Twins gone full lean) :
    (full.mgr.without gone).commit id = (full.mgr.commit id).map (·.without gone) := by
  unfold TransactionManager.commit
  rw [ready_without twins]
  cases ready : full.mgr.ready id with
  | none => rfl
  | some txn =>
      simp only [Option.bind_eq_bind, Option.bind_some]
      change (if txn.state ≠ .running ∨ full.mgr.commitMutex.isSome then none else _) = _
      split
      · rfl
      · by_cases checked : txn.isolationLevel = .serializable ∧ txn.writeSet ≠ []
        · obtain ⟨found, live, _⟩ := TransactionManager.ready_iff.mp ready
          rw [if_pos checked, if_pos checked, changed_without twins ⟨found, live⟩ checked.1]
          rfl
        · rw [if_neg checked, if_neg checked]
          rfl

theorem verify_rid_without (oid : TableOid) (rid : RID) :
    (full.mgr.without gone).verifyRid id oid rid =
      (full.mgr.verifyRid id oid rid).map (·.without gone) := by
  unfold TransactionManager.verifyRid
  have control : (full.mgr.without gone).control id = full.mgr.control id := rfl
  have heap : (full.mgr.without gone).heap = full.mgr.heap := rfl
  rw [control, heap]
  cases full.mgr.control id with
  | verifying rest walk =>
      cases walk with
      | none =>
          dsimp only
          split
          · cases full.mgr.heap.lookup rid <;> rfl
          · rfl
      | some walk => rfl
  | _ => rfl

theorem log_behind_without (twins : Twins gone full lean)
    (found : full.mgr.txnMap.lookup id = some txn) {rest : List (TableOid × RID)}
    {walk : VersionWalk} (stage : full.mgr.control id = .verifying rest (some walk))
    (late : txn.readTs < walk.metadata.ts) :
    (full.mgr.without gone).logBehind walk = full.mgr.logBehind walk := by
  have leanStage : lean.mgr.control id = .verifying rest (some walk) := by
    rw [control_twin twins, stage]
  obtain ⟨_, record, _, _, live, _, _, verify⟩ := verifying_facts twins.leanInv leanStage
  obtain rfl : txn = record := by
    obtain ⟨_, other, found', _, live', _⟩ := verifying_facts twins.inv stage
    obtain rfl := Option.some.inj (found.symm.trans found')
    exact Option.some.inj ((live_twin twins live').1.symm.trans live.1)
  obtain ⟨ids, clock⟩ := twins.leanInv.clock
  have snapshot := clock.readTs id txn live
  unfold TransactionManager.logBehind
  cases verify with
  | walking _ rid newer older walks left =>
      split
      · rename_i valid
        obtain ⟨log, _, here, _⟩ := chain_link (by lia) valid walks.chain
        rw [History.logs, twins.mgr] at here
        rw [here, log_kept here]
      · rfl

theorem verify_version_without (twins : Twins gone full lean) :
    (full.mgr.without gone).verifyVersion id =
      (full.mgr.verifyVersion id).map (·.without gone) := by
  refine record_without twins _ _ ?_ ?_
  · intro idle txn
    simp [idle]
  · intro txn found kept
    have control : (full.mgr.without gone).control id = full.mgr.control id := rfl
    rw [control]
    cases stage : full.mgr.control id with
    | verifying rest walk =>
        cases walk with
        | none => rfl
        | some walk =>
            by_cases reached : walk.metadata.ts ≤ txn.readTs
            · dsimp only
              rw [if_pos reached, if_pos reached]
              rfl
            · have behind := log_behind_without twins found stage (Int.not_le.mp reached)
              have row : (full.mgr.without gone).rowBehind walk = full.mgr.rowBehind walk := by
                rw [TransactionManager.rowBehind, TransactionManager.rowBehind, behind]
              have refuses : (full.mgr.without gone).walkMatches txn walk =
                  full.mgr.walkMatches txn walk := by
                rw [TransactionManager.walkMatches, TransactionManager.walkMatches, row]
              have back : (full.mgr.without gone).walkBack walk = full.mgr.walkBack walk := by
                rw [TransactionManager.walkBack, TransactionManager.walkBack, behind, row]
              dsimp only
              rw [if_neg reached, if_neg reached, refuses, back]
              cases full.mgr.walkMatches txn walk <;> rfl
    | _ => rfl

theorem verified_without (twins : Twins gone full lean) :
    (full.mgr.without gone).verified id = (full.mgr.verified id).map (·.without gone) := by
  refine record_without twins _ _ ?_ ?_
  · intro idle txn
    simp [idle]
  · intro txn _ _
    have control : (full.mgr.without gone).control id = full.mgr.control id := rfl
    rw [control]
    cases full.mgr.control id with
    | verifying rest walk => cases rest <;> cases walk <;> rfl
    | _ => rfl

theorem stamp_without (oid : TableOid) (rid : RID) :
    (full.mgr.without gone).stamp id oid rid =
      (full.mgr.stamp id oid rid).map (·.without gone) := by
  unfold TransactionManager.stamp
  have control : (full.mgr.without gone).control id = full.mgr.control id := rfl
  have heap : (full.mgr.without gone).heap = full.mgr.heap := rfl
  rw [control, heap]
  cases full.mgr.control id with
  | stamping commitTs rest =>
      dsimp only
      split
      · cases full.mgr.heap.lookup rid with
        | none => rfl
        | some slot =>
            simp only [Option.bind_eq_bind, Option.bind_some]
            split
            · let metadata : TupleMeta := { ts := commitTs, isDeleted := slot.metadata.isDeleted }
              cases slot.updateTupleInPlace metadata slot.tuple <;> rfl
            · rfl
      · rfl
  | _ => rfl

theorem publish_without (twins : Twins gone full lean) :
    (full.mgr.without gone).publish id = (full.mgr.publish id).map (·.without gone) := by
  refine record_without twins _ _ ?_ ?_
  · intro idle txn
    simp [idle]
  · intro txn _ kept
    have control : (full.mgr.without gone).control id = full.mgr.control id := rfl
    rw [control]
    simp only [set_txn_without kept]
    cases full.mgr.control id with
    | stamping commitTs rest => cases rest <;> rfl
    | _ => rfl

theorem abort_without (twins : Twins gone full lean) :
    (full.mgr.without gone).abort id = (full.mgr.abort id).map (·.without gone) := by
  unfold TransactionManager.abort
  rw [ready_without twins]
  cases full.mgr.ready id <;> rfl

theorem rollback_without (twins : Twins gone full lean) (oid : TableOid) (rid : RID) :
    (full.mgr.without gone).rollback id oid rid =
      (full.mgr.rollback id oid rid).map (·.without gone) := by
  refine record_without twins _ _ ?_ ?_
  · intro idle txn
    simp [idle]
  · intro txn _ kept
    have control : (full.mgr.without gone).control id = full.mgr.control id := rfl
    have heap : (full.mgr.without gone).heap = full.mgr.heap := rfl
    have links : (full.mgr.without gone).getUndoLink rid = full.mgr.getUndoLink rid := rfl
    rw [control, heap, links]
    cases full.mgr.control id with
    | rollingBack rest =>
        dsimp only
        split
        · cases full.mgr.heap.lookup rid with
          | none => rfl
          | some slot =>
              simp only [Option.bind_eq_bind, Option.bind_some]
              split
              · rfl
              · cases (full.mgr.getUndoLink rid).filter fun link => link.prevTxn = id with
                | none =>
                    cases slot.updateTupleInPlace { ts := 0, isDeleted := true } slot.tuple <;> rfl
                | some link =>
                    dsimp only
                    cases txn.undoLogs[link.prevLogIdx]? with
                    | none => rfl
                    | some log =>
                        simp only [Option.bind_some]
                        cases slot.updateTupleInPlace { ts := log.ts, isDeleted := log.isDeleted }
                          ((reconstructTuple slot.tuple slot.metadata [log]).getD slot.tuple) with
                        | none => rfl
                        | some restored =>
                            let next :=
                              full.mgr.setControl id (.rollingBack (rest.erase (oid, rid)))
                            exact congrArg some
                              (update_undo_link_without (next.setSlot rid restored) gone rid _)
        · rfl
    | _ => rfl

theorem aborted_without (twins : Twins gone full lean) :
    (full.mgr.without gone).aborted id = (full.mgr.aborted id).map (·.without gone) := by
  refine record_without twins _ _ ?_ ?_
  · intro idle txn
    simp [idle]
  · intro txn _ kept
    have control : (full.mgr.without gone).control id = full.mgr.control id := rfl
    rw [control]
    simp only [set_txn_without kept]
    cases full.mgr.control id with
    | rollingBack rest => cases rest <;> rfl
    | _ => rfl

theorem begin_without (twins : Twins gone full lean) (isolationLevel : IsolationLevel) :
    (full.mgr.without gone).begin isolationLevel =
      (full.mgr.begin isolationLevel).map (·.without gone) := by
  have fresh : gone full.mgr.nextTxnId = false := by
    cases hidden : gone full.mgr.nextTxnId with
    | false => rfl
    | true =>
        have old := twins.forgotten.old _ hidden
        lia
  have recorded (txn : Transaction) : (full.mgr.without gone).setTxn full.mgr.nextTxnId txn =
      (full.mgr.setTxn full.mgr.nextTxnId txn).without gone := set_txn_without fresh txn
  unfold TransactionManager.begin
  have nextTxnId : (full.mgr.without gone).nextTxnId = full.mgr.nextTxnId := rfl
  have running : (full.mgr.without gone).runningTxns = full.mgr.runningTxns := rfl
  have last : (full.mgr.without gone).lastCommitTs = full.mgr.lastCommitTs := rfl
  rw [nextTxnId, running, last]
  split
  · rfl
  · cases full.mgr.runningTxns.addTxn full.mgr.lastCommitTs with
    | none => rfl
    | some running =>
        simp only [Option.bind_eq_bind, Option.bind_some, recorded]
        rfl

/-- The logs that the next collection keeps hang on the same chains. -/
theorem needed_from_without {watermark horizon upper : Timestamp} {image : UndoLink → Stage}
    {row : Option Tuple} {older : List Stage}
    (stand : LogsStand (mgr.without gone).getUndoLogOptional image)
    (chain : Chain (mgr.without gone).getUndoLogOptional image horizon upper row link older)
    (raised : horizon ≤ watermark) (above : watermark < upper) (fuel : Nat) :
    (mgr.without gone).neededFrom watermark fuel link = mgr.neededFrom watermark fuel link := by
  induction chain generalizing fuel with
  | stale low => lia
  | root invalid => cases fuel <;> simp [TransactionManager.neededFrom, invalid]
  | @older upper row link log rest valid found before covers below ih =>
      cases fuel with
      | zero => rfl
      | succ fuel =>
          have ts := (stand link log found).1
          simp only [TransactionManager.neededFrom, valid, found, log_kept found, if_true]
          by_cases low : log.ts ≤ watermark
          · simp [low]
          · rw [if_neg low, if_neg low, ih (by lia) fuel]

theorem needed_without (twins : Twins gone full lean) :
    (full.mgr.without gone).needed full.mgr.runningTxns.getWatermark =
      full.mgr.needed full.mgr.runningTxns.getWatermark := by
  obtain ⟨ids, clock⟩ := twins.leanInv.clock
  have raised := (watermark_bounds clock).1
  rw [twins.mgr] at raised
  unfold TransactionManager.needed
  have heap : (full.mgr.without gone).heap = full.mgr.heap := rfl
  rw [heap]
  apply List.flatMap_congr
  intro entry member
  split
  · rfl
  · rename_i high
    have found : lean.mgr.heap.lookup entry.1 = some entry.2 := by
      rw [twins.mgr]
      exact AList.mem_lookup_iff.mpr member
    have logs : lean.logs = (full.mgr.without gone).getUndoLogOptional := by
      rw [History.logs, twins.mgr]
    have stand := twins.leanInv.store.logs
    rw [logs] at stand
    have link : lean.link entry.1 = (full.mgr.getUndoLink entry.1).getD {} := by
      rw [History.link, twins.mgr]; rfl
    cases twins.leanInv.store.slot entry.1 entry.2 found with
    | settled row older _ _ _ chain =>
        rw [logs, link] at chain
        exact needed_from_without stand chain raised (Int.not_le.mp high) _
    | owned id txn row all _ _ _ _ _ _ chain _ _ =>
        rw [logs, link] at chain
        exact needed_from_without stand chain raised (Int.not_le.mp high) _

theorem serial_read_ts_without (twins : Twins gone full lean) :
    (full.mgr.without gone).serialReadTs = full.mgr.serialReadTs := by
  have dead (entry : Sigma fun _ : TxnId => Transaction) (member : entry ∈ full.mgr.txnMap.entries)
    (hidden : gone entry.1 = true) : entry.2.live = false := by
    have notLive := twins.forgotten.dead entry.1 entry.2 hidden
    rw [← Bool.not_eq_true]
    exact fun live => notLive ⟨AList.mem_lookup_iff.mpr member, live⟩
  unfold TransactionManager.serialReadTs TransactionManager.without keepEntries
  dsimp only
  generalize INT64_MAX = lowest
  generalize full.mgr.txnMap.entries = entries at dead
  induction entries generalizing lowest with
  | nil => rfl
  | cons first rest ih =>
      have others := fun lowest => ih lowest fun entry member =>
        dead entry (List.mem_cons_of_mem _ member)
      cases hidden : gone first.1 with
      | false =>
          rw [List.filter_cons_of_pos (by simp [hidden]), List.foldl_cons, List.foldl_cons, others]
      | true =>
          rw [List.filter_cons_of_neg (by simp [hidden]), List.foldl_cons, others,
            if_neg (by simp [dead first List.mem_cons_self hidden])]

theorem collectable_without (twins : Twins gone full lean) (id : TxnId) (txn : Transaction) :
    (full.mgr.without gone).collectable id txn = full.mgr.collectable id txn := by
  unfold TransactionManager.collectable
  rw [serial_read_ts_without twins]
  have running : (full.mgr.without gone).runningTxns = full.mgr.runningTxns := rfl
  rw [running, needed_without twins]

theorem collection_without (twins : Twins gone full lean) :
    (full.mgr.without gone).garbageCollection =
      full.mgr.garbageCollection.map (·.without gone) := by
  have known (mgr : TransactionManager) (id : TxnId) : id ∈ mgr.txnMap.keys ↔
      (mgr.txnMap.lookup id).isSome = true :=
    AList.mem_keys.symm.trans AList.lookup_isSome.symm
  have quiet : ((full.mgr.without gone).txnMap.keys.all fun id =>
      ((full.mgr.without gone).control id).atRest) =
      full.mgr.txnMap.keys.all fun id => (full.mgr.control id).atRest := by
    rw [Bool.eq_iff_iff, List.all_eq_true, List.all_eq_true]
    constructor
    · intro rest id member
      cases hidden : gone id with
      | true =>
          rw [gone_idle twins hidden]
          rfl
      | false =>
          exact rest id
            ((known _ id).mpr (by rw [lookup_kept hidden]; exact (known _ id).mp member))
    · intro rest id member
      apply rest id
      rw [known, lookup_without] at member
      split at member
      · cases member
      · exact (known _ id).mpr member
  unfold TransactionManager.garbageCollection
  rw [quiet]
  split
  · -- the two conditions on the entries commute
    simp only [collectable_without twins, Option.map_some]
    have entries (keep : TxnId → Transaction → Bool) :
        keepEntries (keepEntries full.mgr.txnMap fun id _ => !gone id) keep =
          keepEntries (keepEntries full.mgr.txnMap keep) fun id _ => !gone id := by
      apply AList.ext
      simp only [keepEntries, List.filter_filter]
      congr 1
      funext entry
      rw [Bool.and_comm]
    unfold TransactionManager.without
    simp only [entries]
  · rfl

theorem step_without (twins : Twins gone full lean) (op : TxnOp) :
    lean.mgr.step op = (full.mgr.step op).map (·.without gone) := by
  rw [twins.mgr]
  cases op with
  | begin isolationLevel => exact begin_without twins isolationLevel
  | scan id oid predicate => exact scan_without twins oid predicate
  | read id rid => exact read_without twins rid
  | fetch id => exact fetch_without twins
  | insert id oid rid tuple => exact insert_without twins oid rid tuple
  | modify id rid target requireDeleted =>
      simp only [TransactionManager.step]
      rw [modify_without twins, Option.map_map, Option.map_map]
      rfl
  | throwWriteConflict id => exact write_conflict_without twins
  | commit id => exact commit_without twins
  | verifyRid id oid rid => exact verify_rid_without oid rid
  | verifyVersion id => exact verify_version_without twins
  | verified id => exact verified_without twins
  | stamp id oid rid => exact stamp_without oid rid
  | publish id => exact publish_without twins
  | abort id => exact abort_without twins
  | rollback id oid rid => exact rollback_without twins oid rid
  | aborted id => exact aborted_without twins
  | garbageCollection => exact collection_without twins

end Twinned

section Kept
variable {before after : History} {gone : TxnId → Bool} {id : TxnId} {txn : Transaction}
  {op : TxnOp}

/-- What a committed transaction has written lies in the past. -/
theorem committed_past (inv : Inv before) (written : WrittenInv before)
    (found : before.mgr.txnMap.lookup id = some txn) (committed : txn.state = .committed)
    (wrote : txn.writeSet ≠ []) :
    txn.commitTs ≤ before.mgr.lastCommitTs := by
  obtain ⟨⟨oid, rid⟩, member⟩ := List.exists_mem_of_ne_nil _ wrote
  obtain ⟨version, here, _, _, same⟩ := written id txn found committed oid rid member
  have dated := (inv.store.dated rid version here).2.2
  lia

theorem step_forgotten (inv : Inv before) (written : WrittenInv before)
    (forgotten : Forgotten before gone)
    (stepped : before.step op = some after) : Forgotten after gone := by
  obtain ⟨ids, clock⟩ := inv.clock
  cases inside : op.within with
  | some actor =>
      have moved := within_moved inv stepped inside
      obtain ⟨_, _, acting, _⟩ := moved.own
      have elsewhere (id : TxnId) (hidden : gone id = true) : id ≠ actor := by
        rintro rfl
        exact forgotten.dead _ _ hidden acting
      refine ⟨fun id hidden => ?_, fun id txn hidden live => ?_, ?_⟩
      · rw [moved.nextTxnId]
        exact forgotten.old id hidden
      · exact forgotten.dead id txn hidden
          (live_of_lookup (moved.others id (elsewhere id hidden)).symm live)
      · intro id txn hidden found committed wrote reader record live serializable
        obtain ⟨old, was, readTs, isolationLevel, _⟩ := acts_live_back moved.toActs live
        rw [← readTs]
        exact forgotten.early id txn hidden
          ((moved.others id (elsewhere id hidden)).symm.trans found) committed wrote
          reader old was (isolationLevel.trans serializable)
  | none =>
      -- a transaction that ends leaves the others as they were
      have ends {actor : TxnId} {was now : Transaction} (ended : Ended before after actor was now) :
          Forgotten after gone := by
        have elsewhere (id : TxnId) (hidden : gone id = true) : id ≠ actor := by
          rintro rfl
          exact forgotten.dead _ _ hidden ended.was
        refine ⟨fun id hidden => ?_, fun id txn hidden live => ?_, ?_⟩
        · rw [ended.nextTxnId]
          exact forgotten.old id hidden
        · exact forgotten.dead id txn hidden ((ended_live ended).mp live).2
        · intro id txn hidden found committed wrote reader record live serializable
          exact forgotten.early id txn hidden
            ((ended.others id (elsewhere id hidden)).symm.trans found) committed wrote
            reader record ((ended_live ended).mp live).2 serializable
      cases op with
      | begin isolationLevel =>
          obtain ⟨running, begun⟩ := begun_step stepped
          have elsewhere (id : TxnId) (hidden : gone id = true) : id ≠ before.mgr.nextTxnId := by
            have old := forgotten.old id hidden
            lia
          refine ⟨fun id hidden => ?_, fun id txn hidden live => ?_, ?_⟩
          · have old := forgotten.old id hidden
            have next : after.mgr.nextTxnId = before.mgr.nextTxnId + 1 := by rw [begun.mgr]
            lia
          · rcases (begun_live begun clock).mp live with ⟨same, _⟩ | was
            · exact elsewhere id hidden same
            · exact forgotten.dead id txn hidden was
          · intro id txn hidden found committed wrote reader record live serializable
            have found' := (begun_others begun (elsewhere id hidden)).symm.trans found
            rcases (begun_live begun clock).mp live with ⟨_, rfl⟩ | was
            · rw [begun.empty.2.2]
              exact committed_past inv written found' committed wrote
            · exact forgotten.early id txn hidden found' committed wrote reader record
                was serializable
      | publish actor =>
          obtain ⟨_, _, _, published⟩ := published_step inv stepped
          exact ends published.toEnded
      | aborted actor =>
          obtain ⟨_, aborted⟩ := aborted_step inv stepped
          exact ends aborted.toEnded
      | garbageCollection =>
          obtain ⟨rfl, _⟩ := collected_step stepped
          refine ⟨forgotten.old, fun id txn hidden live =>
            forgotten.dead id txn hidden (collected_live.mp live), ?_⟩
          intro id txn hidden found committed wrote reader record live serializable
          exact forgotten.early id txn hidden (lookup_keep_some.mp found).1 committed
            wrote reader record
            (collected_live.mp live) serializable
      | _ => cases inside

end Kept

def Reads (history : History) (id : TxnId) (rid : RID) (visible : Option Tuple) : Prop :=
  ∃ fetches after, Run (graph History.step) history
    (.read id rid :: List.replicate fetches (.fetch id)) after ∧
      after.mgr.control id = .returned rid visible

/-- Two stores that nobody can tell apart: the same rows and links, every
transaction in its calls where it is in the other (so a `VerifyTxn` that has ended
has the same outcome), and the same row for whoever reads. -/
structure SameAnswers (left right : History) : Prop where
  heap : right.mgr.heap = left.mgr.heap
  versionInfo : right.mgr.versionInfo = left.mgr.versionInfo
  control : right.mgr.control = left.mgr.control
  lastCommitTs : right.mgr.lastCommitTs = left.mgr.lastCommitTs
  live : ∀ id txn, right.Live id txn ↔ left.Live id txn
  reads : ∀ id rid visible, Reads right id rid visible ↔ Reads left id rid visible

structure LogsThere (history : History) : Prop where
  reads : ∀ id rid base baseMeta logs link, history.mgr.control id =
    .collecting rid base baseMeta logs link → (history.mgr.getUndoLogOptional link).isSome
  returns : ∀ id rid, history.mgr.control id ≠ .threw rid
  aborts : ∀ id rest oid rid, history.mgr.control id = .rollingBack rest → (oid, rid) ∈ rest →
    (history.mgr.rollback id oid rid).isSome

/-- Whatever steps follow: they can be taken after the collection if and only if
they can be taken without it, nobody is told anything else, and no log is missing. -/
structure Invisible (before after : History) : Prop where
  later : ∀ ops history, Run (graph History.step) before ops history →
    ∃ other, Run (graph History.step) after ops other ∧ SameAnswers history other
  without : ∀ ops other, Run (graph History.step) after ops other →
    ∃ history, Run (graph History.step) before ops history ∧ SameAnswers history other
  logs : ∀ ops other, Run (graph History.step) after ops other → LogsThere other

section Unseen
variable {before after full full' lean lean' : History} {gone : TxnId → Bool} {ops : List TxnOp}
  {catalog : TableOid → Schema} {op : TxnOp}

theorem twins_step (twins : Twins gone full lean) (stepped : full.step op = some full') :
    ∃ lean', lean.step op = some lean' ∧ Twins gone full' lean' := by
  obtain ⟨mgr, ran, same⟩ := Option.map_eq_some_iff.mp stepped
  have matched : lean.step op = some { lean.record op with mgr := mgr.without gone } := by
    rw [History.step, step_without twins, ran]
    rfl
  refine ⟨_, matched, ?_, step_inv twins.inv stepped, step_written twins.inv twins.written stepped,
    step_inv twins.leanInv matched, step_forgotten twins.inv twins.written twins.forgotten stepped⟩
  rw [← same]

theorem twins_step_back (twins : Twins gone full lean) (stepped : lean.step op = some lean') :
    ∃ full', full.step op = some full' ∧ Twins gone full' lean' := by
  obtain ⟨mgr, ran, _⟩ := Option.map_eq_some_iff.mp stepped
  rw [step_without twins] at ran
  obtain ⟨next, ran', _⟩ := Option.map_eq_some_iff.mp ran
  have stepped' : full.step op = some { full.record op with mgr := next } := by
    rw [History.step, ran']
    rfl
  obtain ⟨lean'', matched, twins'⟩ := twins_step twins stepped'
  obtain rfl := Option.some.inj (matched.symm.trans stepped)
  exact ⟨_, stepped', twins'⟩

theorem twins_run (twins : Twins gone full lean) (run : Run (graph History.step) full ops full') :
    ∃ lean', Run (graph History.step) lean ops lean' ∧ Twins gone full' lean' := by
  have follows (full : History) (op : TxnOp) (full' lean : History) (twins : Twins gone full lean)
    (stepped : graph History.step full op full') :
    ∃ lean', graph History.step lean op lean' ∧ Twins gone full' lean' :=
    twins_step twins stepped
  exact run_follows follows run twins

theorem twins_run_back (twins : Twins gone full lean)
    (run : Run (graph History.step) lean ops lean') :
    ∃ full', Run (graph History.step) full ops full' ∧ Twins gone full' lean' := by
  have follows (lean : History) (op : TxnOp) (lean' full : History) (twins : Twins gone full lean)
    (stepped : graph History.step lean op lean') :
    ∃ full', graph History.step full op full' ∧ Twins gone full' lean' :=
    twins_step_back twins stepped
  exact run_follows follows run twins

theorem twins_same_answers (twins : Twins gone full lean) : SameAnswers full lean := by
  refine ⟨by
    rw [twins.mgr]; rfl, by rw [twins.mgr]; rfl, control_twin twins, by rw [twins.mgr]; rfl, ?_, ?_⟩
  · intro id txn
    constructor
    · rintro ⟨found, live⟩
      rw [twins.mgr, lookup_without] at found
      split at found
      · cases found
      · exact ⟨found, live⟩
    · exact live_twin twins
  · intro id rid visible
    constructor
    · rintro ⟨fetches, last, run, returned⟩
      obtain ⟨last', run', twins'⟩ := twins_run_back twins run
      exact ⟨fetches, last', run', by rw [← control_twin twins', returned]⟩
    · rintro ⟨fetches, last, run, returned⟩
      obtain ⟨last', run', twins'⟩ := twins_run twins run
      exact ⟨fetches, last', run', by rw [control_twin twins', returned]⟩

theorem inv_logs_there (inv : Inv before) : LogsThere before := by
  refine ⟨?_, ?_, ?_⟩
  · intro id rid base baseMeta logs link stage
    have call := inv.calls id
    rw [stage] at call
    obtain ⟨txn, live, _⟩ := call
    obtain ⟨_, log, found, _⟩ := fetch_spec inv live stage
    rw [found]
    rfl
  · intro id rid stage
    have call := inv.calls id
    rw [stage] at call
    exact call
  · intro id rest oid rid stage member
    obtain ⟨_, _, _, _, _, _, _, _, _, _, _, rolled, _⟩ := rollback_spec inv stage member
    rw [rolled]
    rfl

theorem collected_twins (inv : Inv before) (written : WrittenInv before)
    (quiet : before.mgr.txnMap.keys.all fun id => (before.mgr.control id).atRest) :
    ∃ gone, Twins gone before before.collected := by
  obtain ⟨ids, clock⟩ := inv.clock
  let gone (id : TxnId) : Bool := (before.mgr.txnMap.lookup id).any (before.mgr.collectable id)
  have hidden {id : TxnId} {txn : Transaction} (hides : gone id = true)
    (found : before.mgr.txnMap.lookup id = some txn) :
    before.mgr.collectable id txn = true := by
    simpa [gone, found] using hides
  have entries : keepEntries before.mgr.txnMap (fun id txn => !before.mgr.collectable id txn) =
      keepEntries before.mgr.txnMap fun id _ => !gone id := by
    apply AList.ext
    apply List.filter_congr
    intro entry member
    have found : before.mgr.txnMap.lookup entry.1 = some entry.2 := AList.mem_lookup_iff.mpr member
    simp [gone, found]
  refine ⟨gone, ?_, inv, written, collected_inv inv quiet, ?_, ?_, ?_⟩
  · change before.mgr.collected = _
    unfold TransactionManager.collected TransactionManager.without
    rw [entries]
  · intro id hides
    cases found : before.mgr.txnMap.lookup id with
    | none => simp [gone, found] at hides
    | some txn => exact (clock.known id txn found).2
  · intro id txn hides live
    cases (live_kept live.2).symm.trans (hidden hides live.1)
  · intro id txn hides found committed _ reader record live serializable
    have collectable := hidden hides found
    have lowest := serial_read_ts_le live.1 live.2 serializable
    simp [TransactionManager.collectable, committed] at collectable
    lia

/-- A collection changes no answer to anybody, ever. -/
theorem collection_is_invisible (reached : Reached catalog before)
    (collected : before.step .garbageCollection = some after) : Invisible before after := by
  obtain ⟨rfl, quiet⟩ := collected_step collected
  obtain ⟨gone, twins⟩ := collected_twins (reached_inv reached) (reached_written reached) quiet
  refine ⟨?_, ?_, ?_⟩
  · intro ops history run
    obtain ⟨other, run', twins'⟩ := twins_run twins run
    exact ⟨other, run', twins_same_answers twins'⟩
  · intro ops other run
    obtain ⟨history, run', twins'⟩ := twins_run_back twins run
    exact ⟨history, run', twins_same_answers twins'⟩
  · intro ops other run
    obtain ⟨_, _, twins'⟩ := twins_run_back twins run
    exact inv_logs_there twins'.leanInv

end Unseen

/-- The collection takes the first transaction; the second one's log is what the reader needs. -/
theorem overwritten_collects : (overwritten.step .garbageCollection).isSome = true := by decide

theorem overwritten_collection_invisible :
    Invisible overwritten ((overwritten.step .garbageCollection).get overwritten_collects) :=
  collection_is_invisible (reached_run overwritten_run_returns) (Option.some_get _).symm

end BusTub
