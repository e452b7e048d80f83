import BusTub.LedgerSteps
import BusTub.SnapshotReads

/-!
An abort puts every slot back as its transaction found it, and nobody else sees
any of it.
-/

namespace BusTub

open TransitionSystem (Run graph)

structure FirstWrite (found written : History) (id : TxnId) (rid : RID) : Prop where
  first : ∃ txn, found.Live id txn ∧ ∀ oid, (oid, rid) ∉ txn.writeSet
  wrote : (∃ oid tuple, found.step (.insert id oid rid tuple) = some written) ∨
    ∃ target requireDeleted mgr, found.mgr.modifyTuple id rid target requireDeleted =
      some (.done, mgr) ∧ found.step (.modify id rid target requireDeleted) = some written

def FoundAgain (found after : History) (rid : RID) : Prop :=
  ∃ slot', after.mgr.heap.lookup rid = some slot' ∧
    match found.mgr.heap.lookup rid with
    | some slot => slot'.metadata = slot.metadata ∧
        (slot.metadata.isDeleted = false → slot'.tuple = slot.tuple) ∧
        after.mgr.getUndoLink rid = found.mgr.getUndoLink rid
    | none => slot'.metadata = { ts := 0, isDeleted := true } ∧ after.mgr.getUndoLink rid = none

section Rollbacks
variable {found written before after : History} {id : TxnId} {txn : Transaction} {rid : RID}
  {oid : TableOid} {op : TxnOp} {labels : List TxnOp} {rest : List (TableOid × RID)}

def remembered (found : History) (rid : RID) : Option Origin :=
  (found.mgr.heap.lookup rid).map fun slot =>
    { metadata := slot.metadata, tuple := slot.tuple, link := found.mgr.getUndoLink rid }

theorem restored_found {slot' : Slot} (here : after.mgr.heap.lookup rid = some slot')
    (restored : Restored (remembered found rid) slot' (after.mgr.getUndoLink rid)) :
    FoundAgain found after rid := by
  refine ⟨slot', here, ?_⟩
  unfold remembered at restored
  cases was : found.mgr.heap.lookup rid with
  | some slot =>
      rw [was] at restored
      exact restored
  | none =>
      rw [was] at restored
      exact restored

/-- One step of the loop of `Abort`, as far as others could look. -/
theorem rollback_step (inv : Inv before)
    (stepped : before.step (.rollback id oid rid) = some after) :
    ∃ txn rest slot', before.Live id txn ∧ before.mgr.control id = .rollingBack rest ∧
      (oid, rid) ∈ rest ∧ after.mgr.control id = .rollingBack (rest.erase (oid, rid)) ∧
      after.mgr.heap.lookup rid = some slot' ∧
      Restored (before.origin id rid) slot' (after.mgr.getUndoLink rid) ∧
        (∀ place, place ≠ rid → after.mgr.heap.lookup place = before.mgr.heap.lookup place ∧
        after.mgr.getUndoLink place = before.mgr.getUndoLink place) ∧
      after.mgr.txnMap = before.mgr.txnMap ∧ after.ledger = before.ledger.undo id rid := by
  obtain ⟨mgr, ran, rfl⟩ := Option.map_eq_some_iff.mp stepped
  obtain ⟨rest, stage, member⟩ := rollback_stage ran
  obtain ⟨txn, slot, slot', link, row, older, live, found, rfl, sameOid, shape, rolled, alone,
      whole, shows, chain, valid, restored⟩ := rollback_spec inv stage member
  obtain rfl := Option.some.inj (rolled.symm.trans ran)
  obtain ⟨info, same, linked, links⟩ := update_undo_link_shape
    ((before.mgr.setControl id (.rollingBack (rest.erase (slot.oid, rid)))).setSlot rid slot') rid
      link
  rw [same]
  refine ⟨txn, rest, slot', live, stage, member, TransactionManager.control_set_control _,
      AList.lookup_insert _, ?_, fun place different =>
        ⟨AList.lookup_insert_ne different, links place different⟩, rfl, rfl⟩
  subst linked
  exact restored

/-- What a transaction found is remembered until it has been rolled back. -/
theorem origin_kept (inv : Inv before) (stepped : before.step op = some after)
    (written : (before.ledger.pending id rid).isSome) :
    after.origin id rid = before.origin id rid := by
  obtain ⟨mgr, ran, rfl⟩ := Option.map_eq_some_iff.mp stepped
  cases op with
  | modify actor place target requireDeleted =>
      obtain ⟨⟨result, next⟩, modified, _⟩ := Option.map_eq_some_iff.mp ran
      obtain ⟨txn, slot, ready, found, _, _⟩ := modify_cases modified
      obtain ⟨inMap, alive, rest⟩ := TransactionManager.ready_iff.mp ready
      simp only [History.record, modified, History.recordModify, inMap, found]
      split
      · rename_i first
        by_cases same : id = actor ∧ rid = place
        · obtain ⟨rfl, rfl⟩ := same
          obtain ⟨_, _, _, _, _, stamped, _⟩ := slot_pending inv ⟨inMap, alive⟩ found written
          rw [stamp_at_rest rest] at stamped
          exact absurd stamped first.1.1
        · exact update_at_other (by tauto)
      · rfl
  | publish actor =>
      simp only [History.record]
      split <;> rfl
  | _ => rfl

theorem first_write_inv (inv : Inv found) (first : FirstWrite found written id rid) :
    Inv written := by
  rcases first.wrote with ⟨_, _, stepped⟩ | ⟨_, _, _, _, stepped⟩
  · exact step_inv inv stepped
  · exact step_inv inv stepped

theorem first_write_remembered (inv : Inv found) (first : FirstWrite found written id rid) :
    written.origin id rid = remembered found rid ∧ (written.ledger.pending id rid).isSome := by
  obtain ⟨⟨txn, live, new⟩, wrote⟩ := first
  rcases wrote with ⟨oid, tuple, stepped⟩ | ⟨target, requireDeleted, next, modified, stepped⟩
  · obtain ⟨mgr, ran, rfl⟩ := Option.map_eq_some_iff.mp stepped
    obtain ⟨record, ready, same⟩ := Option.bind_eq_some_iff.mp ran
    split at same
    · cases same
    · rename_i allowed
      have vacant : found.mgr.heap.lookup rid = none := by simpa using (not_or.mp allowed).1
      refine ⟨?_, ?_⟩
      · rw [remembered, vacant]
        exact ((inv.store.empty rid vacant).2.2 id).2
      · exact Option.isSome_iff_exists.mpr ⟨_, pending_write_self⟩
  · obtain ⟨mgr, ran, rfl⟩ := Option.map_eq_some_iff.mp stepped
    obtain ⟨record, slot, ready, here, _, _⟩ := modify_cases modified
    obtain ⟨inMap, alive, rest⟩ := TransactionManager.ready_iff.mp ready
    obtain rfl : txn = record := Option.some.inj (live.1.symm.trans inMap)
    have foreign : slot.metadata.ts ≠ id := by
      intro own
      obtain ⟨ids, clock⟩ := inv.clock
      obtain ⟨_, _, written, _⟩ := slot_owned inv clock live here own
      have member :=
        ((inv.writes.owes id txn live).2 slot.oid rid).mpr ⟨by rw [written]; rfl, slot, here, rfl⟩
      rw [owes_at_rest rest] at member
      exact new slot.oid member
    simp only [History.record, modified, History.recordModify, inMap, here]
    simp only [foreign, ne_eq, not_false_eq_true, reduceCtorEq, and_self, if_true,
      Function.update_self, remembered, here, Option.map_some, true_and]
    exact Option.isSome_iff_exists.mpr ⟨_, pending_write_self⟩

theorem rolling_ops (stage : before.mgr.control id = .rollingBack rest)
    (stepped : before.step op = some after) (own : op.actor = some id) :
    (∃ oid rid, op = .rollback id oid rid) ∨ op = .aborted id := by
  have unready : before.mgr.ready id = none := by
    unfold TransactionManager.ready
    cases before.mgr.txnMap.lookup id <;> simp [stage, Control.atRest]
  obtain ⟨mgr, ran, rfl⟩ := Option.map_eq_some_iff.mp stepped
  cases op with
  | rollback _ oid rid =>
      cases own
      exact Or.inl ⟨oid, rid, rfl⟩
  | aborted _ =>
      cases own
      exact Or.inr rfl
  | fetch _ =>
      cases own
      obtain ⟨_, _, same⟩ := Option.bind_eq_some_iff.mp ran
      simp [stage] at same
  | verifyVersion _ =>
      cases own
      obtain ⟨_, _, same⟩ := Option.bind_eq_some_iff.mp ran
      simp [stage] at same
  | verified _ =>
      cases own
      obtain ⟨_, _, same⟩ := Option.bind_eq_some_iff.mp ran
      simp [stage] at same
  | publish _ =>
      cases own
      obtain ⟨_, _, same⟩ := Option.bind_eq_some_iff.mp ran
      simp [stage] at same
  | verifyRid _ oid rid =>
      cases own
      simp [TransactionManager.step, TransactionManager.verifyRid, stage] at ran
  | stamp _ oid rid =>
      cases own
      simp [TransactionManager.step, TransactionManager.stamp, stage] at ran
  | modify _ rid target requireDeleted =>
      cases own
      simp [TransactionManager.step, TransactionManager.modifyTuple, unready] at ran
  | begin isolationLevel => cases own
  | garbageCollection => cases own
  | scan _ oid predicate =>
      cases own
      simp [TransactionManager.step, TransactionManager.appendScanPredicate, unready] at ran
  | read _ rid =>
      cases own
      simp [TransactionManager.step, TransactionManager.read, unready] at ran
  | insert _ oid rid tuple =>
      cases own
      simp [TransactionManager.step, TransactionManager.insertTuple, unready] at ran
  | throwWriteConflict _ =>
      cases own
      simp [TransactionManager.step, TransactionManager.throwWriteConflict, unready] at ran
  | commit _ =>
      cases own
      simp [TransactionManager.step, TransactionManager.commit, unready] at ran
  | abort _ =>
      cases own
      simp [TransactionManager.step, TransactionManager.abort, unready] at ran

def Gone (history : History) (id : TxnId) : Prop :=
  id < history.mgr.nextTxnId ∧ ∀ txn, ¬ history.Live id txn

theorem gone_step (inv : Inv before) (stepped : before.step op = some after)
    (gone : Gone before id) :
    Gone after id := by
  obtain ⟨known, dead⟩ := gone
  cases inside : op.within with
  | some actor =>
      have moved := within_moved inv stepped inside
      refine ⟨moved.nextTxnId ▸ known, fun txn live => ?_⟩
      obtain ⟨txn', live', _⟩ := acts_live_back moved.toActs live
      exact dead txn' live'
  | none =>
      cases op with
      | begin isolationLevel =>
          obtain ⟨ids, clock⟩ := inv.clock
          obtain ⟨running, begun⟩ := begun_step stepped
          have next : after.mgr.nextTxnId = before.mgr.nextTxnId + 1 := by rw [begun.mgr]
          refine ⟨by lia, fun txn live => ?_⟩
          rcases (begun_live begun clock).mp live with ⟨same, _⟩ | was
          · lia
          · exact dead txn was
      | publish actor =>
          obtain ⟨_, _, _, published⟩ := published_step inv stepped
          exact ⟨published.nextTxnId ▸ known,
            fun txn live => dead txn ((ended_live published.toEnded).mp live).2⟩
      | aborted actor =>
          obtain ⟨_, aborted⟩ := aborted_step inv stepped
          exact ⟨aborted.nextTxnId ▸ known, fun txn live =>
            dead txn ((ended_live aborted.toEnded).mp live).2⟩
      | garbageCollection =>
          obtain ⟨rfl, _⟩ := collected_step stepped
          exact ⟨known, fun txn live => dead txn (collected_live.mp live)⟩
      | _ => cases inside

theorem gone_run (run : Run (graph History.step) before labels after) (inv : Inv before)
    (gone : Gone before id) :
    Gone after id := by
  induction run with
  | refl history => exact gone
  | next step _ ih => exact ih (step_inv inv step) (gone_step inv step gone)

def Leaving (history : History) (id : TxnId) : Prop :=
  Gone history id ∨ ∃ txn rest, history.Live id txn ∧ history.mgr.control id = .rollingBack rest

theorem ended_gone {txn txn' : Transaction} {ids : List TxnId} (clock : ClockInv before ids)
    (ended : Ended before after id txn txn') : Gone after id :=
  ⟨ended.nextTxnId ▸ (clock.known id txn ended.was.1).2, fun _ live =>
    ((ended_live ended).mp live).1 rfl⟩

theorem leaving_step (inv : Inv before) (stepped : before.step op = some after)
    (leaving : Leaving before id) (clear : before.ledger.pending id rid = none) :
    Leaving after id ∧ after.ledger.pending id rid = none := by
  rcases leaving with gone | ⟨txn, rest, live, stage⟩
  · have gone' := gone_step inv stepped gone
    refine ⟨Or.inl gone', ?_⟩
    by_contra written
    obtain ⟨txn, live⟩ :=
      (step_inv inv stepped).writes.live id rid (Option.isSome_iff_ne_none.mpr written)
    exact gone'.2 txn live
  · by_cases own : op.actor = some id
    · rcases rolling_ops stage stepped own with ⟨oid, place, rfl⟩ | rfl
      · obtain ⟨txn, rest, slot', was, _, _, control, _, _, _, map, ledger⟩ :=
          rollback_step inv stepped
        refine ⟨Or.inr ⟨txn, _, ⟨map ▸ was.1, was.2⟩, control⟩, ?_⟩
        rw [ledger]
        by_cases same : rid = place
        · rw [same]
          exact pending_undo_self
        · rw [pending_undo_other (Or.inr same)]
          exact clear
      · obtain ⟨ids, clock⟩ := inv.clock
        obtain ⟨_, aborted⟩ := aborted_step inv stepped
        exact ⟨Or.inl (ended_gone clock aborted.toEnded), by rw [aborted.ledger]; exact clear⟩
    · have outside := outside_step inv stepped own live
      exact ⟨Or.inr ⟨txn, rest, outside.live, outside.control.trans stage⟩,
        (outside.pending rid).trans clear⟩

/-- A write is taken back by its own rollback and made final by its own commit,
by nothing else. -/
theorem pending_lost (stepped : before.step op = some after)
    (written : (before.ledger.pending id rid).isSome)
    (lost : after.ledger.pending id rid = none) :
    (∃ oid, op = .rollback id oid rid) ∨ op = .publish id := by
  have booked := step_booked stepped
  have unchanged {same : Option (Option Tuple)} (kept : same = before.ledger.pending id rid)
    (gone : same = none) :
    False := by
    rw [← kept, gone] at written
    cases written
  generalize after.ledger = ledger at booked lost
  cases booked with
  | unchanged => exact (unchanged rfl lost).elim
  | insert actor oid place tuple =>
      by_cases here : id = actor ∧ rid = place
      · obtain ⟨rfl, rfl⟩ := here
        cases pending_write_self.symm.trans lost
      · exact (unchanged (pending_write_other (by tauto)) lost).elim
  | modify actor place target requireDeleted =>
      by_cases here : id = actor ∧ rid = place
      · obtain ⟨rfl, rfl⟩ := here
        cases pending_write_self.symm.trans lost
      · exact (unchanged (pending_write_other (by tauto)) lost).elim
  | rollback actor oid place =>
      by_cases here : id = actor ∧ rid = place
      · obtain ⟨rfl, rfl⟩ := here
        exact Or.inl ⟨oid, rfl⟩
      · exact (unchanged (pending_undo_other (by tauto)) lost).elim
  | publish actor readTs commitTs =>
      by_cases same : id = actor
      · exact Or.inr (by rw [same])
      · exact (unchanged (congrFun (pending_publish_other same) rid) lost).elim

def Remembers (found history : History) (id : TxnId) (rid : RID) : Prop :=
  ((history.ledger.pending id rid).isSome ∧ history.origin id rid = remembered found rid) ∨
    (history.ledger.pending id rid = none ∧ Leaving history id)

theorem remembers_step (inv : Inv before) (stepped : before.step op = some after)
    (remembers : Remembers found before id rid) : Remembers found after id rid := by
  rcases remembers with ⟨written, origin⟩ | ⟨clear, leaving⟩
  · cases later : after.ledger.pending id rid with
    | some row => exact Or.inl ⟨by rw [later]; rfl, (origin_kept inv stepped written).trans origin⟩
    | none =>
        refine Or.inr ⟨later, ?_⟩
        rcases pending_lost stepped written later with ⟨oid, rfl⟩ | rfl
        · obtain ⟨txn, _, _, live, _, _, control, _, _, _, map, _⟩ := rollback_step inv stepped
          exact Or.inr ⟨txn, _, ⟨map ▸ live.1, live.2⟩, control⟩
        · obtain ⟨ids, clock⟩ := inv.clock
          obtain ⟨_, _, _, published⟩ := published_step inv stepped
          exact Or.inl (ended_gone clock published.toEnded)
  · obtain ⟨leaving', clear'⟩ := leaving_step inv stepped leaving clear
    exact Or.inr ⟨clear', leaving'⟩

theorem remembers_run (run : Run (graph History.step) before labels after) (inv : Inv before)
    (remembers : Remembers found before id rid) : Inv after ∧ Remembers found after id rid := by
  induction run with
  | refl history => exact ⟨inv, remembers⟩
  | next step _ ih => exact ih (step_inv inv step) (remembers_step inv step remembers)

/-- The rollback of a RID undoes everything since the first write to it. -/
theorem rollback_restores (inv : Inv found) (first : FirstWrite found written id rid)
    (run : Run (graph History.step) written labels before)
    (stepped : before.step (.rollback id oid rid) = some after) : FoundAgain found after rid := by
  obtain ⟨origin, pending⟩ := first_write_remembered inv first
  obtain ⟨inv', remembers⟩ :=
    remembers_run run (first_write_inv inv first) (Or.inl ⟨pending, origin⟩)
  obtain ⟨txn, rest, slot', live, stage, member, _, here, restored, _⟩ := rollback_step inv' stepped
  have owed : (oid, rid) ∈ before.owes id txn := by
    rw [History.owes, stage]
    exact member
  have still := (((inv'.writes.owes id txn live).2 oid rid).mp owed).1
  rcases remembers with ⟨_, kept⟩ | ⟨clear, _⟩
  · exact restored_found here (kept ▸ restored)
  · rw [clear] at still
    cases still

/-- Once its write to a RID is gone, a transaction inside `Abort` does not come back to it. -/
theorem not_again (run : Run (graph History.step) before labels after) (inv : Inv before)
    (leaving : Leaving before id) (clear : before.ledger.pending id rid = none) (oid : TableOid) :
    .rollback id oid rid ∉ labels := by
  induction run with
  | refl history => exact List.not_mem_nil
  | @next before middle after op rest step _ ih =>
      have stepped : before.step op = some middle := step
      obtain ⟨leaving', clear'⟩ := leaving_step inv stepped leaving clear
      refine List.not_mem_cons_of_ne_of_not_mem ?_ (ih (step_inv inv stepped) leaving' clear')
      rintro rfl
      obtain ⟨txn, rest, _, live, stage, member, _⟩ := rollback_step inv stepped
      have owed : (oid, rid) ∈ before.owes id txn := by
        rw [History.owes, stage]
        exact member
      have still := (((inv.writes.owes id txn live).2 oid rid).mp owed).1
      rw [clear] at still
      cases still

/-- The rollback of a RID that is owed is still to come, or one of the labels. -/
theorem rolled_back_run (run : Run (graph History.step) before labels after) (inv : Inv before)
    (live : before.Live id txn)
    (stage : before.mgr.control id = .rollingBack rest) (member : (oid, rid) ∈ rest) :
    (∃ left, after.Live id txn ∧ after.mgr.control id = .rollingBack left ∧ (oid, rid) ∈ left) ∨
      ∃ front back middle next, labels = front ++ .rollback id oid rid :: back ∧
        Run (graph History.step) before front middle ∧
        middle.step (.rollback id oid rid) = some next ∧
        Run (graph History.step) next back after := by
  induction run generalizing rest with
  | refl history => exact Or.inl ⟨rest, live, stage, member⟩
  | @next before middle after op labels step later ih =>
      have stepped : before.step op = some middle := step
      have inv' := step_inv inv stepped
      have onward {left : List (TableOid × RID)} (live' : middle.Live id txn)
        (stage' : middle.mgr.control id = .rollingBack left) (member' : (oid, rid) ∈ left) :
        (∃ left, after.Live id txn ∧ after.mgr.control id = .rollingBack left ∧
          (oid, rid) ∈ left) ∨ ∃ front back between next, op :: labels =
            front ++ .rollback id oid rid :: back ∧
              Run (graph History.step) before front between ∧
              between.step (.rollback id oid rid) = some next ∧
          Run (graph History.step) next back after := by
        rcases ih inv' live' stage' member' with still |
          ⟨front, back, between, next, rfl, ahead, rolled, behind⟩
        · exact Or.inl still
        · exact Or.inr ⟨op :: front, back, between, next, rfl, Run.next step ahead, rolled, behind⟩
      by_cases own : op.actor = some id
      · rcases rolling_ops stage stepped own with ⟨table, place, rfl⟩ | rfl
        · by_cases same : (oid, rid) = (table, place)
          · obtain ⟨rfl, rfl⟩ := Prod.mk.inj same
            exact Or.inr ⟨[], labels, before, middle, rfl, Run.refl before, stepped, later⟩
          · obtain ⟨_, left, _, live', stage', _, control, _, _, _, map, _⟩ :=
              rollback_step inv stepped
            obtain rfl : rest = left := Control.rollingBack.inj (stage.symm.trans stage')
            exact onward ⟨map ▸ live.1, live.2⟩ control ((List.mem_erase_of_ne same).mpr member)
        · obtain ⟨mgr, ran, rfl⟩ := Option.map_eq_some_iff.mp stepped
          obtain ⟨_, _, same⟩ := Option.bind_eq_some_iff.mp ran
          rw [stage] at same
          cases rest with
          | nil => cases member
          | cons _ _ => cases same
      · have outside := outside_step inv stepped own live
        exact onward outside.live (outside.control.trans stage) member

theorem rolling_goes_on (inv : Inv before) (stage : before.mgr.control id = .rollingBack rest) :
    (∀ oid rid, (oid, rid) ∈ rest → ∃ next, before.step (.rollback id oid rid) = some next) ∧
      (rest = [] → ∃ next, before.step (.aborted id) = some next) := by
  constructor
  · intro oid rid member
    obtain ⟨_, _, slot', link, _, _, _, _, _, _, _, rolled, _⟩ := rollback_spec inv stage member
    exact ⟨_, Option.map_eq_some_iff.mpr ⟨_, rolled, rfl⟩⟩
  · rintro rfl
    have call := inv.calls id
    rw [stage] at call
    obtain ⟨txn, live⟩ := call
    have enabled : (before.mgr.step (.aborted id)).isSome = true := by
      simp [TransactionManager.step, TransactionManager.aborted, live.1, stage]
    obtain ⟨mgr, ran⟩ := Option.isSome_iff_exists.mp enabled
    exact ⟨_, Option.map_eq_some_iff.mpr ⟨mgr, ran, rfl⟩⟩

theorem rolling_run (run : Run (graph History.step) before labels after) (inv : Inv before)
    (live : before.Live id txn)
    (stage : before.mgr.control id = .rollingBack rest) :
    Gone after id ∨ ∃ left, after.Live id txn ∧ after.mgr.control id = .rollingBack left ∧
      left ⊆ rest := by
  induction run generalizing rest with
  | refl history => exact Or.inr ⟨rest, live, stage, List.Subset.refl rest⟩
  | @next before middle after op labels step later ih =>
      have stepped : before.step op = some middle := step
      have inv' := step_inv inv stepped
      by_cases own : op.actor = some id
      · rcases rolling_ops stage stepped own with ⟨table, place, rfl⟩ | rfl
        · obtain ⟨_, left, _, _, stage', _, control, _, _, _, map, _⟩ := rollback_step inv stepped
          obtain rfl : rest = left := Control.rollingBack.inj (stage.symm.trans stage')
          rcases ih inv' ⟨map ▸ live.1, live.2⟩ control with gone | ⟨left, live', stage'', fewer⟩
          · exact Or.inl gone
          · exact Or.inr ⟨left, live', stage'', fun _ member =>
              List.mem_of_mem_erase (fewer member)⟩
        · obtain ⟨ids, clock⟩ := inv.clock
          obtain ⟨_, aborted⟩ := aborted_step inv stepped
          exact Or.inl (gone_run later inv' (ended_gone clock aborted.toEnded))
      · have outside := outside_step inv stepped own live
        exact ih inv' outside.live (outside.control.trans stage)

end Rollbacks

inductive AbortStep (id : TxnId) : TxnOp → Prop where
  | abort : AbortStep id (.abort id)
  | rollback (oid : TableOid) (rid : RID) : AbortStep id (.rollback id oid rid)
  | aborted : AbortStep id (.aborted id)

/-- A step that changes no slot and no undo link but those of the RID it rolls
back, and nothing that another transaction sees, now or when it begins later. -/
structure Unseen (before after : History) (id : TxnId) (op : TxnOp) : Prop where
  untouched : ∀ rid, (∀ oid, op ≠ .rollback id oid rid) →
    after.mgr.heap.lookup rid = before.mgr.heap.lookup rid ∧
      after.mgr.getUndoLink rid = before.mgr.getUndoLink rid
  sees : ∀ other txn rid, other ≠ id → before.Live other txn →
    after.ledger.sees other txn.readTs rid = before.ledger.sees other txn.readTs rid
  committed : after.ledger.committed = before.ledger.committed

/-- `Abort` begins, called for or from a `Commit` that failed, with the whole write set to roll
back. -/
def AbortBegins (before started : History) (id : TxnId) (txn : Transaction) : Prop :=
  (before.step (.abort id) = some started ∨ before.step (.verifyVersion id) = some started) ∧
    started.Live id txn ∧ started.mgr.control id = .rollingBack txn.writeSet

structure AbortAtomic (catalog : TableOid → Schema) (begun started : History) (id : TxnId)
    (txn : Transaction) : Prop where
  goesOn : ∀ labels after, Run (graph History.step) started labels after → Gone after id ∨
    ∃ rest, after.mgr.control id = .rollingBack rest ∧ rest ⊆ txn.writeSet ∧
      (∀ oid rid, (oid, rid) ∈ rest → ∃ next, after.step (.rollback id oid rid) = some next) ∧
      (rest = [] → ∃ next, after.step (.aborted id) = some next)
  restores : ∀ found written rid front, Reached catalog found → FirstWrite found written id rid →
    Run (graph History.step) written front begun →
    ∀ labels after, Run (graph History.step) started labels after →
      (after.mgr.control id = .rollingBack [] ∨ Gone after id) →
      ∃ oid ahead back middle next, labels = ahead ++ .rollback id oid rid :: back ∧
        Run (graph History.step) started ahead middle ∧
          middle.step (.rollback id oid rid) = some next ∧
        Run (graph History.step) next back after ∧ FoundAgain found next rid ∧
        ∀ table, .rollback id table rid ∉ back
  unseen : ∀ before op after, Reached catalog before → AbortStep id op →
    before.step op = some after → Unseen before after id op

section Aborting
variable {history found written before after started : History} {id : TxnId} {txn : Transaction}
  {rid : RID} {op : TxnOp} {labels : List TxnOp} {catalog : TableOid → Schema}

theorem abort_step_unseen (inv : Inv before) (inside : AbortStep id op)
    (stepped : before.step op = some after) :
    Unseen before after id op := by
  have actor : op.actor = some id := by
    cases inside <;> rfl
  have others (other : TxnId) (record : Transaction) (rid : RID) (different : other ≠ id)
    (live : before.Live other record) :
    after.ledger.sees other record.readTs rid = before.ledger.sees other record.readTs rid := by
    obtain ⟨ids, clock⟩ := inv.clock
    have outside := outside_step inv stepped
      (fun same => different (Option.some.inj (same.symm.trans actor))) live
    rw [Ledger.sees, Ledger.sees, outside.pending,
      outside.committedAt _ _ (clock.readTs other record live).2.2]
  cases inside with
  | abort =>
      obtain ⟨mgr, ran, rfl⟩ := Option.map_eq_some_iff.mp stepped
      obtain ⟨_, _, same⟩ := Option.bind_eq_some_iff.mp ran
      obtain rfl := Option.some.inj same
      exact ⟨fun _ _ => ⟨rfl, rfl⟩, others, rfl⟩
  | rollback oid place =>
      obtain ⟨_, _, _, _, _, _, _, _, _, elsewhere, _, ledger⟩ := rollback_step inv stepped
      refine ⟨fun rid apart => elsewhere rid ?_, others, by rw [ledger, committed_undo]⟩
      rintro rfl
      exact apart oid rfl
  | aborted =>
      obtain ⟨mgr, ran, rfl⟩ := Option.map_eq_some_iff.mp stepped
      obtain ⟨_, _, same⟩ := Option.bind_eq_some_iff.mp ran
      split at same
      · obtain rfl := Option.some.inj same
        exact ⟨fun _ _ => ⟨rfl, rfl⟩, others, rfl⟩
      · cases same

/-- Whatever a transaction has written is in the write set that its abort rolls back. -/
theorem written_owed (inv : Inv started) (live : started.Live id txn)
    (stage : started.mgr.control id = .rollingBack txn.writeSet)
    (written : (started.ledger.pending id rid).isSome) : ∃ oid, (oid, rid) ∈ txn.writeSet := by
  cases here : started.mgr.heap.lookup rid with
  | none =>
      rw [((inv.store.empty rid here).2.2 id).1] at written
      cases written
  | some slot =>
      have owed := ((inv.writes.owes id txn live).2 slot.oid rid).mpr ⟨written, slot, here, rfl⟩
      rw [History.owes, stage] at owed
      exact ⟨slot.oid, owed⟩

theorem begins_written (inv : Inv before) (begins : AbortBegins before started id txn)
    (remembers : Remembers found before id rid) :
    (started.ledger.pending id rid).isSome ∧ started.origin id rid = remembered found rid := by
  obtain ⟨stepped, live, stage⟩ := begins
  rcases remembers with ⟨written, origin⟩ | ⟨_, leaving⟩
  · have kept {op : TxnOp} (stepped : before.step op = some started)
      (inside : op = .abort id ∨ op = .verifyVersion id) :
      (started.ledger.pending id rid).isSome ∧ started.origin id rid = remembered found rid := by
      refine ⟨?_, (origin_kept inv stepped written).trans origin⟩
      by_contra lost
      rcases pending_lost stepped written (Option.not_isSome_iff_eq_none.mp lost) with ⟨_, rfl⟩ |
        rfl <;>
        rcases inside with same | same <;> cases same
    rcases stepped with step | step
    · exact kept step (Or.inl rfl)
    · exact kept step (Or.inr rfl)
  · exfalso
    rcases leaving with gone | ⟨_, _, _, stage'⟩
    · rcases stepped with step | step
      · exact (gone_step inv step gone).2 txn live
      · exact (gone_step inv step gone).2 txn live
    · rcases stepped with step | step
      · rcases rolling_ops stage' step rfl with ⟨_, _, same⟩ | same <;> cases same
      · rcases rolling_ops stage' step rfl with ⟨_, _, same⟩ | same <;> cases same

theorem abort_begins (ready : history.mgr.ready id = some txn) :
    ∃ started, history.step (.abort id) = some started ∧ AbortBegins history started id txn := by
  have ran : history.mgr.step (.abort id) =
      some (history.mgr.setControl id (.rollingBack txn.writeSet)) := by
    simp [TransactionManager.step, TransactionManager.abort, ready]
  have stepped : history.step (.abort id) =
      some { history with mgr := history.mgr.setControl id (.rollingBack txn.writeSet) } :=
    Option.map_eq_some_iff.mpr ⟨_, ran, rfl⟩
  obtain ⟨inMap, alive, _⟩ := TransactionManager.ready_iff.mp ready
  exact ⟨_, stepped, Or.inl stepped, ⟨inMap, alive⟩, TransactionManager.control_set_control _⟩

theorem restores_all (was : Inv found) (begins : AbortBegins history started id txn)
    (first : FirstWrite found written id rid) {front : List TxnOp}
    (earlier : Run (graph History.step) written front history)
    (run : Run (graph History.step) started labels after)
    (finished : after.mgr.control id = .rollingBack [] ∨ Gone after id) :
    ∃ oid ahead back middle next, labels = ahead ++ .rollback id oid rid :: back ∧
      Run (graph History.step) started ahead middle ∧
      middle.step (.rollback id oid rid) = some next ∧ Run (graph History.step) next back after ∧
      FoundAgain found next rid ∧ ∀ table, .rollback id table rid ∉ back := by
  obtain ⟨origin, pending⟩ := first_write_remembered was first
  obtain ⟨inv, remembers⟩ :=
    remembers_run earlier (first_write_inv was first) (Or.inl ⟨pending, origin⟩)
  have written' := (begins_written inv begins remembers).1
  obtain ⟨stepped, live, stage⟩ := begins
  obtain ⟨op, stepped⟩ : ∃ op, history.step op = some started := by
    rcases stepped with step | step
    · exact ⟨_, step⟩
    · exact ⟨_, step⟩
  have inv' := step_inv inv stepped
  obtain ⟨oid, member⟩ := written_owed inv' live stage written'
  rcases rolled_back_run run inv' live stage member with ⟨left, live', stage', still⟩ | rolled
  · rcases finished with done | gone
    · obtain rfl := Control.rollingBack.inj (done.symm.trans stage')
      cases still
    · exact absurd live' (gone.2 txn)
  · obtain ⟨ahead, back, middle, next, same, before, rolls, behind⟩ := rolled
    have path := TransitionSystem.run_append earlier (Run.next stepped before)
    have between :=
      TransitionSystem.run_preserves (fun _ _ _ inv step => step_inv inv step) before inv'
    obtain ⟨_, _, _, live'', _, _, control, _, _, _, map, ledger⟩ := rollback_step between rolls
    refine ⟨oid, ahead, back, middle, next, same, before, rolls, behind,
      rollback_restores was first path rolls, ?_⟩
    refine not_again behind (step_inv between rolls)
      (Or.inr ⟨_, _, ⟨map ▸ live''.1, live''.2⟩, control⟩) ?_
    rw [ledger]
    exact pending_undo_self

/-- Every abort of a transaction that is RUNNING or TAINTED, from any reachable state. -/
theorem abort_is_atomic (reached : Reached catalog history) :
    (∀ txn, history.mgr.ready id = some txn →
      ∃ started, history.step (.abort id) = some started ∧ AbortBegins history started id txn) ∧
    ∀ started txn, AbortBegins history started id txn →
    AbortAtomic catalog history started id txn := by
  refine ⟨fun txn ready => abort_begins ready, fun started txn begins => ⟨?_, ?_, ?_⟩⟩
  · intro labels after run
    obtain ⟨stepped, live, stage⟩ := begins
    have inv : Inv started := by
      rcases stepped with step | step
      · exact step_inv (reached_inv reached) step
      · exact step_inv (reached_inv reached) step
    rcases rolling_run run inv live stage with gone | ⟨rest, _, stage', fewer⟩
    · exact Or.inl gone
    · have inv' := TransitionSystem.run_preserves (fun _ _ _ inv step => step_inv inv step) run inv
      exact Or.inr ⟨rest, stage', fewer, rolling_goes_on inv' stage'⟩
  · intro found written rid front reached' first earlier labels after run finished
    exact restores_all (reached_inv reached') begins first earlier run finished
  · intro before op after reached' inside stepped
    exact abort_step_unseen (reached_inv reached') inside stepped

end Aborting

def unfinishedRun : List TxnOp :=
  [.begin .snapshotIsolation, .insert TXN_START_ID 0 firstSlot [number 1], .commit TXN_START_ID,
    .stamp TXN_START_ID 0 firstSlot, .publish TXN_START_ID, .begin .snapshotIsolation,
    .modify (TXN_START_ID + 1) firstSlot (some [number 2]) false]

theorem unfinished_run_returns : (runFrom oneColumn unfinishedRun).isSome = true := by decide

def unfinished : History := (runFrom oneColumn unfinishedRun).get unfinished_run_returns

theorem unfinished_abort_is_atomic :
    ∃ started txn, AbortBegins unfinished started (TXN_START_ID + 1) txn ∧
      AbortAtomic oneColumn unfinished started (TXN_START_ID + 1) txn := by
  have ready : (unfinished.mgr.ready (TXN_START_ID + 1)).isSome = true := by decide
  obtain ⟨txn, ready⟩ := Option.isSome_iff_exists.mp ready
  obtain ⟨starts, atomic⟩ := abort_is_atomic (reached_run unfinished_run_returns)
  obtain ⟨started, _, begins⟩ := starts txn ready
  exact ⟨started, txn, begins, atomic started txn begins⟩

end BusTub
