import BusTub.MvccCollection

/-!
Every state that any number of transactions reach, in any order of their steps,
meets the invariant; and what a step leaves to the transactions that do not
take it.
-/

namespace BusTub

open TransitionSystem (Run graph run_preserves)

def TxnOp.actor : TxnOp → Option TxnId
  | .begin _ | .garbageCollection => none
  | .scan id _ _ | .read id _ | .fetch id | .insert id _ _ _ | .modify id _ _
      _ | .throwWriteConflict id
  | .commit id | .verifyRid id _ _ | .verifyVersion id | .verified id | .stamp id _ _ | .publish id
  | .abort id | .rollback id _ _ | .aborted id => some id

def TxnOp.within : TxnOp → Option TxnId
  | .publish _ | .aborted _ => none
  | op => op.actor

section Runs
variable {before after history : History} {op : TxnOp} {id : TxnId} {catalog : TableOid → Schema}

theorem start_inv (catalog : TableOid → Schema) : Inv (History.start catalog) := by
  have noSlot (rid : RID) (slot : Slot) (found :
    (History.start catalog).mgr.heap.lookup rid = some slot) : False := by
    cases found
  have noTxn (id : TxnId) (txn : Transaction)
    (live : (History.start catalog).Live id txn) : False := by
    cases live.1
  refine ⟨⟨[], ⟨List.nodup_nil, ?_, Watermark.new_follows 0, rfl, ?_, ?_, ?_, ?_, ?_⟩⟩,
    ?_, ?_, ?_, ?_⟩
  · intro id
    constructor
    · intro member
      cases member
    · rintro ⟨txn, live⟩
      exact (noTxn id txn live).elim
  · exact Int.le_refl _
  · change TXN_START_ID ≤ INT64_MAX
    decide
  · intro id txn found
    cases found
  · exact fun id txn live => (noTxn id txn live).elim
  · exact ⟨Int.le_refl 0, by change (-1 : Int) ≤ 0; decide⟩
  · refine ⟨fun rid slot found => (noSlot rid slot found).elim, fun _ _ =>
        ⟨rfl, rfl, fun _ => ⟨rfl, rfl⟩⟩, fun rid slot found =>
          (noSlot rid slot found).elim, fun _ rid slot _ found => (noSlot rid slot found).elim,
      fun rid slot _ _ found => (noSlot rid slot found).elim, ?_, ?_, fun _ =>
        List.Pairwise.nil, ?_⟩
    · intro rid link linked
      cases linked
    · intro link log found
      cases found
    · intro rid version member
      cases member
  · exact ⟨fun id txn live => (noTxn id txn live).elim, fun id rid written => by cases written⟩
  · exact fun id txn live => (noTxn id txn live).elim
  · intro id
    trivial

theorem within_moved (inv : Inv before) (stepped : before.step op = some after)
    (within : op.within = some id) :
    Moved before after id := by
  obtain ⟨mgr, ran, rfl⟩ := Option.map_eq_some_iff.mp stepped
  cases op with
  | scan _ oid predicate =>
      cases within
      exact scan_moved inv ran
  | read _ rid =>
      cases within
      exact read_moved inv ran
  | fetch _ =>
      cases within
      exact fetch_moved inv ran
  | insert _ oid rid tuple =>
      cases within
      exact insert_moved inv ran
  | modify _ rid target requireDeleted =>
      cases within
      obtain ⟨⟨result, next⟩, modified, rfl⟩ := Option.map_eq_some_iff.mp ran
      simpa [History.record, modified] using modify_moved inv modified
  | throwWriteConflict _ =>
      cases within
      exact write_conflict_moved inv ran
  | commit _ =>
      cases within
      exact commit_moved inv ran
  | verifyRid _ oid rid =>
      cases within
      exact verify_rid_moved inv ran
  | verifyVersion _ =>
      cases within
      exact verify_version_moved inv ran
  | verified _ =>
      cases within
      exact verified_moved inv ran
  | stamp _ oid rid =>
      cases within
      exact stamp_moved inv ran
  | abort _ =>
      cases within
      exact abort_moved inv ran
  | rollback _ oid rid =>
      cases within
      exact rollback_moved inv ran
  | begin _ => cases within
  | publish _ => cases within
  | aborted _ => cases within
  | garbageCollection => cases within

theorem step_inv (inv : Inv before) (stepped : before.step op = some after) : Inv after := by
  cases inside : op.within with
  | some id => exact (within_moved inv stepped inside).inv
  | none =>
      cases op with
      | begin isolationLevel => exact begin_inv inv stepped
      | publish id => exact publish_inv inv stepped
      | aborted id => exact aborted_inv inv stepped
      | garbageCollection => exact gc_inv inv stepped
      | _ => cases inside

theorem reached_inv (reached : Reached catalog history) : Inv history := by
  refine TransitionSystem.reachable_preserves Inv ?_ ?_ reached
  · rintro _ rfl
    exact start_inv catalog
  · exact fun _ _ _ inv stepped => step_inv inv stepped

structure Outside (before after : History) (id : TxnId) (txn : Transaction) : Prop where
  live : after.Live id txn
  control : after.mgr.control id = before.mgr.control id
  pending : ∀ rid, after.ledger.pending id rid = before.ledger.pending id rid
  committedAt : ∀ ts rid, ts ≤ before.mgr.lastCommitTs →
    after.ledger.committedAt ts rid = before.ledger.committedAt ts rid

theorem outside_step (inv : Inv before) (stepped : before.step op = some after)
    (other : op.actor ≠ some id)
    {txn : Transaction} (live : before.Live id txn) : Outside before after id txn := by
  obtain ⟨ids, clock⟩ := inv.clock
  cases inside : op.within with
  | some actor =>
      have moved := within_moved inv stepped inside
      have different : id ≠ actor := by
        rintro rfl
        cases op <;> simp_all [TxnOp.within, TxnOp.actor]
      refine ⟨live_of_lookup (moved.others id different) live, moved.control id different,
        moved.pending id different, fun ts rid _ => ?_⟩
      rw [Ledger.committedAt, Ledger.committedAt, moved.committed]
  | none =>
      cases op with
      | begin isolationLevel =>
          obtain ⟨running, begun⟩ := begun_step stepped
          have ledger : after.ledger = before.ledger := by rw [begun.rest]
          refine ⟨(begun_live begun clock).mpr (Or.inr live),
            congrFun (begun_control begun) id, ?_, ?_⟩
          · simp [ledger]
          · simp [ledger]
      | publish actor =>
          have different : id ≠ actor := fun same => other (congrArg some same.symm)
          obtain ⟨_, _, commitTs, published⟩ := published_step inv stepped
          refine ⟨(ended_live published.toEnded).mpr ⟨different, live⟩,
              published.control id different, congrFun (published_pending published different), ?_⟩
          intro ts rid early
          have next := published.next
          rw [published.ledger]
          exact committed_at_publish (by lia)
      | aborted actor =>
          have different : id ≠ actor := fun same => other (congrArg some same.symm)
          obtain ⟨_, aborted⟩ := aborted_step inv stepped
          refine ⟨(ended_live aborted.toEnded).mpr ⟨different, live⟩,
            aborted.control id different, ?_, ?_⟩
          · simp [aborted.ledger]
          · simp [aborted.ledger]
      | garbageCollection =>
          obtain ⟨rfl, _⟩ := collected_step stepped
          exact ⟨collected_live.mpr live, rfl, fun _ => rfl, fun _ _ _ => rfl⟩
      | _ => cases inside

end Runs

end BusTub
