import BusTub.MvccRuns

/-!
What a step leaves of the ledger, and which rows it can bring to a RID.
-/

namespace BusTub

section Rows
variable {before after : History} {op : TxnOp} {id : TxnId} {txn : Transaction} {rid : RID}
  {tuple : Tuple}

/-- A row that some transaction has committed or written at the RID. -/
def RowAt (history : History) (rid : RID) (tuple : Tuple) : Prop :=
  (∃ version ∈ history.ledger.committed rid, version.row = some tuple) ∨
    ∃ id, history.ledger.pending id rid = some (some tuple)

theorem tables_step (inv : Inv before) (stepped : before.step op = some after) :
    SameTables before after := by
  cases inside : op.within with
  | some id => exact (within_moved inv stepped inside).tables
  | none =>
      obtain ⟨ids, clock⟩ := inv.clock
      cases op with
      | begin isolationLevel =>
          obtain ⟨running, begun⟩ := begun_step stepped
          exact still_tables (begun_still begun clock)
      | publish id =>
          obtain ⟨_, _, _, published⟩ := published_step inv stepped
          exact still_tables published.toStill
      | aborted id =>
          obtain ⟨_, aborted⟩ := aborted_step inv stepped
          exact still_tables aborted.toStill
      | garbageCollection =>
          obtain ⟨rfl, _⟩ := collected_step stepped
          exact fun _ slot found => ⟨slot, found, rfl⟩
      | _ => cases inside

theorem sees_row {readTs : Timestamp} (sees : before.ledger.sees id readTs rid = some tuple) :
    RowAt before rid tuple := by
  unfold Ledger.sees at sees
  cases written : before.ledger.pending id rid with
  | some row =>
      rw [written, Option.getD_some] at sees
      exact Or.inr ⟨id, by rw [written, sees]⟩
  | none =>
      rw [written, Option.getD_none] at sees
      obtain ⟨version, found, same⟩ := Option.bind_eq_some_iff.mp sees
      exact Or.inl ⟨version, List.mem_of_find?_eq_some found, same⟩

/-- What a step leaves of the ledger. -/
inductive Booked (before : History) : TxnOp → Ledger → Prop where
  | unchanged (op : TxnOp) : Booked before op before.ledger
  | insert (id : TxnId) (oid : TableOid) (rid : RID) (tuple : Tuple) :
      Booked before (.insert id oid rid tuple) (before.ledger.write id rid (some tuple))
  | modify (id : TxnId) (rid : RID) (target : Option Tuple) (requireDeleted : Bool) :
      Booked before (.modify id rid target requireDeleted) (before.ledger.write id rid target)
  | rollback (id : TxnId) (oid : TableOid) (rid : RID) :
      Booked before (.rollback id oid rid) (before.ledger.undo id rid)
  | publish (id : TxnId) (readTs commitTs : Timestamp) :
      Booked before (.publish id) (before.ledger.publish id readTs commitTs)

theorem step_booked (stepped : before.step op = some after) : Booked before op after.ledger := by
  obtain ⟨mgr, ran, rfl⟩ := Option.map_eq_some_iff.mp stepped
  cases op with
  | insert id oid rid tuple => exact Booked.insert id oid rid tuple
  | modify id rid target requireDeleted =>
      obtain ⟨⟨result, next⟩, modified, _⟩ := Option.map_eq_some_iff.mp ran
      obtain ⟨txn, slot, ready, found, _, _⟩ := modify_cases modified
      have inMap := (TransactionManager.ready_iff.mp ready).1
      simp only [History.record, modified, History.recordModify, inMap, found]
      split
      · exact Booked.modify id rid target requireDeleted
      · exact Booked.unchanged _
  | rollback id oid rid => exact Booked.rollback id oid rid
  | publish id =>
      simp only [History.record]
      split
      · exact Booked.publish id _ _
      · exact Booked.unchanged _
  | _ => exact Booked.unchanged _

/-- A row that the step writes. -/
def TxnOp.writes (op : TxnOp) (rid : RID) (tuple : Tuple) : Prop :=
  (∃ id oid, op = .insert id oid rid tuple) ∨
    ∃ id requireDeleted, op = .modify id rid (some tuple) requireDeleted

/-- Every row was there before, or the step has written it. -/
theorem rows_step (stepped : before.step op = some after) (row : RowAt after rid tuple) :
    RowAt before rid tuple ∨ op.writes rid tuple := by
  have booked := step_booked stepped
  have written {ledger : Ledger} {actor : TxnId} {place : RID} {target : Option Tuple}
    (same : ledger = before.ledger.write actor place target)
      (row : RowAt { before with ledger := ledger } rid tuple) :
    RowAt before rid tuple ∨ (rid = place ∧ target = some tuple) := by
    subst same
    rcases row with committed | ⟨id, pending⟩
    · exact Or.inl (Or.inl committed)
    · by_cases here : id = actor ∧ rid = place
      · obtain ⟨rfl, rfl⟩ := here
        exact Or.inr ⟨rfl, Option.some.inj (pending_write_self.symm.trans pending)⟩
      · exact Or.inl (Or.inr ⟨id, (pending_write_other (by tauto)).symm.trans pending⟩)
  replace row : RowAt { before with ledger := after.ledger } rid tuple := row
  generalize after.ledger = ledger at booked row
  cases booked with
  | unchanged => exact Or.inl row
  | insert id oid place new =>
      rcases written rfl row with old | ⟨rfl, same⟩
      · exact Or.inl old
      · exact Or.inr (Or.inl ⟨id, oid, by rw [Option.some.inj same]⟩)
  | modify id place target requireDeleted =>
      rcases written rfl row with old | ⟨rfl, same⟩
      · exact Or.inl old
      · exact Or.inr (Or.inr ⟨id, requireDeleted, by rw [same]⟩)
  | rollback actor oid place =>
      rcases row with committed | ⟨id, pending⟩
      · exact Or.inl (Or.inl committed)
      · by_cases here : id = actor ∧ rid = place
        · obtain ⟨rfl, rfl⟩ := here
          cases pending_undo_self.symm.trans pending
        · exact Or.inl (Or.inr ⟨id, (pending_undo_other (by tauto)).symm.trans pending⟩)
  | publish actor readTs commitTs =>
      rcases row with ⟨version, member, same⟩ | ⟨id, pending⟩
      · rcases published_version member with old | ⟨row, pending, rfl⟩
        · exact Or.inl (Or.inl ⟨version, old, same⟩)
        · exact Or.inl (Or.inr ⟨actor, by rw [pending]; exact congrArg some same⟩)
      · by_cases same : id = actor
        · subst same
          cases pending_publish_self.symm.trans pending
        · exact Or.inl (Or.inr ⟨id, (congrFun (pending_publish_other same) rid).symm.trans pending⟩)

theorem horizon_step (stepped : before.step op = some after) (keeps : op ≠ .garbageCollection) :
    after.horizon = before.horizon := by
  obtain ⟨mgr, ran, rfl⟩ := Option.map_eq_some_iff.mp stepped
  cases op with
  | garbageCollection => exact absurd rfl keeps
  | modify id rid target requireDeleted =>
      simp only [History.record]
      split
      · unfold History.recordModify
        split <;> rfl
      · rfl
  | publish id =>
      simp only [History.record]
      split <;> rfl
  | _ => rfl

theorem pending_others (stepped : before.step op = some after) (other : op.actor ≠ some id)
    (rid : RID) :
    after.ledger.pending id rid = before.ledger.pending id rid := by
  have booked := step_booked stepped
  generalize after.ledger = ledger at booked
  cases booked with
  | unchanged => rfl
  | insert actor _ _ _ =>
      exact pending_write_other (Or.inl fun same => other (congrArg some same.symm))
  | modify actor _ _ _ =>
      exact pending_write_other (Or.inl fun same => other (congrArg some same.symm))
  | rollback actor _ _ =>
      exact pending_undo_other (Or.inl fun same => other (congrArg some same.symm))
  | publish actor _ _ =>
      exact congrFun (pending_publish_other fun same => other (congrArg some same.symm)) rid

/-- A write that was not there before is one of the step. -/
theorem pending_own (stepped : before.step op = some after)
    (written : (after.ledger.pending id rid).isSome) :
    (before.ledger.pending id rid).isSome ∨ (∃ oid tuple, op = .insert id oid rid tuple) ∨
      ∃ target requireDeleted, op = .modify id rid target requireDeleted := by
  have booked := step_booked stepped
  generalize after.ledger = ledger at booked written
  cases booked with
  | unchanged => exact Or.inl written
  | insert actor oid place tuple =>
      by_cases here : id = actor ∧ rid = place
      · obtain ⟨rfl, rfl⟩ := here
        exact Or.inr (Or.inl ⟨oid, tuple, rfl⟩)
      · rw [pending_write_other (by tauto)] at written
        exact Or.inl written
  | modify actor place target requireDeleted =>
      by_cases here : id = actor ∧ rid = place
      · obtain ⟨rfl, rfl⟩ := here
        exact Or.inr (Or.inr ⟨target, requireDeleted, rfl⟩)
      · rw [pending_write_other (by tauto)] at written
        exact Or.inl written
  | rollback actor oid place =>
      by_cases here : id = actor ∧ rid = place
      · obtain ⟨rfl, rfl⟩ := here
        rw [pending_undo_self] at written
        cases written
      · rw [pending_undo_other (by tauto)] at written
        exact Or.inl written
  | publish actor readTs commitTs =>
      by_cases same : id = actor
      · subst same
        rw [pending_publish_self] at written
        cases written
      · rw [pending_publish_other same] at written
        exact Or.inl written

theorem committed_kept (stepped : before.step op = some after)
    (unfinished : ∀ id, op ≠ .publish id) :
    after.ledger.committed = before.ledger.committed := by
  have booked := step_booked stepped
  generalize after.ledger = ledger at booked
  cases booked with
  | publish actor _ _ => exact absurd rfl (unfinished actor)
  | _ => rfl

end Rows

end BusTub
