import BusTub.OrderedIndexScan

/-!
What a transaction sees of an indexed table in the course of one of its statements.
Between two looks at the table the other transactions take any steps, and the reader
itself may read on and write to other tables. What it sees of the table stays the
same, and so does what the index has under the keys of it.
-/

namespace BusTub

open TransitionSystem (Run graph guarded)

def ReadsOn (table : TableInfo) (id : TxnId) (store : IndexedStore) : IndexedOp → Prop
  | .txn (.scan ..) | .txn (.read ..) | .txn (.fetch _) | .txn (.insert ..) => True
  | .txn (.modify actor rid _ _) => actor = id → ¬InTable table store.history rid
  | .txn op => op.actor ≠ some id
  | .place actor _ _ | .enter actor => actor ≠ id
  | .createIndex .. => True

structure Reader (store : IndexedStore) (id : TxnId) (readTs : Timestamp) : Prop where
  live : ∃ txn, store.history.Live id txn ∧ txn.readTs = readTs
  idle : store.entering id = none

structure Course (catalog : TableOid → Schema) (table : TableInfo) (id : TxnId)
    (course : Nat → IndexedStore) : Prop where
  kept : KeysKept catalog table (course 0)
  onward : ∀ look, ∃ labels, Run
    (guarded (fun store label => KeepsKeys table store label ∧ ReadsOn table id store label)
      (graph (IndexedStore.step table))) (course look) labels (course (look + 1))
  atRest : ∀ look, ((course look).history.mgr.control id).atRest = true

section Steps
variable {table : TableInfo} {before after : History} {op : TxnOp} {id : TxnId} {txn : Transaction}
  {rid : RID} {readTs : Timestamp}

/-- The reader has committed nothing, and what it has written stands at other RIDs. -/
theorem own_step_sees (inv : Inv before) (stepped : before.step op = some after)
    (within : op.within = some id) (live : before.Live id txn)
    (elsewhere : after.ledger.pending id rid = before.ledger.pending id rid) :
    (∃ txn', after.Live id txn' ∧ txn'.readTs = txn.readTs) ∧
      after.ledger.sees id txn.readTs rid = before.ledger.sees id txn.readTs rid := by
  have moved := within_moved inv stepped within
  refine ⟨acts_live moved.toActs live, ?_⟩
  rw [Ledger.sees, Ledger.sees, elsewhere, Ledger.committedAt, Ledger.committedAt, moved.committed]

theorem others_step_sees (inv : Inv before) (stepped : before.step op = some after)
    (other : op.actor ≠ some id) (live : before.Live id txn) :
    after.Live id txn ∧
      after.ledger.sees id txn.readTs rid = before.ledger.sees id txn.readTs rid := by
  obtain ⟨ids, clock⟩ := inv.clock
  have outside := outside_step inv stepped other live
  refine ⟨outside.live, ?_⟩
  rw [Ledger.sees, Ledger.sees, outside.pending,
    outside.committedAt _ _ (clock.readTs id txn live).2.2]

theorem pending_elsewhere (inv : Inv before) (stepped : before.step op = some after)
    (table : TableInfo) (there : InTable table after rid)
    (spares : (∃ oid place tuple, op = .insert id oid place tuple ∧ oid ≠ table.oid) ∨
      (∃ place target requireDeleted, op = .modify id place target requireDeleted ∧
        ¬InTable table before place) ∨
      (∃ oid predicate, op = .scan id oid predicate) ∨ (∃ place, op = .read id place) ∨
      op = .fetch id) :
    after.ledger.pending id rid = before.ledger.pending id rid := by
  have booked := step_booked stepped
  generalize after.ledger = ledger at booked
  rcases spares with ⟨oid, place, tuple, rfl, apart⟩ |
    ⟨place, target, requireDeleted, rfl, outside⟩ |
    ⟨oid, predicate, rfl⟩ | ⟨place, rfl⟩ | rfl
  · cases booked with
    | unchanged => rfl
    | insert =>
        obtain ⟨-, slot, found, same⟩ := inserted_slot stepped
        refine pending_write_other (Or.inr ?_)
        rintro rfl
        obtain ⟨slot', found', sameTable⟩ := there
        obtain rfl := Option.some.inj (found.symm.trans found')
        exact apart (same.symm.trans sameTable)
  · cases booked with
    | unchanged => rfl
    | modify =>
        refine pending_write_other (Or.inr ?_)
        rintro rfl
        obtain ⟨mgr, ran, rfl⟩ := Option.map_eq_some_iff.mp stepped
        obtain ⟨⟨result, next⟩, modified, -⟩ := Option.map_eq_some_iff.mp ran
        obtain ⟨-, slot, -, found, -⟩ := modify_cases modified
        obtain ⟨slot', now, same⟩ := tables_step inv stepped rid slot found
        obtain ⟨slot'', now', sameTable⟩ := there
        obtain rfl := Option.some.inj (now.symm.trans now')
        exact outside ⟨slot, found, same.symm.trans sameTable⟩
  · cases booked
    rfl
  · cases booked
    rfl
  · cases booked
    rfl

/-- The newest version is the one that is seen when its timestamp passes the test of a read. -/
theorem newest_sees (inv : Inv before) (live : before.Live id txn)
    (atRest : (before.mgr.control id).atRest = true) {slot : Slot}
    (found : before.mgr.heap.lookup rid = some slot)
    (early : slot.metadata.ts ≤ txn.readTs ∨ slot.metadata.ts = id) :
    before.ledger.sees id txn.readTs rid =
      if slot.metadata.isDeleted then none else some slot.tuple := by
  obtain ⟨ids, clock⟩ := inv.clock
  have read := slot_read inv clock live atRest found
  rw [if_pos early] at read
  exact read.symm

end Steps

/-! ### From look to look -/

structure Steady (table : TableInfo) (id : TxnId) (readTs : Timestamp)
    (start store : IndexedStore) : Prop where
  inv : IndexInv table store
  reader : Reader store id readTs
  created : start.index.isSome → store.index.isSome
  tables : SameTables start.history store.history
  sees : ∀ rid, InTable table store.history rid →
    store.history.ledger.sees id readTs rid = start.history.ledger.sees id readTs rid

section Courses
variable {catalog : TableOid → Schema} {table : TableInfo} {id : TxnId} {readTs : Timestamp}
  {start before after : IndexedStore} {label : IndexedOp} {course : Nat → IndexedStore}

theorem nothing_seen {history : History} (inv : Inv history) {rid : RID}
    (vacant : history.mgr.heap.lookup rid = none) : history.ledger.sees id readTs rid = none := by
  obtain ⟨-, none, nobody⟩ := inv.store.empty rid vacant
  simp [Ledger.sees, (nobody id).1, Ledger.committedAt, none]

theorem same_tables_trans {first second third : History} (front : SameTables first second)
    (back : SameTables second third) : SameTables first third := by
  intro rid slot found
  obtain ⟨middle, there, same⟩ := front rid slot found
  obtain ⟨last, now, still⟩ := back rid middle there
  exact ⟨last, now, still.trans same⟩

theorem reads_on_step (inv : IndexInv table before) (stepped : before.step table label = some after)
    (reads : ReadsOn table id before label) (reader : Reader before id readTs) :
    Reader after id readTs ∧ (before.index.isSome → after.index.isSome) ∧
      SameTables before.history after.history ∧ ∀ rid, InTable table after.history rid →
        after.history.ledger.sees id readTs rid = before.history.ledger.sees id readTs rid := by
  obtain ⟨⟨txn, live, rfl⟩, idle⟩ := reader
  have still (history : History) : SameTables history history :=
    fun _ slot found => ⟨slot, found, rfl⟩
  cases label with
  | txn op =>
      simp only [IndexedStore.step, Option.ite_none_right_eq_some] at stepped
      obtain ⟨may, stepped⟩ := stepped
      obtain ⟨history, ran, rfl⟩ := Option.map_eq_some_iff.mp stepped
      have tables := tables_step inv.inv ran
      -- what the reader itself writes stands in other tables
      by_cases own : op.actor = some id
      · have spares : op.within = some id ∧
            ((∃ oid place tuple, op = .insert id oid place tuple ∧ oid ≠ table.oid) ∨
              (∃ place target requireDeleted, op = .modify id place target requireDeleted ∧
                ¬InTable table before.history place) ∨
              (∃ oid predicate, op = .scan id oid predicate) ∨ (∃ place, op = .read id place) ∨
                op = .fetch id) := by
          cases op <;> simp_all [ReadsOn, TxnOp.actor, TxnOp.within, IndexedStore.mayTake]
        obtain ⟨within, spares⟩ := spares
        have kept {rid : RID} (there : InTable table history rid) :=
          own_step_sees inv.inv ran within live (pending_elsewhere inv.inv ran table there spares)
        have moved := within_moved inv.inv ran within
        exact ⟨⟨acts_live moved.toActs live, idle⟩, fun created => created, tables,
          fun rid there => (kept there).2⟩
      · have kept (rid : RID) := @others_step_sees _ _ _ _ _ rid inv.inv ran own live
        exact ⟨⟨⟨txn, (kept RID.invalid).1, rfl⟩, idle⟩, fun created => created, tables,
          fun rid _ => (kept rid).2⟩
  | createIndex indexType rids =>
      simp only [IndexedStore.step, Option.ite_none_right_eq_some, Option.bind_eq_bind,
        Option.bind_eq_some_iff] at stepped
      obtain ⟨-, fresh, -, index, -, same⟩ := stepped
      obtain rfl := Option.some.inj same
      exact ⟨⟨⟨txn, live, rfl⟩, idle⟩, fun _ => rfl, still _, fun _ _ => rfl⟩
  | place actor place tuple =>
      simp only [IndexedStore.step, Option.ite_none_right_eq_some] at stepped
      obtain ⟨-, stepped⟩ := stepped
      obtain ⟨history, ran, rfl⟩ := Option.map_eq_some_iff.mp stepped
      have other : (TxnOp.insert actor table.oid place tuple).actor ≠ some id := fun same =>
        reads (Option.some.inj same)
      have kept (rid : RID) := @others_step_sees _ _ _ _ _ rid inv.inv ran other live
      refine ⟨⟨⟨txn, (kept RID.invalid).1, rfl⟩, ?_⟩, fun created => created,
        tables_step inv.inv ran, fun rid _ => (kept rid).2⟩
      dsimp only
      split
      · rw [Function.update_of_ne (Ne.symm reads)]
        exact idle
      · exact idle
  | enter actor =>
      simp only [IndexedStore.step] at stepped
      split at stepped
      · simp only [Option.bind_eq_bind, Option.bind_eq_some_iff] at stepped
        obtain ⟨⟨inserted, grown⟩, -, stepped⟩ := stepped
        split at stepped
        · obtain ⟨_, -, rfl⟩ := Option.map_eq_some_iff.mp stepped
          refine ⟨⟨⟨txn, live, rfl⟩, ?_⟩, fun _ => rfl, still _, fun _ _ => rfl⟩
          dsimp only
          rw [Function.update_of_ne (Ne.symm reads)]
          exact idle
        · obtain ⟨history, ran, rfl⟩ := Option.map_eq_some_iff.mp stepped
          have other : (TxnOp.throwWriteConflict actor).actor ≠ some id := fun same =>
            reads (Option.some.inj same)
          have kept (rid : RID) := @others_step_sees _ _ _ _ _ rid inv.inv ran other live
          exact ⟨⟨⟨txn, (kept RID.invalid).1, rfl⟩, idle⟩, fun created => created,
            tables_step inv.inv ran, fun rid _ => (kept rid).2⟩
      · cases stepped

theorem steady_step (begun : Inv start.history) (steady : Steady table id readTs start before)
    (keeps : KeepsKeys table before label) (reads : ReadsOn table id before label)
    (stepped : before.step table label = some after) : Steady table id readTs start after := by
  obtain ⟨reader, created, tables, sees⟩ := reads_on_step steady.inv stepped reads steady.reader
  refine ⟨step_index_inv steady.inv keeps stepped, reader, fun there =>
      created (steady.created there), same_tables_trans steady.tables tables, fun rid there =>
        (sees rid there).trans ?_⟩
  cases here : before.history.mgr.heap.lookup rid with
  | some slot =>
      obtain ⟨slot', now, same⟩ := tables rid slot here
      obtain ⟨slot'', now', sameTable⟩ := there
      obtain rfl := Option.some.inj (now.symm.trans now')
      exact steady.sees rid ⟨slot, here, same.symm.trans sameTable⟩
  | none =>
      -- the slot has come with this step
      have vacant : start.history.mgr.heap.lookup rid = none := by
        cases was : start.history.mgr.heap.lookup rid with
        | none => rfl
        | some slot =>
            obtain ⟨slot', found, -⟩ := steady.tables rid slot was
            cases here.symm.trans found
      rw [nothing_seen steady.inv.inv here, nothing_seen begun vacant]

theorem steady_run (begun : Inv start.history) {labels : List IndexedOp} (run : Run
      (guarded (fun store label => KeepsKeys table store label ∧ ReadsOn table id store label)
      (graph (IndexedStore.step table))) before labels after)
    (steady : Steady table id readTs start before) : Steady table id readTs start after := by
  induction run with
  | refl _ => exact steady
  | next step _ ih =>
      obtain ⟨⟨keeps, reads⟩, stepped⟩ := step
      exact ih (steady_step begun steady keeps reads stepped)

theorem course_steady (goes : Course catalog table id course) (reader : Reader (course 0) id readTs)
    (look : Nat) : Steady table id readTs (course 0) (course look) := by
  have inv := keys_kept_inv goes.kept
  induction look with
  | zero =>
      exact ⟨inv, reader, fun created => created, fun _ slot found => ⟨slot, found, rfl⟩,
        fun _ _ => rfl⟩
  | succ look ih =>
      obtain ⟨labels, run⟩ := goes.onward look
      exact steady_run inv.inv run ih

end Courses

end BusTub
