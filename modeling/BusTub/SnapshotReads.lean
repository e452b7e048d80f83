import BusTub.MvccRuns

/-!
A read returns what its transaction should see, however the steps of the others
fall between the fetches of its undo logs.
-/

namespace BusTub

open TransitionSystem (Run graph)
open TransactionManager (collectFrom)

/-- What a transaction may be shown at a RID: its own last write, or else what
the last transaction in commit order left that had committed by its snapshot. -/
inductive Ledger.Visible (ledger : Ledger) (id : TxnId) (readTs : Timestamp) (rid : RID) :
    Option Tuple → Prop where
  | own (row : Option Tuple) (written : ledger.pending id rid = some row) : ledger.Visible id
      readTs rid row
  | snapshot (version : Version) (unwritten : ledger.pending id rid = none)
      (member : version ∈ ledger.committed rid) (early : version.commitTs ≤ readTs)
      (last : ∀ other ∈ ledger.committed rid, other.commitTs ≤ readTs →
        other.commitTs ≤ version.commitTs) :
      ledger.Visible id readTs rid version.row
  | absent (unwritten : ledger.pending id rid = none)
      (late : ∀ version ∈ ledger.committed rid, readTs < version.commitTs) : ledger.Visible id
        readTs rid none

section Visible
variable {history before after : History} {id : TxnId} {txn : Transaction} {rid : RID} {op : TxnOp}
  {labels : List TxnOp} {catalog : TableOid → Schema} {visible : Option Tuple} {base : Tuple}
  {baseMeta : TupleMeta} {logs : List UndoLog} {link : UndoLink}

theorem versions_fall (store : StoreInv history) (rid : RID) :
    (history.ledger.committed rid).Pairwise fun newer older => older.commitTs < newer.commitTs := by
  refine (store.sorted rid).imp_of_mem ?_
  intro newer older member _ ordered
  have dated := store.dated rid newer member
  lia

theorem committed_at_latest (store : StoreInv history) (ts : Timestamp) (rid : RID) :
    (∃ version ∈ history.ledger.committed rid, version.commitTs ≤ ts ∧
      (∀ other ∈ history.ledger.committed rid, other.commitTs ≤ ts →
      other.commitTs ≤ version.commitTs) ∧ history.ledger.committedAt ts rid = version.row) ∨
    ((∀ version ∈ history.ledger.committed rid, ts < version.commitTs) ∧
      history.ledger.committedAt ts rid = none) := by
  unfold Ledger.committedAt
  cases found : (history.ledger.committed rid).find? fun version =>
    decide (version.commitTs ≤ ts) with
  | none =>
      refine Or.inr ⟨fun version member => ?_, rfl⟩
      have late := List.find?_eq_none.mp found version member
      simpa using late
  | some version =>
      obtain ⟨early, newer, older, split, late⟩ := List.find?_eq_some_iff_append.mp found
      refine Or.inl ⟨version, List.mem_of_find?_eq_some found, of_decide_eq_true early, ?_, rfl⟩
      intro other member before
      have falling := versions_fall store rid
      rw [split] at member falling
      rcases List.mem_append.mp member with above | below
      · have after := late other above
        simp [before] at after
      · rcases List.mem_cons.mp below with rfl | under
        · exact Int.le_refl _
        · exact Int.le_of_lt
            ((List.pairwise_cons.mp (List.pairwise_append.mp falling).2.1).1 other under)

theorem sees_visible (store : StoreInv history) (id : TxnId) (readTs : Timestamp) (rid : RID) :
    history.ledger.Visible id readTs rid (history.ledger.sees id readTs rid) := by
  unfold Ledger.sees
  cases written : history.ledger.pending id rid with
  | some row => exact Ledger.Visible.own row written
  | none =>
      rw [Option.getD_none]
      rcases committed_at_latest store readTs rid with ⟨version, member, early, last, same⟩ |
        ⟨late, same⟩
      · rw [same]
        exact Ledger.Visible.snapshot version written member early last
      · rw [same]
        exact Ledger.Visible.absent written late

/-- Where a read stands that has begun at a RID: it has returned, or the log that
it needs next is there. Each log it has fetched lies at least one timestamp
below the one before. -/
inductive Reading (history : History) (id : TxnId) (txn : Transaction) (rid : RID) :
    Control → Prop where
  | returned : Reading history id txn rid (.returned rid (history.ledger.sees id txn.readTs rid))
  | collecting (base : Tuple) (baseMeta : TupleMeta) (logs : List UndoLog) (link : UndoLink)
      (falls : logs.length + readAt baseMeta logs ≤ baseMeta.ts) :
      Reading history id txn rid (.collecting rid base baseMeta logs link)

theorem collect_from_reading (call : CallInv history id (collectFrom rid base baseMeta logs link))
    (live : history.Live id txn) (falls : logs.length + readAt baseMeta logs ≤ baseMeta.ts) :
    Reading history id txn rid (collectFrom rid base baseMeta logs link) := by
  unfold collectFrom at call ⊢
  split at call
  · rename_i valid
    rw [if_pos valid]
    exact Reading.collecting base baseMeta logs link falls
  · rename_i invalid
    rw [if_neg invalid]
    obtain ⟨record, live', same⟩ := call
    obtain rfl : txn = record := Option.some.inj (live.1.symm.trans live'.1)
    rw [same]
    exact Reading.returned

theorem read_begins (inv : Inv before) (live : before.Live id txn)
    (stepped : before.step (.read id rid) = some after) :
    after.Live id txn ∧ after.ledger = before.ledger ∧
      Reading after id txn rid (after.mgr.control id) := by
  have call := (step_inv inv stepped).calls id
  obtain ⟨mgr, ran, rfl⟩ := Option.map_eq_some_iff.mp stepped
  obtain ⟨record, ready, ran⟩ := Option.bind_eq_some_iff.mp ran
  obtain ⟨slot, found, same⟩ := Option.bind_eq_some_iff.mp ran
  obtain rfl : txn = record :=
    Option.some.inj (live.1.symm.trans (TransactionManager.ready_iff.mp ready).1)
  split at same
  · obtain rfl := Option.some.inj same
    refine ⟨live, rfl, ?_⟩
    rw [TransactionManager.control_set_control] at call ⊢
    obtain ⟨record, live', same⟩ := call
    obtain rfl : txn = record := Option.some.inj (live.1.symm.trans live'.1)
    rw [same]
    exact Reading.returned
  · obtain rfl := Option.some.inj same
    refine ⟨live, rfl, ?_⟩
    rw [TransactionManager.control_set_control] at call ⊢
    exact collect_from_reading call live (by simp [readAt])

/-- The log that a read needs next is there, and it is older than the last one. -/
theorem fetch_spec (inv : Inv before) (live : before.Live id txn)
    (stage : before.mgr.control id = .collecting rid base baseMeta logs link) :
    txn.readTs < readAt baseMeta logs ∧
      ∃ log, before.mgr.getUndoLogOptional link = some log ∧ log.ts < readAt baseMeta logs ∧
      before.mgr.fetch id = some (before.mgr.setControl id
        (if log.ts ≤ txn.readTs then .returned rid (reconstructTuple base baseMeta (logs ++ [log]))
        else collectFrom rid base baseMeta (logs ++ [log]) log.prevVersion)) := by
  have call := inv.calls id
  rw [stage] at call
  obtain ⟨record, live', reader⟩ := call
  obtain rfl : txn = record := Option.some.inj (live.1.symm.trans live'.1)
  obtain ⟨upper, values, deleted, row, older, _, _, chain, rfl, late, _, _, _, valid⟩ := reader
  obtain ⟨ids, clock⟩ := inv.clock
  have fresh := (clock.readTs id txn live).2.1
  obtain ⟨log, rest, found, _, before', _, _⟩ := chain_link (by lia) valid chain
  have ts := (inv.store.logs link log found).1
  have found' : before.mgr.getUndoLogOptional link = some log := found
  refine ⟨late, log, found', by lia, ?_⟩
  simp only [TransactionManager.fetch, live.1, Option.bind_eq_bind, Option.bind_some, stage, found']
  split <;> rfl

theorem fetch_reads (inv : Inv before) (live : before.Live id txn)
    (reading : Reading before id txn rid (before.mgr.control id))
    (stepped : before.step (.fetch id) = some after) :
    after.Live id txn ∧ after.ledger = before.ledger ∧
      Reading after id txn rid (after.mgr.control id) := by
  have call := (step_inv inv stepped).calls id
  obtain ⟨mgr, ran, rfl⟩ := Option.map_eq_some_iff.mp stepped
  generalize stage : before.mgr.control id = control at reading
  cases reading with
  | returned =>
      obtain ⟨record, _, same⟩ := Option.bind_eq_some_iff.mp ran
      rw [stage] at same
      cases same
  | collecting base baseMeta logs link falls =>
      obtain ⟨_, log, _, lower, fetched⟩ := fetch_spec inv live stage
      obtain rfl := Option.some.inj (fetched.symm.trans ran)
      refine ⟨live, rfl, ?_⟩
      rw [TransactionManager.control_set_control] at call ⊢
      have falls' : (logs ++ [log]).length + readAt baseMeta (logs ++ [log]) ≤ baseMeta.ts := by
        rw [readAt, List.getLast?_append, List.length_append]
        simp only [List.getLast?_singleton, Option.some_or, Option.map_some, Option.getD_some,
          List.length_singleton]
        push_cast
        lia
      split at call
      · rename_i early
        rw [if_pos early]
        obtain ⟨record, live', same⟩ := call
        obtain rfl : txn = record := Option.some.inj (live.1.symm.trans live'.1)
        rw [same]
        exact Reading.returned
      · rename_i late
        rw [if_neg late]
        exact collect_from_reading call live falls'

theorem others_read (inv : Inv before) (live : before.Live id txn)
    (reading : Reading before id txn rid (before.mgr.control id))
    (stepped : before.step op = some after) (other : op.actor ≠ some id) :
    after.Live id txn ∧ after.ledger.sees id txn.readTs rid = before.ledger.sees id txn.readTs rid ∧
      Reading after id txn rid (after.mgr.control id) := by
  obtain ⟨ids, clock⟩ := inv.clock
  have outside := outside_step inv stepped other live
  have sees : after.ledger.sees id txn.readTs rid = before.ledger.sees id txn.readTs rid := by
    rw [Ledger.sees, Ledger.sees, outside.pending,
      outside.committedAt _ _ (clock.readTs id txn live).2.2]
  refine ⟨outside.live, sees, ?_⟩
  rw [outside.control]
  generalize before.mgr.control id = control at reading
  cases reading with
  | returned =>
      rw [← sees]
      exact Reading.returned
  | collecting base baseMeta logs link falls =>
      exact Reading.collecting base baseMeta logs link falls

/-- The steps of others and the fetches of the read itself, in any order. -/
theorem reading_run (run : Run (graph History.step) before labels after) (inv : Inv before)
    (live : before.Live id txn) (reading : Reading before id txn rid (before.mgr.control id))
    (only : ∀ op ∈ labels, op.actor = some id → op = .fetch id) :
    Inv after ∧ after.Live id txn ∧ after.ledger.sees id txn.readTs rid =
      before.ledger.sees id txn.readTs rid ∧ Reading after id txn rid (after.mgr.control id) := by
  induction run with
  | refl history => exact ⟨inv, live, rfl, reading⟩
  | @next before middle after op rest step _ ih =>
      have stepped : before.step op = some middle := step
      have later := step_inv inv stepped
      have onlyRest (op : TxnOp) (member : op ∈ rest) := only op (List.mem_cons_of_mem _ member)
      by_cases own : op.actor = some id
      · obtain rfl := only op (List.mem_cons_self ..) own
        obtain ⟨live', ledger, reading'⟩ := fetch_reads inv live reading stepped
        obtain ⟨inv'', live'', sees, reading''⟩ := ih later live' reading' onlyRest
        exact ⟨inv'', live'', sees.trans (by rw [ledger]), reading''⟩
      · obtain ⟨live', same, reading'⟩ := others_read inv live reading stepped own
        obtain ⟨inv'', live'', sees, reading''⟩ := ih later live' reading' onlyRest
        exact ⟨inv'', live'', sees.trans same, reading''⟩

/-- The transaction can read the RID now. Whatever the others do meanwhile, the
read has returned what the transaction could see when it began and can see
still, or the undo log that it needs next is there; and there is a bound on how
many logs it fetches. -/
def ReadsCorrectly (before : History) (id : TxnId) (txn : Transaction) (rid : RID) : Prop :=
  ∃ middle, before.step (.read id rid) = some middle ∧
    ∀ labels after, Run (graph History.step) middle labels after →
      (∀ op ∈ labels, op.actor = some id → op = .fetch id) →
      (∃ visible, after.mgr.control id = .returned rid visible ∧
        before.ledger.Visible id txn.readTs rid visible ∧
          after.ledger.Visible id txn.readTs rid visible) ∨
      ∃ base baseMeta logs link log, after.mgr.control id =
        .collecting rid base baseMeta logs link ∧ after.mgr.getUndoLogOptional link = some log ∧
          logs.length < baseMeta.ts - txn.readTs

/-- Every read of a transaction between two calls, in every reachable state. -/
theorem snapshot_reads_correct (reached : Reached catalog before) (live : before.Live id txn)
    (rest : (before.mgr.control id).atRest = true)
    (present : (before.mgr.heap.lookup rid).isSome = true) :
    ReadsCorrectly before id txn rid := by
  have inv := reached_inv reached
  obtain ⟨slot, found⟩ := Option.isSome_iff_exists.mp present
  have ready : before.mgr.ready id = some txn :=
    TransactionManager.ready_iff.mpr ⟨live.1, live.2, rest⟩
  obtain ⟨middle, stepped⟩ : ∃ middle, before.step (.read id rid) = some middle := by
    unfold History.step TransactionManager.step TransactionManager.read
    simp only [ready, found, Option.bind_eq_bind, Option.bind_some]
    split <;> exact ⟨_, rfl⟩
  refine ⟨middle, stepped, fun labels after run only => ?_⟩
  obtain ⟨live', ledger, begun⟩ := read_begins inv live stepped
  obtain ⟨inv', live'', sees, reading⟩ := reading_run run (step_inv inv stepped) live' begun only
  generalize stage : after.mgr.control id = control at reading
  cases reading with
  | returned =>
      refine Or.inl ⟨_, rfl, ?_, sees_visible inv'.store id txn.readTs rid⟩
      rw [sees, ledger]
      exact sees_visible inv.store id txn.readTs rid
  | collecting base baseMeta logs link falls =>
      obtain ⟨late, log, found, _, _⟩ := fetch_spec inv' live'' stage
      exact Or.inr ⟨base, baseMeta, logs, link, log, rfl, found, by lia⟩

end Visible

def oneColumn : TableOid → Schema := fun _ => [.integer]

def runFrom (catalog : TableOid → Schema) (ops : List TxnOp) : Option History :=
  ops.foldlM History.step (History.start catalog)

theorem reached_run {catalog : TableOid → Schema} {ops : List TxnOp}
    (returns : (runFrom catalog ops).isSome = true) :
    Reached catalog ((runFrom catalog ops).get returns) :=
  ⟨_, ops, rfl, TransitionSystem.run_of_fold (Option.some_get _).symm⟩

def number (value : Int) : Value := { typeId := .integer, datum := some (.number value) }

def firstSlot : RID := { pageId := 0, slotNum := 0 }

def overwrittenRun : List TxnOp :=
  [.begin .snapshotIsolation, .insert TXN_START_ID 0 firstSlot [number 1], .commit TXN_START_ID,
    .stamp TXN_START_ID 0 firstSlot, .publish TXN_START_ID, .begin .snapshotIsolation,
    .begin .snapshotIsolation, .modify (TXN_START_ID + 2) firstSlot (some [number 2]) false,
    .commit (TXN_START_ID + 2), .stamp (TXN_START_ID + 2) 0 firstSlot, .publish (TXN_START_ID + 2)]

theorem overwritten_run_returns : (runFrom oneColumn overwrittenRun).isSome = true := by decide

def overwritten : History := (runFrom oneColumn overwrittenRun).get overwritten_run_returns

theorem overwritten_reader :
    overwritten.Live (TXN_START_ID + 1) { isolationLevel := .snapshotIsolation, readTs := 1 } :=
  ⟨by rfl, rfl⟩

/-- The reader of the old row. -/
theorem overwritten_row_reads_correctly :
    ReadsCorrectly overwritten (TXN_START_ID + 1)
      { isolationLevel := .snapshotIsolation, readTs := 1 } firstSlot :=
  snapshot_reads_correct (reached_run overwritten_run_returns) overwritten_reader
    (by decide) (by decide)

end BusTub
