import BusTub.Executors
import BusTub.FailedStatements
import BusTub.Listing

/-!
A statement whose child scans the table that the statement writes. The scan
(`SeqScanExecutor`) has fixed its RIDs when it was opened, reads one after the
other, and hands over its rows in batches, through a projection. What a
transaction sees of the table changes only by the writes of its own statements.
-/

namespace BusTub.Dml

open Function (update)
open TransitionSystem (Run graph)
open Listing

/-! ### What a transaction sees of a table -/

def tableView (me : TxnId) (readTs : Timestamp) (oid : TableOid) (history : History) (rid : RID) :
    Option Tuple :=
  if inTable history oid rid then history.ledger.sees me readTs rid else none

def seenRows (me : TxnId) (readTs : Timestamp) (oid : TableOid) (history : History) :
    List (RID × Tuple) :=
  history.mgr.heap.keys.filterMap (selectRow (tableView me readTs oid history) fun _ => true)

section Views
variable {me : TxnId} {readTs : Timestamp} {oid : TableOid} {history next : History} {rid : RID}
  {op : TxnOp} {tuple : Tuple} {target : Option Tuple} {mgr : TransactionManager}
  {row : Option Tuple} {requireDeleted : Bool} {result : ModifyResult}

theorem in_table_iff : inTable history oid rid = true ↔
    ∃ slot, history.mgr.heap.lookup rid = some slot ∧ slot.oid = oid := by
  simp [inTable, Option.any_eq_true]

theorem view_some (sees : tableView me readTs oid history rid = some tuple) :
    inTable history oid rid = true ∧ history.ledger.sees me readTs rid = some tuple := by
  unfold tableView at sees
  split at sees
  · rename_i ours
    exact ⟨ours, sees⟩
  · cases sees

theorem view_ours (ours : inTable history oid rid = true) :
    tableView me readTs oid history rid = history.ledger.sees me readTs rid := if_pos ours

theorem view_fits (inv : Inv history) (sees : tableView me readTs oid history rid = some tuple) :
    tuple.Fits (history.mgr.catalog oid) := by
  obtain ⟨ours, visible⟩ := view_some sees
  obtain ⟨slot, found, rfl⟩ := in_table_iff.mp ours
  have shaped : SameShape tuple slot.tuple := by
    unfold Ledger.sees at visible
    cases written : history.ledger.pending me rid with
    | some row =>
        rw [written] at visible
        exact inv.store.pendingShape me rid slot tuple found (written.trans (congrArg some visible))
    | none =>
        rw [written, Option.getD_none, Ledger.committedAt, Option.bind_eq_some_iff] at visible
        obtain ⟨version, listed, row⟩ := visible
        exact inv.store.committedShape rid slot version tuple found
          (List.mem_of_find?_eq_some listed) row
  exact shaped.1.trans (inv.store.fits rid slot found)

theorem seen_rows_list :
    Lists (tableView me readTs oid history) (seenRows me readTs oid history) := by
  have picked {place : RID} {row : RID × Tuple}
    (found : selectRow (tableView me readTs oid history) (fun _ => true) place = some row) :
      row.1 = place :=
    (select_row_iff.mp found).1
  refine ⟨?_, fun rid tuple => ?_⟩
  · rw [seenRows, List.map_filterMap]
    refine (AList.keys_nodup history.mgr.heap).filterMap ?_
    intro left right rid first second
    obtain ⟨row, found, rfl⟩ := Option.map_eq_some_iff.mp first
    obtain ⟨other, found', same⟩ := Option.map_eq_some_iff.mp second
    rw [← picked found, ← same, picked found']
  · rw [seenRows, List.mem_filterMap]
    constructor
    · rintro ⟨place, _, found⟩
      obtain ⟨rfl, here, _⟩ := select_row_iff.mp found
      exact here
    · intro sees
      obtain ⟨slot, found, _⟩ := in_table_iff.mp (view_some sees).1
      exact ⟨rid, AList.lookup_isSome.mp (by rw [found]; rfl), select_row_iff.mpr ⟨rfl, sees, rfl⟩⟩

theorem ours_step (inv : Inv history) (stepped : history.step op = some next)
    (ours : inTable history oid rid = true) :
    inTable next oid rid = true := by
  obtain ⟨slot, found, same⟩ := in_table_iff.mp ours
  obtain ⟨slot', found', oid'⟩ := tables_step inv stepped rid slot found
  exact in_table_iff.mpr ⟨slot', found', oid'.trans same⟩

theorem catalog_step (inv : Inv history) (stepped : history.step op = some next) :
    next.mgr.catalog = history.mgr.catalog := by
  cases inside : op.within with
  | some id => exact (within_moved inv stepped inside).catalog
  | none =>
      obtain ⟨ids, clock⟩ := inv.clock
      cases op with
      | begin isolationLevel =>
          obtain ⟨running, begun⟩ := begun_step stepped
          exact (begun_still begun clock).catalog
      | publish id =>
          obtain ⟨_, _, _, published⟩ := published_step inv stepped
          exact published.catalog
      | aborted id =>
          obtain ⟨_, aborted⟩ := aborted_step inv stepped
          exact aborted.catalog
      | garbageCollection =>
          obtain ⟨rfl, _⟩ := collected_step stepped
          rfl
      | _ => cases inside

theorem sees_slot (inv : Inv history) (sees : history.ledger.sees me readTs rid = some tuple) :
    ∃ slot, history.mgr.heap.lookup rid = some slot := by
  cases found : history.mgr.heap.lookup rid with
  | some slot => exact ⟨slot, rfl⟩
  | none =>
      obtain ⟨_, unwritten, free⟩ := inv.store.empty rid found
      simp [Ledger.sees, (free me).1, Ledger.committedAt, unwritten] at sees

/-- A step that leaves what the transaction sees leaves what it sees of the table. -/
theorem view_kept (inv : Inv history) (stepped : history.step op = some next)
    (same : next.ledger.sees me readTs rid = history.ledger.sees me readTs rid) :
    tableView me readTs oid next rid = tableView me readTs oid history rid := by
  by_cases ours : inTable history oid rid = true
  · rw [view_ours ours, view_ours (ours_step inv stepped ours), same]
  · by_cases now : inTable next oid rid = true
    · -- a row seen before had its slot before, which has kept its table
      rw [view_ours now, same, tableView, if_neg ours]
      cases sees : history.ledger.sees me readTs rid with
      | none => rfl
      | some tuple =>
          obtain ⟨slot, found⟩ := sees_slot inv sees
          obtain ⟨slot', found', oid'⟩ := tables_step inv stepped rid slot found
          obtain ⟨slot'', found'', here⟩ := in_table_iff.mp now
          obtain rfl := Option.some.inj (found'.symm.trans found'')
          exact absurd (in_table_iff.mpr ⟨slot, found, oid'.symm.trans here⟩) ours
    · rw [tableView, if_neg now, tableView, if_neg ours]

theorem view_other (standing : Standing me readTs history) (stepped : history.step op = some next)
    (elsewhere : op.actor ≠ some me) :
    tableView me readTs oid next = tableView me readTs oid history := by
  obtain ⟨txn, live, rfl⟩ := standing.live
  obtain ⟨ids, clock⟩ := standing.inv.clock
  have outside := outside_step standing.inv stepped elsewhere live
  funext rid
  refine view_kept standing.inv stepped ?_
  rw [Ledger.sees, Ledger.sees, outside.pending,
    outside.committedAt _ _ (clock.readTs me txn live).2.2]

theorem view_ledger (inv : Inv history) (stepped : history.step op = some next)
    (same : next.ledger = history.ledger) :
    tableView me readTs oid next = tableView me readTs oid history := by
  funext rid
  exact view_kept inv stepped (by rw [same])

theorem reading_ledger (reads : reading op = true) (stepped : history.step op = some next) :
    next.ledger = history.ledger := by
  obtain ⟨mgr, _, rfl⟩ := Option.map_eq_some_iff.mp stepped
  cases op with
  | scan id oid predicate | read id rid | fetch id => rfl
  | _ => cases reads

theorem sees_write {ledger : Ledger} (place : RID) :
    (ledger.write me rid row).sees me readTs place = if place = rid then row
      else ledger.sees me readTs place := by
  by_cases same : place = rid
  · subst same
    simp [Ledger.sees, pending_write_self]
  · rw [Ledger.sees, pending_write_other (Or.inr same), if_neg same]
    rfl

/-- After a write the transaction sees what it has written there, and the rest as before. -/
theorem view_written (inv : Inv history) (stepped : history.step op = some next)
    (written : next.ledger = history.ledger.write me rid row)
    (ours : inTable next oid rid = true) :
    tableView me readTs oid next = update (tableView me readTs oid history) rid row := by
  funext place
  by_cases same : place = rid
  · subst same
    rw [view_ours ours, written, sees_write, if_pos rfl, Function.update_self]
  · rw [Function.update_of_ne same]
    exact view_kept inv stepped (by rw [written, sees_write, if_neg same])

/-- `ModifyTuple` writes its row when it is done, and nothing otherwise. -/
theorem modified_ledger
    (returned : history.mgr.modifyTuple me rid target requireDeleted = some (result, mgr))
    (stepped : history.step (.modify me rid target requireDeleted) = some next) :
    next.ledger = if result = .done then history.ledger.write me rid target
      else history.ledger := by
  obtain ⟨txn, slot, ready, found, _⟩ := modify_cases returned
  have inMap := (TransactionManager.ready_iff.mp ready).1
  obtain ⟨mgr', _, rfl⟩ := Option.map_eq_some_iff.mp stepped
  simp only [History.record, returned, History.recordModify, inMap, found]

theorem view_modified (standing : Standing me readTs history)
    (ours : inTable history oid rid = true)
    (returned : history.mgr.modifyTuple me rid target requireDeleted = some (result, mgr))
    (stepped : history.step (.modify me rid target requireDeleted) = some next) :
    tableView me readTs oid next =
      if result = .done then update
        (tableView me readTs oid history) rid target else tableView me readTs oid history := by
  have ledger := modified_ledger returned stepped
  split at ledger
  · rename_i done
    rw [if_pos done]
    exact view_written standing.inv stepped ledger (ours_step standing.inv stepped ours)
  · rename_i failed
    rw [if_neg failed]
    exact view_ledger standing.inv stepped ledger

theorem revived_unseen (standing : Standing me readTs history)
    (returned : history.mgr.modifyTuple me rid target true = some (.done, mgr)) :
    history.ledger.sees me readTs rid = none := by
  obtain ⟨txn, slot, ready, found, _, ended⟩ := modify_cases returned
  obtain ⟨inMap, alive, atRest⟩ := TransactionManager.ready_iff.mp ready
  obtain ⟨record, live, rfl⟩ := standing.live
  obtain rfl := Option.some.inj (live.1.symm.trans inMap)
  rcases ended with ⟨impossible, _⟩ | ⟨clear, _⟩
  · cases impossible
  · obtain ⟨ids, clock⟩ := standing.inv.clock
    have shown := slot_read standing.inv clock live atRest found
    simp only [TransactionManager.conflicts, Bool.or_eq_false_iff, Bool.and_eq_false_iff,
      Bool.true_and, decide_eq_false_iff_not, not_not, Bool.not_eq_false'] at clear
    have early : slot.metadata.ts ≤ record.readTs ∨ slot.metadata.ts = me := by
      rcases clear.1 with own | early
      · exact Or.inr own
      · exact Or.inl (by lia)
    rw [if_pos early] at shown
    rw [← shown, reconstructTuple]
    simp [clear.2]

theorem placed_slot (stepped : history.step (.insert me oid rid tuple) = some next) :
    inTable history oid rid = false ∧ inTable next oid rid = true := by
  obtain ⟨mgr, ran, rfl⟩ := Option.map_eq_some_iff.mp stepped
  obtain ⟨txn, ready, ran⟩ := Option.bind_eq_some_iff.mp ran
  simp only [Option.ite_none_left_eq_some, not_or, Bool.not_eq_true, Option.isSome_eq_false_iff,
    Option.isNone_iff_eq_none] at ran
  obtain ⟨⟨free, _⟩, same⟩ := ran
  obtain rfl := Option.some.inj same
  exact ⟨by simp [inTable, free], by simp [inTable, TransactionManager.setSlot]⟩

theorem placed_view (inv : Inv history)
    (stepped : history.step (.insert me oid rid tuple) = some next) :
    tableView me readTs oid next = update (tableView me readTs oid history) rid (some tuple) := by
  refine view_written inv stepped ?_ (placed_slot stepped).2
  obtain ⟨mgr, _, rfl⟩ := Option.map_eq_some_iff.mp stepped
  rfl

theorem returned_view {rid : RID} {visible : Option Tuple} (standing : Standing me readTs history)
    (returned : history.mgr.control me = .returned rid visible)
    (ours : inTable history oid rid = true) :
    tableView me readTs oid history rid = visible := by
  have call := standing.inv.calls me
  rw [returned] at call
  obtain ⟨txn, live, same⟩ := call
  obtain ⟨record, live', rfl⟩ := standing.live
  obtain rfl := Option.some.inj (live.1.symm.trans live'.1)
  rw [view_ours ours, same]

end Views

/-! ### The scan below the statement -/

/-- The predicate of the scan and the expressions of the projection over it; an
expression that throws has no value. A NULL predicate is false. -/
structure Query where
  filterPredicate : Tuple → Option Bool
  projection : Expressions

def Query.accepts (query : Query) (tuple : Tuple) : Bool := query.filterPredicate tuple = some true

structure Scan where
  rids : List RID
  batch : List (RID × Tuple)

structure ScannedStore where
  statement : Store
  scan : Option Scan

inductive ScannedOp where
  /-- a step of the statement's loop over its rows, or of another transaction -/
  | statement (op : DmlOp)
  /-- `Init` of the scan -/
  | openScan (rids : List RID)
  /-- the version at the next RID is read, with undo logs one by one -/
  | read
  | fetch
  /-- what was read there is put into the batch, or left out -/
  | take
  /-- the batch is full or the iterator at its end: `Next` of the child returns -/
  | deliver

def ofChild (me : TxnId) : DmlOp → Bool
  | .childBatch _ | .childEnd | .childThrows => true
  | .txn op => op.actor = some me
  | _ => false

/-- A scan has each RID once, all of the table; it leaves out at most what its
predicate refuses. A sequential scan leaves out nothing. -/
def covers (query : Query) (me : TxnId) (oid : TableOid) (history : History)
    (rids : List RID) : Bool :=
  (history.mgr.txnMap.lookup me).any fun txn =>
    decide rids.Nodup && rids.all (inTable history oid) &&
      history.mgr.heap.keys.all fun rid =>
        rid ∈ rids || !(tableView me txn.readTs oid history rid).any query.accepts

namespace ScannedStore

variable (query : Query) (me : TxnId) (oid : TableOid)

def act (store : ScannedStore) (op : DmlOp) (scan : Option Scan) : Option ScannedStore :=
  (store.statement.step me oid op).map fun statement => { statement := statement, scan := scan }

def take (store : ScannedStore) : Option ScannedStore :=
  match store.scan, store.statement.history.mgr.control me with
  | some ⟨rid :: rids, batch⟩, .returned place visible =>
      if place = rid ∧ store.statement.phase.pulls then
        match visible with
        | none => some { store with scan := some ⟨rids, batch⟩ }
        | some tuple =>
            match query.filterPredicate tuple with
            | none => store.act me oid .childThrows store.scan
            | some accepted =>
                some { store with
                  scan := some ⟨rids, if accepted then batch ++ [(rid, tuple)] else batch⟩ }
      else none
  | _, _ => none

def deliver (store : ScannedStore) : Option ScannedStore :=
  match store.scan with
  | none => none
  | some ⟨rids, batch⟩ =>
      if batch.length < BUSTUB_BATCH_SIZE ∧ rids ≠ [] then none
      else if batch = [] then store.act me oid .childEnd store.scan
      else
        match batch.mapM fun row => (query.projection row.2).map fun tuple => (row.1, tuple) with
        | none => store.act me oid .childThrows store.scan
        | some rows => store.act me oid (.childBatch rows) (some ⟨rids, []⟩)

def step (store : ScannedStore) : ScannedOp → Option ScannedStore
  | .statement op => if ofChild me op then none else store.act me oid op store.scan
  | .openScan rids =>
      if store.scan.isNone ∧ covers query me oid store.statement.history rids then
        store.act me oid (.txn (.scan me oid (some query.filterPredicate))) (some ⟨rids, []⟩)
      else none
  | .read =>
      match store.scan with
      | some ⟨rid :: _, batch⟩ =>
          if batch.length < BUSTUB_BATCH_SIZE then
            store.act me oid (.txn (.read me rid)) store.scan else none
      | _ => none
  | .fetch => if store.scan.isSome then store.act me oid (.txn (.fetch me)) store.scan else none
  | .take => store.take query me oid
  | .deliver => store.deliver query me oid

end ScannedStore

inductive ScannedStepped (query : Query) (me : TxnId) (oid : TableOid) (before : ScannedStore) :
    ScannedOp → ScannedStore → Prop where
  | loop (op : DmlOp) (statement : Store) (mine : ofChild me op = false)
      (stepped : Stepped me oid before.statement op statement) :
      ScannedStepped query me oid before (.statement op) { before with statement := statement }
  | opened (rids : List RID) (history : History) (first : before.scan = none)
      (covered : covers query me oid before.statement.history rids = true)
        (pulls : before.statement.phase.pulls = true)
      (stepped : before.statement.history.step (.scan me oid (some query.filterPredicate)) =
        some history) :
      ScannedStepped query me oid before (.openScan rids)
        { statement := { before.statement with history := history }, scan := some ⟨rids, []⟩ }
  | read (label : ScannedOp) (op : TxnOp) (history : History) (reads : reading op = true)
      (child : label = .read ∨ label = .fetch) (pulls : before.statement.phase.pulls = true)
        (stepped : before.statement.history.step op = some history) :
      ScannedStepped query me oid before label
        { before with statement := { before.statement with history := history } }
  | passed (rid : RID) (rids : List RID) (batch : List (RID × Tuple)) (visible : Option Tuple)
      (scans : before.scan = some ⟨rid :: rids, batch⟩)
        (pulls : before.statement.phase.pulls = true)
      (returned : before.statement.history.mgr.control me = .returned rid visible)
      (refused : ∀ tuple, visible = some tuple → query.filterPredicate tuple = some false) :
      ScannedStepped query me oid before .take { before with scan := some ⟨rids, batch⟩ }
  | took (rid : RID) (rids : List RID) (batch : List (RID × Tuple)) (tuple : Tuple)
      (scans : before.scan = some ⟨rid :: rids, batch⟩)
        (pulls : before.statement.phase.pulls = true)
      (returned : before.statement.history.mgr.control me = .returned rid (some tuple))
      (accepted : query.filterPredicate tuple = some true) :
      ScannedStepped query me oid before .take { before with
        scan := some ⟨rids, batch ++ [(rid, tuple)]⟩ }
  | filterThrew (rid : RID) (rids : List RID) (batch : List (RID × Tuple)) (tuple : Tuple)
      (scans : before.scan = some ⟨rid :: rids, batch⟩)
        (pulls : before.statement.phase.pulls = true)
      (returned : before.statement.history.mgr.control me = .returned rid (some tuple))
      (throws : query.filterPredicate tuple = none) :
      ScannedStepped query me oid before .take
        { before with statement := { before.statement with phase := .threw .child } }
  | exhausted (statement : Store) (scans : before.scan = some ⟨[], []⟩)
      (stepped : Stepped me oid before.statement .childEnd statement) :
      ScannedStepped query me oid before .deliver { before with statement := statement }
  | projectionThrew (rids : List RID) (batch : List (RID × Tuple))
      (scans : before.scan = some ⟨rids, batch⟩)
      (pulls : before.statement.phase.pulls = true)
      (throws : (batch.mapM fun row => (query.projection row.2).map fun tuple => (row.1, tuple)) =
        none) :
      ScannedStepped query me oid before .deliver
        { before with statement := { before.statement with phase := .threw .child } }
  | delivered (rids : List RID) (batch rows : List (RID × Tuple)) (statement : Store)
      (scans : before.scan = some ⟨rids, batch⟩)
      (projected : (batch.mapM fun row => (query.projection row.2).map fun tuple =>
        (row.1, tuple)) = some rows)
      (stepped : Stepped me oid before.statement (.childBatch rows) statement) :
      ScannedStepped query me oid before .deliver
        { statement := statement, scan := some ⟨rids, []⟩ }

section ScannedSteps
variable {query : Query} {me : TxnId} {oid : TableOid} {before after : ScannedStore}
  {label : ScannedOp} {store next : Store} {readTs : Timestamp}

theorem scanned_act {op : DmlOp} {scan : Option Scan}
    (acted : before.act me oid op scan = some after) :
    ∃ statement, before.statement.step me oid op = some statement ∧ after =
      { statement := statement, scan := scan } := by
  obtain ⟨statement, stepped, rfl⟩ := Option.map_eq_some_iff.mp acted
  exact ⟨statement, stepped, rfl⟩

theorem own_txn_stepped {op : TxnOp} (own : op.actor = some me)
    (stepped : store.step me oid (.txn op) = some next) :
    store.phase.pulls = true ∧ reading op = true ∧ ∃ history, store.history.step op = some history ∧
      next = { store with history := history } := by
  simp only [Store.step, Store.mayTake, own, ne_eq, not_true_eq_false, decide_false, Bool.false_or,
    Bool.and_eq_true, Option.ite_none_right_eq_some] at stepped
  obtain ⟨⟨pulls, reads⟩, acted⟩ := stepped
  obtain ⟨history, ran, rfl⟩ := act_stepped acted
  exact ⟨pulls, reads, history, ran, rfl⟩

theorem child_threw (stepped : store.step me oid .childThrows = some next) :
    store.phase.pulls = true ∧ next = { store with phase := .threw .child } := by
  simp only [Store.step, Option.ite_none_right_eq_some] at stepped
  exact ⟨stepped.1, (Option.some.inj stepped.2).symm⟩

theorem scanned_cases (step : before.step query me oid label = some after) :
    ScannedStepped query me oid before label after := by
  cases label with
  | statement op =>
      simp only [ScannedStore.step, Option.ite_none_left_eq_some, Bool.not_eq_true] at step
      obtain ⟨statement, stepped, rfl⟩ := scanned_act step.2
      exact ScannedStepped.loop op statement step.1 (step_cases stepped)
  | openScan rids =>
      simp only [ScannedStore.step, Option.ite_none_right_eq_some, Option.isNone_iff_eq_none]
        at step
      obtain ⟨⟨first, covered⟩, acted⟩ := step
      obtain ⟨statement, stepped, rfl⟩ := scanned_act acted
      obtain ⟨pulls, _, history, ran, rfl⟩ := own_txn_stepped rfl stepped
      exact ScannedStepped.opened rids history first covered pulls ran
  | read =>
      simp only [ScannedStore.step] at step
      split at step
      · simp only [Option.ite_none_right_eq_some] at step
        obtain ⟨statement, stepped, rfl⟩ := scanned_act step.2
        obtain ⟨pulls, reads, history, ran, rfl⟩ := own_txn_stepped rfl stepped
        exact ScannedStepped.read _ _ history reads (Or.inl rfl) pulls ran
      · cases step
  | fetch =>
      simp only [ScannedStore.step, Option.ite_none_right_eq_some] at step
      obtain ⟨statement, stepped, rfl⟩ := scanned_act step.2
      obtain ⟨pulls, reads, history, ran, rfl⟩ := own_txn_stepped rfl stepped
      exact ScannedStepped.read _ _ history reads (Or.inr rfl) pulls ran
  | take =>
      simp only [ScannedStore.step, ScannedStore.take] at step
      split at step
      · rename_i rid rids batch place visible scans returned
        simp only [Option.ite_none_right_eq_some] at step
        obtain ⟨⟨rfl, pulls⟩, step⟩ := step
        split at step
        · obtain rfl := Option.some.inj step
          exact ScannedStepped.passed place rids batch none scans pulls returned (by simp)
        · rename_i tuple
          split at step
          · rename_i throws
            obtain ⟨statement, stepped, rfl⟩ := scanned_act step
            obtain ⟨_, rfl⟩ := child_threw stepped
            exact ScannedStepped.filterThrew place rids batch tuple scans pulls returned throws
          · rename_i accepted decided
            obtain rfl := Option.some.inj step
            cases accepted with
            | true => exact ScannedStepped.took place rids batch tuple scans pulls returned decided
            | false =>
                exact ScannedStepped.passed place rids batch (some tuple) scans pulls returned
                  (by simp [decided])
      · cases step
  | deliver =>
      simp only [ScannedStore.step, ScannedStore.deliver] at step
      split at step
      · cases step
      · rename_i rids batch scans
        simp only [Option.ite_none_left_eq_some, not_and_or, not_lt, not_not] at step
        obtain ⟨full, step⟩ := step
        split at step
        · rename_i empty
          obtain ⟨statement, stepped, rfl⟩ := scanned_act step
          subst empty
          obtain rfl : rids = [] := full.resolve_left (by simp [BUSTUB_BATCH_SIZE])
          exact ScannedStepped.exhausted statement scans (step_cases stepped)
        · split at step
          · rename_i throws
            obtain ⟨statement, stepped, rfl⟩ := scanned_act step
            obtain ⟨pulls, rfl⟩ := child_threw stepped
            exact ScannedStepped.projectionThrew rids batch scans pulls throws
          · rename_i rows projected
            obtain ⟨statement, stepped, rfl⟩ := scanned_act step
            exact ScannedStepped.delivered rids batch rows statement scans projected
              (step_cases stepped)

theorem scanned_standing (standing : Standing me readTs before.statement.history)
    (stepped : ScannedStepped query me oid before label after) :
    Standing me readTs after.statement.history := by
  cases stepped with
  | loop op statement mine stepped => exact standing_step standing stepped
  | opened rids history first covered pulls stepped => exact standing_acts standing stepped id
  | read _ op history reads child pulls stepped =>
      exact standing_acts standing stepped fun own => (reading_within reads).trans own
  | exhausted statement scans stepped => exact standing_step standing stepped
  | delivered rids batch rows statement scans projected stepped =>
      exact standing_step standing stepped
  | passed | took | filterThrew | projectionThrew => exact standing

theorem batch_stepped_cases {rows : List (RID × Tuple)}
    (stepped : Stepped me oid store (.childBatch rows) next) :
    (∃ phase, Goes store.indexes store.phase (.childBatch rows) phase ∧
      next = { store with phase := phase }) ∨ ∃ targetExpressions updates, store.phase =
        .pulling (.update targetExpressions) updates ∧ evaluateTargets targetExpressions rows =
          none ∧ next = { store with phase := .threw .evaluation } := by
  cases stepped with
  | goes _ phase going ready => exact Or.inl ⟨phase, going, rfl⟩
  | evaluationThrew _ targetExpressions updates stands throws =>
      exact Or.inr ⟨targetExpressions, updates, stands, throws, rfl⟩
  | conflict _ kind stage rest history stands noCall throws stepped =>
      rcases throws with same | same <;> cases same

theorem end_stepped_cases (stepped : Stepped me oid store .childEnd next) :
    ∃ phase, Goes store.indexes store.phase .childEnd phase ∧
      next = { store with phase := phase } := by
  cases stepped with
  | goes _ phase going ready => exact ⟨phase, going, rfl⟩
  | conflict _ kind stage rest history stands noCall throws stepped =>
      rcases throws with same | same <;> cases same

theorem scanned_ended_stays (stepped : ScannedStepped query me oid before label after)
    (ended : before.statement.phase.ended = true) :
    after.statement.phase = before.statement.phase := by
  have done (pulls : before.statement.phase.pulls = true) : False := by
    generalize before.statement.phase = phase at ended pulls
    cases phase with
    | notStarted | pulling | writing => cases ended
    | finished | threw => cases pulls
  cases stepped with
  | loop op statement mine stepped => exact ended_stays stepped ended
  | exhausted statement scans stepped => exact ended_stays stepped ended
  | delivered rids batch rows statement scans projected stepped => exact ended_stays stepped ended
  | opened rids history first covered pulls stepped => exact (done pulls).elim
  | read _ op history reads child pulls stepped => exact (done pulls).elim
  | passed rid rids batch visible scans pulls returned refused => exact (done pulls).elim
  | took rid rids batch tuple scans pulls returned accepted => exact (done pulls).elim
  | filterThrew rid rids batch tuple scans pulls returned throws => exact (done pulls).elim
  | projectionThrew rids batch scans pulls throws => exact (done pulls).elim

theorem covers_view {rids : List RID} {history : History} (standing : Standing me readTs history)
    (covered : covers query me oid history rids = true) :
    rids.Nodup ∧ (∀ rid ∈ rids, inTable history oid rid = true) ∧
      ∀ rid tuple, tableView me readTs oid history rid = some tuple → query.accepts tuple = true →
      rid ∈ rids := by
  obtain ⟨txn, live, rfl⟩ := standing.live
  simp only [covers, live.1, Option.any_some, Bool.and_eq_true, decide_eq_true_eq, List.all_eq_true,
    Bool.or_eq_true, Bool.not_eq_true', Option.any_eq_false] at covered
  obtain ⟨⟨unique, ours⟩, whole⟩ := covered
  refine ⟨unique, ours, fun rid tuple sees accepted => ?_⟩
  obtain ⟨slot, found, _⟩ := in_table_iff.mp (view_some sees).1
  rcases whole rid (AList.lookup_isSome.mp (by rw [found]; rfl)) with listed | refused
  · exact listed
  · have not := refused tuple sees
    simp [accepted] at not

end ScannedSteps

/-! ### The indexes of the table -/

def Phase.pointsAt : Phase → Option RID
  | .writing _ (.reviving rid _) _ => some rid
  | .writing _ (.entering rid _ _) _ => some rid
  | _ => none

def EntriesOurs (oid : TableOid) (history : History) (indexes : List IndexInfo) : Prop :=
  ∀ info ∈ indexes, ∀ key rid, info.index.lookup key = some rid → inTable history oid rid = true

structure Pointed (oid : TableOid) (store : Store) : Prop where
  entries : EntriesOurs oid store.history store.indexes
  stage : ∀ rid, store.phase.pointsAt = some rid → inTable store.history oid rid = true

inductive IdleOp where
  | txn (op : TxnOp)
  | createIndex (keyAttrs : List Nat) (isPrimaryKey : Bool)
  | insertEntry (number : Nat) (key : Tuple) (rid : RID)

namespace Store

def create (catalog : TableOid → Schema) : Store where
  history := History.start catalog
  indexes := []
  phase := .notStarted

def idleStep (oid : TableOid) (store : Store) : IdleOp → Option Store
  | .txn op => store.act op store.phase
  | .createIndex keyAttrs isPrimaryKey =>
      some { store with
        indexes :=
          store.indexes ++ [{ keyAttrs := keyAttrs, isPrimaryKey := isPrimaryKey, index := ∅ }] }
  | .insertEntry number key rid =>
      (store.indexes[number]?).bind fun info =>
        if (info.index.lookup key).isSome ∨ ¬ inTable store.history oid rid then none
        else some { store with indexes := store.indexes.set number (info.insertEntry key rid) }

end Store

def TableReached (catalog : TableOid → Schema) (oid : TableOid) : Store → Prop :=
  TransitionSystem.Reachable (· = Store.create catalog) (graph (Store.idleStep oid))

section Indexes
variable {me : TxnId} {oid : TableOid} {history next : History} {indexes : List IndexInfo}
  {before after : Store} {label : DmlOp} {catalog : TableOid → Schema} {query : Query}

theorem entries_kept (inv : Inv history) {op : TxnOp} (stepped : history.step op = some next)
    (entries : EntriesOurs oid history indexes) : EntriesOurs oid next indexes :=
  fun info member key rid found => ours_step inv stepped (entries info member key rid found)

theorem entries_set {number : Nat} {info : IndexInfo} {key : Tuple} {rid : RID}
    (entries : EntriesOurs oid history indexes) (listed : indexes[number]? = some info)
    (ours : inTable history oid rid = true) :
    EntriesOurs oid history (indexes.set number (info.insertEntry key rid)) := by
  intro other member place found there
  rcases List.mem_or_eq_of_mem_set member with old | rfl
  · exact entries other old place found there
  · by_cases same : place = key
    · subst same
      have here : rid = found := Option.some.inj ((AList.lookup_insert info.index).symm.trans there)
      exact here ▸ ours
    · exact entries info (List.mem_of_getElem? listed) place found
        ((AList.lookup_insert_ne same).symm.trans there)

theorem pointed_step (inv : Inv before.history) (stepped : Stepped me oid before label after)
    (pointed : Pointed oid before) : Pointed oid after := by
  have acts {op : TxnOp} {history : History} {phase : Phase}
    (stepped : before.history.step op = some history)
    (stage : ∀ rid, phase.pointsAt = some rid → inTable history oid rid = true) :
    Pointed oid { before with history := history, phase := phase } :=
    ⟨entries_kept inv stepped pointed.entries, stage⟩
  cases stepped with
  | other op history elsewhere stepped =>
      exact acts stepped fun rid points => ours_step inv stepped (pointed.stage rid points)
  | read op history pulls reads own stepped =>
      exact acts stepped fun rid points => ours_step inv stepped (pointed.stage rid points)
  | enter number key rid info listed free ours =>
      exact ⟨entries_set pointed.entries listed ours, pointed.stage⟩
  | goes _ phase going ready =>
      refine ⟨pointed.entries, fun rid points => ?_⟩
      cases before with
      | mk history indexes phase' =>
          cases going with
          | found kind tuple number rest info place listed scanned =>
              obtain rfl := Option.some.inj points
              exact pointed.entries info (List.mem_of_getElem? listed) _ _ scanned
          | rowsDone kind =>
              cases kind with
              | insert | update targetExpressions | delete => cases points
          | _ => cases points
  | modified rid target requireDeleted next result mgr history calls returned stepped =>
      obtain ⟨kind, rest, rfl⟩ := call_next calls
      exact acts stepped fun rid points => by cases result <;> cases points
  | placed rid kind tuple rest history stands stepped =>
      refine acts stepped fun place points => ?_
      obtain rfl := Option.some.inj points
      exact (placed_slot stepped).2
  | entered kind rid tuple number rest info stands listed free =>
      have ours : inTable before.history oid rid = true := pointed.stage rid (by rw [stands]; rfl)
      refine ⟨entries_set pointed.entries listed ours, fun place points => ?_⟩
      obtain rfl := Option.some.inj points
      exact ours
  | conflict _ kind stage rest history stands noCall throws stepped =>
      exact acts stepped fun rid points => by cases points
  | childThrew | evaluationThrew | comparisonThrew =>
      exact ⟨pointed.entries, fun rid points => by cases points⟩

/-- A step of the child or of the statement is a step of the transaction manager or leaves its
history. -/
theorem scanned_history {before after : ScannedStore} {label : ScannedOp}
    (stepped : ScannedStepped query me oid before label after) :
    after.statement.history = before.statement.history ∨
      ∃ op, before.statement.history.step op = some after.statement.history := by
  have inner {store next : Store} {op : DmlOp} (stepped : Stepped me oid store op next) :
      next.history = store.history ∨ ∃ op, store.history.step op = some next.history := by
    cases stepped with
    | other op history elsewhere stepped => exact Or.inr ⟨_, stepped⟩
    | read op history pulls reads own stepped => exact Or.inr ⟨_, stepped⟩
    | modified rid target requireDeleted next result mgr history calls returned stepped =>
        exact Or.inr ⟨_, stepped⟩
    | placed rid kind tuple rest history stands stepped => exact Or.inr ⟨_, stepped⟩
    | conflict _ kind stage rest history stands noCall throws stepped => exact Or.inr ⟨_, stepped⟩
    | enter | goes | childThrew | evaluationThrew | comparisonThrew | entered => exact Or.inl rfl
  cases stepped with
  | loop op statement mine stepped => exact inner stepped
  | exhausted statement scans stepped => exact inner stepped
  | delivered rids batch rows statement scans projected stepped => exact inner stepped
  | opened rids history first covered pulls stepped => exact Or.inr ⟨_, stepped⟩
  | read _ op history reads child pulls stepped => exact Or.inr ⟨_, stepped⟩
  | passed | took | filterThrew | projectionThrew => exact Or.inl rfl

theorem scanned_catalog {before after : ScannedStore} {label : ScannedOp}
    (inv : Inv before.statement.history)
    (stepped : ScannedStepped query me oid before label after) :
    after.statement.history.mgr.catalog = before.statement.history.mgr.catalog := by
  rcases scanned_history stepped with same | ⟨op, moved⟩
  · rw [same]
  · exact catalog_step inv moved

theorem scanned_pointed {before after : ScannedStore} {label : ScannedOp}
    (inv : Inv before.statement.history) (stepped : ScannedStepped query me oid before label after)
    (pointed : Pointed oid before.statement) : Pointed oid after.statement := by
  have silent {op : TxnOp} {history : History} (stepped : before.statement.history.step op =
      some history) :
      Pointed oid { before.statement with history := history } :=
    ⟨entries_kept inv stepped pointed.entries, fun rid points =>
      ours_step inv stepped (pointed.stage rid points)⟩
  cases stepped with
  | loop op statement mine stepped => exact pointed_step inv stepped pointed
  | exhausted statement scans stepped => exact pointed_step inv stepped pointed
  | delivered rids batch rows statement scans projected stepped =>
      exact pointed_step inv stepped pointed
  | opened rids history first covered pulls stepped => exact silent stepped
  | read _ op history reads child pulls stepped => exact silent stepped
  | passed | took => exact pointed
  | filterThrew | projectionThrew => exact ⟨pointed.entries, fun rid points => by cases points⟩

theorem table_reached_inv (reached : TableReached catalog oid before) :
    Reached catalog before.history ∧ EntriesOurs oid before.history before.indexes := by
  refine TransitionSystem.reachable_preserves
    (fun store => Reached catalog store.history ∧
      EntriesOurs oid store.history store.indexes) ?_ ?_ reached
  · rintro _ rfl
    exact ⟨TransitionSystem.reachable_start rfl, fun info member => by cases member⟩
  · rintro store label after ⟨reached, entries⟩ stepped
    cases label with
    | txn op =>
        obtain ⟨history, ran, rfl⟩ := act_stepped stepped
        exact ⟨TransitionSystem.reachable_step reached ran,
          entries_kept (reached_inv reached) ran entries⟩
    | createIndex keyAttrs isPrimaryKey =>
        obtain rfl := Option.some.inj stepped
        refine ⟨reached, fun info member key rid found => ?_⟩
        rcases List.mem_append.mp member with old | new
        · exact entries info old key rid found
        · obtain rfl := List.mem_singleton.mp new
          cases found
    | insertEntry number key rid =>
        obtain ⟨info, listed, stepped⟩ := Option.bind_eq_some_iff.mp stepped
        simp only [Option.ite_none_left_eq_some, not_or, not_not] at stepped
        obtain ⟨⟨_, ours⟩, same⟩ := stepped
        obtain rfl := Option.some.inj same
        exact ⟨reached, entries_set entries listed ours⟩

end Indexes

end BusTub.Dml
