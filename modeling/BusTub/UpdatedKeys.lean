import BusTub.SetUpdates

/-!
An UPDATE of a table with a primary key. Every row that the transaction sees has
its key in the index, at its RID, but for the one that is being entered. So an
UPDATE that comes to its end has left no two rows of one key.
-/

namespace BusTub.Dml

open Function (update)
open TransitionSystem
open Listing

structure KeysStand (keyAttrs : List Nat) (entries : UnorderedMap Tuple RID)
    (view : RID → Option Tuple) (phase : Phase) : Prop where
  complete : ∀ rid tuple, view rid = some tuple →
    entries.lookup (keyFromTuple keyAttrs tuple) = some rid ∨
      ∃ kind rest, phase = .writing kind (.entering rid tuple 0) rest
  revived : ∀ kind rid tuple rest, phase = .writing kind (.reviving rid tuple) rest →
    entries.lookup (keyFromTuple keyAttrs tuple) = some rid
  modified : ∀ kind stage rest rid tuple, phase = .writing kind stage rest →
    RowWrite.modify rid (some tuple) ∈ rest → ∃ row, view rid = some row ∧
      keyFromTuple keyAttrs row = keyFromTuple keyAttrs tuple

section Keys
variable {keyAttrs : List Nat} {entries : UnorderedMap Tuple RID} {view : RID → Option Tuple}
  {phase phase' : Phase} {me : TxnId} {oid : TableOid} {readTs : Timestamp} {history next : History}
  {label : DmlOp} {rid : RID} {statement : UpdateStatement} {start : List (RID × Tuple)}
  {tuple : Tuple} {scan : Option Scan} {target : Option Tuple} {requireDeleted : Bool}
  {kind : StatementKind} {rest : List RowWrite}

def keyIndex (keyAttrs : List Nat) (entries : UnorderedMap Tuple RID) : IndexInfo where
  keyAttrs := keyAttrs
  isPrimaryKey := true
  index := entries

theorem settled_keys (keys : KeysStand keyAttrs entries view phase)
    (settled : ∀ kind rid tuple rest, phase ≠ .writing kind (.entering rid tuple 0) rest)
    (sees : view rid = some tuple) : entries.lookup (keyFromTuple keyAttrs tuple) = some rid := by
  rcases keys.complete rid tuple sees with known | ⟨kind, rest, entering⟩
  · exact known
  · exact absurd entering (settled kind rid tuple rest)

theorem keys_entered (keys : KeysStand keyAttrs entries view phase) {key : Tuple}
    (free : entries.lookup key = none) :
    KeysStand keyAttrs (entries.insert key rid) view phase := by
  have kept {other : Tuple} {place : RID} (known : entries.lookup other = some place) :
      (entries.insert key rid).lookup other = some place := by
    rw [AList.lookup_insert_ne]
    · exact known
    · rintro rfl
      cases free.symm.trans known
  exact ⟨fun place tuple sees => (keys.complete place tuple sees).imp_left kept,
    fun kind place tuple rest here => kept (keys.revived kind place tuple rest here), keys.modified⟩

/-- The loops leave the keys; a RID that `ScanKey` finds is that of the key. -/
theorem keys_goes (goes : Goes [keyIndex keyAttrs entries] phase label phase')
    (mine : ofChild me label = false)
    (keys : KeysStand keyAttrs entries view phase) : KeysStand keyAttrs entries view phase' := by
  have settled (kind : StatementKind) (rid : RID) (tuple : Tuple) (rest : List RowWrite) :
      phase ≠ .writing kind (.entering rid tuple 0) rest := by
    rintro rfl
    cases goes with
    | enteredAll _ _ _ _ _ last => cases last
  have complete (rid : RID) (tuple : Tuple) (sees : view rid = some tuple) :
      entries.lookup (keyFromTuple keyAttrs tuple) = some rid ∨
        ∃ kind rest, phase' = .writing kind (.entering rid tuple 0) rest :=
    Or.inl (settled_keys keys settled sees)
  refine ⟨complete, ?_, ?_⟩
  · intro kind rid tuple rest here
    cases goes with
    | found _ _ number _ info _ listed scanned =>
        cases here
        cases number with
        | zero =>
            cases listed
            exact scanned
        | succ number => cases listed
    | rowsDone kind =>
        cases kind with
        | insert | update targetExpressions | delete => cases here
    | _ => cases here
  · intro kind stage rest rid tuple here member
    cases goes with
    | insertRow =>
        cases here
        exact keys.modified _ _ _ rid _ rfl (List.mem_cons_of_mem _ member)
    | notFound | found | seekOn | enteredAll =>
        cases here
        exact keys.modified _ _ _ rid _ rfl member
    | insertBatch | deleteBatch | gathered => cases mine
    | rowsDone kind =>
        cases kind with
        | insert | update targetExpressions | delete => cases here
    | _ => cases here

/-- A row changed in place keeps its key, one deleted has none, and one revived has the key of the
entry. -/
theorem keys_modified (calls : phase.call = some ((rid, target, requireDeleted), phase'))
    (apart : ∀ kind rest, phase' = .writing kind .next rest →
      ∀ tuple, RowWrite.modify rid (some tuple) ∉ rest)
    (keys : KeysStand keyAttrs entries view phase) :
    KeysStand keyAttrs entries (update view rid target) phase' := by
  have settled (kind : StatementKind) (rid : RID) (tuple : Tuple) (rest : List RowWrite) :
      phase ≠ .writing kind (.entering rid tuple 0) rest := by
    rintro rfl
    cases calls
  have known (tuple : Tuple) (written : target = some tuple) :
      entries.lookup (keyFromTuple keyAttrs tuple) = some rid := by
    subst written
    unfold Phase.call at calls
    split at calls
    · rename_i kind place written rest
      cases calls
      obtain ⟨row, sees, same⟩ := keys.modified _ _ _ rid tuple rfl List.mem_cons_self
      rw [← same]
      exact settled_keys keys settled sees
    · cases calls
      exact keys.revived _ _ _ _ rfl
    · cases calls
  have complete (place : RID) (tuple : Tuple) (sees : update view rid target place = some tuple) :
      entries.lookup (keyFromTuple keyAttrs tuple) = some place := by
    by_cases same : place = rid
    · subst same
      rw [Function.update_self] at sees
      exact known tuple sees
    · rw [Function.update_of_ne same] at sees
      exact settled_keys keys settled sees
  refine ⟨fun place tuple sees => Or.inl (complete place tuple sees), ?_, ?_⟩
  · intro kind place tuple rest here
    obtain ⟨_, _, rfl⟩ := call_next calls
    cases here
  · intro kind stage rest place tuple here member
    have different : place ≠ rid := by
      rintro rfl
      obtain ⟨_, _, rfl⟩ := call_next calls
      cases here
      exact apart _ _ rfl tuple member
    rw [Function.update_of_ne different]
    unfold Phase.call at calls
    split at calls
    · cases calls
      cases here
      exact keys.modified _ _ _ place tuple rfl (List.mem_cons_of_mem _ member)
    · cases calls
      cases here
      exact keys.modified _ _ _ place tuple rfl member
    · cases calls

theorem update_apart (calls : phase.call = some ((rid, target, requireDeleted), phase'))
    (inv : UpdateInv statement me oid start scan history view phase) (kind : StatementKind)
    (rest : List RowWrite) (here : phase' = .writing kind .next rest) (tuple : Tuple) :
    RowWrite.modify rid (some tuple) ∉ rest := by
  have listed {modifies : List (RID × Option Tuple)} {inserts : List Tuple}
    (member : RowWrite.modify rid (some tuple) ∈ owedWrites modifies inserts) : rid ∈
      modifies.map Prod.fst := by
    rcases List.mem_append.mp member with inside | inside
    · obtain ⟨write, listed, same⟩ := List.mem_map.mp inside
      rw [← (RowWrite.modify.inj same).1]
      exact List.mem_map_of_mem listed
    · obtain ⟨_, _, same⟩ := List.mem_map.mp inside
      cases same
  intro member
  unfold Phase.call at calls
  split at calls
  · cases calls
    cases here
    cases inv with
    | writing _ _ modifies inserts rows expected owed unique ours lists replaced amounts =>
        obtain ⟨more, rfl, rfl⟩ := owed_modify owed.symm
        exact (List.nodup_cons.mp unique).1 (listed member)
  · cases calls
    cases here
    cases inv with
    | writing _ _ modifies inserts rows expected owed unique ours lists replaced amounts =>
        obtain ⟨more, rfl, rfl, rfl⟩ := owed_insert owed.symm
        cases listed member
  · cases calls

theorem keys_placed (free : view rid = none)
    (keys : KeysStand keyAttrs entries view (.writing kind (.placing tuple) rest)) :
    KeysStand keyAttrs entries (update view rid (some tuple))
      (.writing kind (.entering rid tuple 0) rest) := by
  have kept {place : RID} {row : Tuple} (sees : view place = some row) :
      update view rid (some tuple) place = some row := by
    rw [Function.update_of_ne]
    · exact sees
    · rintro rfl
      cases free.symm.trans sees
  refine ⟨fun place row sees => ?_, ?_, ?_⟩
  · by_cases same : place = rid
    · subst same
      rw [Function.update_self] at sees
      obtain rfl := Option.some.inj sees
      exact Or.inr ⟨kind, rest, rfl⟩
    · rw [Function.update_of_ne same] at sees
      exact Or.inl (settled_keys keys (fun _ _ _ _ impossible => by cases impossible) sees)
  · intro kind place row rest here
    cases here
  · intro kind' stage rest' place row here member
    cases here
    obtain ⟨old, sees, same⟩ := keys.modified _ _ _ place row rfl member
    exact ⟨old, kept sees, same⟩

theorem keys_entered_own (free : entries.lookup (keyFromTuple keyAttrs tuple) = none)
    (keys : KeysStand keyAttrs entries view (.writing kind (.entering rid tuple 0) rest)) :
    KeysStand keyAttrs (entries.insert (keyFromTuple keyAttrs tuple) rid) view
      (.writing kind (.entering rid tuple 1) rest) := by
  have later : KeysStand keyAttrs (entries.insert (keyFromTuple keyAttrs tuple) rid) view _ :=
    keys_entered keys free
  refine ⟨fun place row sees => ?_, fun kind place row rest here => (by cases here), ?_⟩
  · rcases later.complete place row sees with known | ⟨_, _, here⟩
    · exact Or.inl known
    · cases here
      exact Or.inl (AList.lookup_insert entries)
  · intro kind' stage rest' place row here member
    cases here
    exact later.modified _ _ _ place row rfl member

/-- A row of the first loop that is not deleted keeps its key: it is not in `moved`. -/
theorem unmoved_key {updates : List RowUpdate}
    (member : RowWrite.modify rid (some tuple) ∈ updateWrites [keyIndex keyAttrs entries] updates) :
    ∃ change ∈ updates, change.rid = rid ∧ change.target = tuple ∧
      keyFromTuple keyAttrs change.childTuple = keyFromTuple keyAttrs tuple := by
  rcases List.mem_append.mp member with inside | inside
  · obtain ⟨change, listed, same⟩ := List.mem_map.mp inside
    obtain ⟨rfl, written⟩ := RowWrite.modify.inj same
    split at written
    · cases written
    · rename_i stays
      obtain rfl := Option.some.inj written
      refine ⟨change, listed, rfl, rfl, ?_⟩
      by_contra different
      have changes : changesKey [keyIndex keyAttrs entries] change = true := by
        rw [changesKey, List.any_cons, Bool.or_eq_true]
        refine Or.inl ?_
        simp only [keyIndex, IndexInfo.key, Bool.true_and, ne_eq]
        exact decide_eq_true different
      exact stays (List.any_eq_true.mpr ⟨change, listed, by simp [changes]⟩)
  · obtain ⟨_, _, same⟩ := List.mem_map.mp inside
    cases same

theorem keys_exhausted (goes : Goes [keyIndex keyAttrs entries] phase .childEnd phase')
    (inv : UpdateInv statement me oid start (some ⟨[], []⟩) history view phase)
    (keys : KeysStand keyAttrs entries view phase) : KeysStand keyAttrs entries view phase' := by
  cases goes with
  | ended kind updates pulling =>
      refine ⟨fun rid tuple sees => ?_, fun kind rid tuple rest here => (by cases here),
        fun kind stage rest rid tuple here => by cases here⟩
      exact Or.inl (settled_keys keys (fun _ _ _ _ impossible => by cases impossible) sees)
  | gathered targetExpressions updates =>
      refine ⟨fun rid tuple sees => ?_, fun kind rid tuple rest here => (by cases here), ?_⟩
      · exact Or.inl (settled_keys keys (fun _ _ _ _ impossible => by cases impossible) sees)
      · intro kind stage rest rid tuple here member
        cases here
        obtain ⟨change, listed, rfl, rfl, same⟩ := unmoved_key member
        cases inv with
        | opening closed lists => cases closed
        | scanning passed _ _ _ scans lists unique ours covers rows targets =>
            cases scans
            have inside : (change.rid, change.childTuple) ∈ passed.filterMap
              (selectRow view statement.query.accepts) := by
              rw [← rows]
              exact List.mem_append_left _ (List.mem_map_of_mem listed)
            obtain ⟨place, _, found⟩ := List.mem_filterMap.mp inside
            obtain ⟨rfl, sees, _⟩ := select_row_iff.mp found
            exact ⟨change.childTuple, sees, same⟩

theorem keys_delivered {rows : List (RID × Tuple)} {indexes : List IndexInfo}
    (goes : Goes indexes phase (.childBatch rows) phase')
    (inv : UpdateInv statement me oid start scan history view phase)
    (keys : KeysStand keyAttrs entries view phase) :
    KeysStand keyAttrs entries view phase' := by
  cases goes with
  | insertBatch | deleteBatch => cases inv
  | targets targetExpressions updates more _ evaluated =>
      refine ⟨fun rid tuple sees => ?_, fun kind rid tuple rest here => (by cases here),
        fun kind stage rest rid tuple here => by cases here⟩
      exact Or.inl (settled_keys keys (fun _ _ _ _ impossible => by cases impossible) sees)

def KeysHold (keyAttrs : List Nat) (me : TxnId) (readTs : Timestamp) (oid : TableOid)
    (store : Store) : Prop :=
  (∃ cause, store.phase = .threw cause) ∨ ∃ entries, store.indexes = [keyIndex keyAttrs entries] ∧
    KeysStand keyAttrs entries (tableView me readTs oid store.history) store.phase

theorem keys_loop {store after : Store} (standing : Standing me readTs store.history)
    (pointed : Pointed oid store) (mine : ofChild me label = false)
    (inv : UpdateInv statement me oid start scan store.history
      (tableView me readTs oid store.history) store.phase)
    (stepped : Stepped me oid store label after) (keys : KeysHold keyAttrs me readTs oid store) :
    KeysHold keyAttrs me readTs oid after := by
  rcases keys with ⟨cause, threw⟩ | ⟨entries, only, keys⟩
  · exact Or.inl ⟨cause, (ended_stays stepped (by rw [threw]; rfl)).trans threw⟩
  cases stepped with
  | other op history elsewhere stepped =>
      refine Or.inr ⟨entries, only, ?_⟩
      rw [view_other standing stepped elsewhere]
      exact keys
  | read op history pulls reads own stepped => simp [ofChild, own] at mine
  | enter number key rid info listed free ours =>
      rw [only] at listed
      cases number with
      | zero =>
          cases listed
          exact Or.inr ⟨entries.insert key rid, by simp [only, IndexInfo.insertEntry, keyIndex],
            keys_entered keys free⟩
      | succ number => cases listed
  | goes _ phase going ready =>
      rw [only] at going
      exact Or.inr ⟨entries, only, keys_goes going mine keys⟩
  | childThrew pulls => exact Or.inl ⟨_, rfl⟩
  | evaluationThrew | comparisonThrew => exact Or.inl ⟨_, rfl⟩
  | modified rid target requireDeleted next result mgr history calls returned stepped =>
      cases result with
      | writeConflict => exact Or.inl ⟨_, rfl⟩
      | sizeMismatch => exact Or.inl ⟨_, rfl⟩
      | done =>
          refine Or.inr ⟨entries, only, ?_⟩
          rw [view_modified standing (update_calls_ours calls pointed.stage inv) returned stepped,
            if_pos rfl]
          exact keys_modified calls (update_apart calls inv) keys
  | placed rid kind tuple rest history stands stepped =>
      rw [stands] at keys
      have free : tableView me readTs oid store.history rid = none := by
        rw [tableView, if_neg (by simp [(placed_slot stepped).1])]
      refine Or.inr ⟨entries, only, ?_⟩
      rw [placed_view standing.inv stepped]
      exact keys_placed free keys
  | entered kind rid tuple number rest info stands listed free =>
      rw [only] at listed
      rw [stands] at keys
      cases number with
      | zero =>
          cases listed
          exact Or.inr
            ⟨_, by simp [only, IndexInfo.insertEntry, IndexInfo.key,
            keyIndex], keys_entered_own free keys⟩
      | succ number => cases listed
  | conflict _ kind stage rest history stands noCall throws stepped => exact Or.inl ⟨_, rfl⟩

theorem keys_step {before after : ScannedStore} {label : ScannedOp}
    (standing : Standing me readTs before.statement.history)
    (pointed : Pointed oid before.statement)
    (stands : UpdateStands statement me readTs oid start before)
    (stepped : ScannedStepped statement.query me oid before label after)
    (keys : KeysHold keyAttrs me readTs oid before.statement) :
    KeysHold keyAttrs me readTs oid after.statement := by
  have silent {history : History}
    (same : tableView me readTs oid history = tableView me readTs oid before.statement.history) :
      KeysHold keyAttrs me readTs oid { before.statement with history := history } := by
    rcases keys with threw | ⟨entries, only, keys⟩
    · exact Or.inl threw
    · exact Or.inr ⟨entries, only, by rw [same]; exact keys⟩
  cases stepped with
  | loop op store mine stepped => exact keys_loop standing pointed mine stands stepped keys
  | opened rids history first covered pulls stepped =>
      exact silent (view_ledger standing.inv stepped (reading_ledger rfl stepped))
  | read _ op history reads child pulls stepped =>
      exact silent (view_ledger standing.inv stepped (reading_ledger reads stepped))
  | passed rid rids batch visible scans pulls returned refused => exact keys
  | took rid rids batch tuple scans pulls returned accepted => exact keys
  | filterThrew | projectionThrew => exact Or.inl ⟨_, rfl⟩
  | exhausted store scans stepped =>
      obtain ⟨phase, goes, rfl⟩ := end_stepped_cases stepped
      rcases keys with ⟨cause, threw⟩ | ⟨entries, only, keys⟩
      · rw [threw] at goes
        cases goes
      · rw [only] at goes
        unfold UpdateStands at stands
        rw [scans] at stands
        exact Or.inr ⟨entries, only, keys_exhausted goes stands keys⟩
  | delivered rids batch rows store scans projected stepped =>
      rcases batch_stepped_cases stepped with ⟨phase, goes, rfl⟩ |
        ⟨targetExpressions, updates, here, throws, rfl⟩
      · rcases keys with ⟨cause, threw⟩ | ⟨entries, only, keys⟩
        · rw [threw] at goes
          cases goes
        · exact Or.inr ⟨entries, only, keys_delivered goes stands keys⟩
      · exact Or.inl ⟨_, rfl⟩

end Keys

/-! ### Every UPDATE -/

def KeyedStore.stepOrCollect (table : TableInfo) (store : KeyedStore) :
    Option KeyedOp → Option KeyedStore
  | some label => store.step table label
  | none =>
      (store.history.step .garbageCollection).map fun history => { store with history := history }

/-- The states in which an UPDATE of the transaction can begin, on a table that
has no index, or a primary key and no other one. -/
inductive UpdatableTable (catalog : TableOid → Schema) (oid : TableOid) (me : TxnId) :
    Store → Prop where
  | unindexed (history : History) (reached : Reached catalog history) :
      UpdatableTable catalog oid me { history := history, indexes := [], phase := .notStarted }
  | keyed (keyAttrs : List Nat) (store : KeyedStore)
      (reached : Reachable (· = KeyedStore.start catalog)
        (graph (KeyedStore.stepOrCollect { oid := oid, keyAttrs := keyAttrs })) store)
      (between : store.statement me = .none) :
      UpdatableTable catalog oid me
        { history := store.history
          indexes := [keyIndex keyAttrs store.index]
          phase := .notStarted }

section Updates
variable {catalog : TableOid → Schema} {table : TableInfo} {oid : TableOid} {me : TxnId}
  {history : History} {readTs : Timestamp} {txn : Transaction} {store : Store}
  {after : ScannedStore} {labels : List ScannedOp} {statement : UpdateStatement}
  {rows : List (RID × Tuple)} {start : List (RID × Tuple)} {before : ScannedStore}

theorem reached_catalog (reached : Reached catalog history) : history.mgr.catalog = catalog := by
  have both : Inv history ∧ history.mgr.catalog = catalog := by
    refine reachable_preserves (fun history => Inv history ∧
      history.mgr.catalog = catalog) ?_ ?_ reached
    · rintro _ rfl
      exact ⟨start_inv catalog, rfl⟩
    · rintro before op next ⟨inv, same⟩ stepped
      exact ⟨step_inv inv stepped, (catalog_step inv stepped).trans same⟩
  exact both.2

theorem keyed_reached {keyed : KeyedStore} (reached : Reachable (· = KeyedStore.start catalog)
      (graph (KeyedStore.stepOrCollect table)) keyed) :
    Reached catalog keyed.history ∧ KeyBook table keyed := by
  refine reachable_preserves (fun store : KeyedStore => Reached catalog store.history ∧
    KeyBook table store) ?_ ?_ reached
  · rintro _ rfl
    exact ⟨reachable_start rfl, (start_key_inv catalog).toKeyBook⟩
  · rintro before label next ⟨reached, book⟩ stepped
    cases label with
    | some label =>
        refine ⟨?_, step_key_book book stepped⟩
        rcases keyed_history stepped with same | ⟨op, _, moved⟩
        · rw [same]
          exact reached
        · exact reachable_step reached moved
    | none =>
        obtain ⟨history, moved, rfl⟩ := Option.map_eq_some_iff.mp stepped
        exact ⟨reachable_step reached moved, collected_book book moved⟩

structure Updatable (catalog : TableOid → Schema) (oid : TableOid) (me : TxnId) (readTs : Timestamp)
    (store : Store) : Prop where
  reached : Reached catalog store.history
  entries : EntriesOurs oid store.history store.indexes
  keys : ∀ info ∈ store.indexes, ∀ phase, ∃ keyAttrs, info.keyAttrs = keyAttrs ∧
    KeysHold keyAttrs me readTs oid { store with phase := .pulling (.update phase) [] }

theorem updatable (start : UpdatableTable catalog oid me store) (live : store.history.Live me txn)
    (running : txn.state = .running) : Updatable catalog oid me txn.readTs store := by
  cases start with
  | unindexed history reached =>
      exact ⟨reached, fun info member => (by cases member), fun info member => by cases member⟩
  | keyed keyAttrs keyed reached between =>
      obtain ⟨reached, book⟩ := keyed_reached reached
      refine ⟨reached, ?_, ?_⟩
      · intro info member key rid found
        obtain rfl := List.mem_singleton.mp member
        exact in_table_iff.mpr (book.indexed key rid found).1
      · intro info member phase
        obtain rfl := List.mem_singleton.mp member
        refine ⟨keyAttrs, rfl, Or.inr ⟨keyed.index, rfl, ?_, ?_, ?_⟩⟩
        · intro rid tuple sees
          obtain ⟨ours, sees⟩ := view_some sees
          have inside : Ours { oid := oid, keyAttrs := keyAttrs } keyed.history rid := by
            intro slot found
            obtain ⟨slot', found', same⟩ := in_table_iff.mp ours
            obtain rfl := Option.some.inj (found.symm.trans found')
            exact same
          rcases running_sees book live running inside sees with known | ⟨rest, entering⟩
          · exact Or.inl known
          · cases between.symm.trans entering
        · intro kind rid tuple rest here
          cases here
        · intro kind stage rest rid tuple here
          cases here

structure UpdateRuns (statement : UpdateStatement) (catalog : TableOid → Schema) (oid : TableOid)
    (me : TxnId)
    (readTs : Timestamp) (start : List (RID × Tuple)) (store : ScannedStore) : Prop where
  standing : Standing me readTs store.statement.history
  catalog : store.statement.history.mgr.catalog = catalog
  pointed : Pointed oid store.statement
  stands : UpdateStands statement me readTs oid start store

theorem update_runs_step {label : ScannedOp} (integers : ∀ column ∈ catalog oid, column = .integer)
    (runs : UpdateRuns statement catalog oid me readTs start before)
    (stepped : ScannedStepped statement.query me oid before label after) :
    UpdateRuns statement catalog oid me readTs start after := by
  have columns : ∀ column ∈ before.statement.history.mgr.catalog oid, column = .integer := by
    rw [runs.catalog]
    exact integers
  exact ⟨scanned_standing runs.standing stepped,
      (scanned_catalog runs.standing.inv stepped).trans runs.catalog,
        scanned_pointed runs.standing.inv stepped runs.pointed,
    update_stands_step runs.standing columns runs.pointed runs.stands stepped⟩

theorem update_run (integers : ∀ column ∈ catalog oid, column = .integer)
    (run : Run (graph (ScannedStore.step statement.query me oid)) before labels after)
    (runs : UpdateRuns statement catalog oid me readTs start before) :
    UpdateRuns statement catalog oid me readTs start after ∧ ∀ keyAttrs,
      KeysHold keyAttrs me readTs oid before.statement →
        KeysHold keyAttrs me readTs oid after.statement := by
  induction run with
  | refl store => exact ⟨runs, fun _ keys => keys⟩
  | next step _ ih =>
      have stepped := scanned_cases step
      obtain ⟨final, kept⟩ := ih (update_runs_step integers runs stepped)
      exact ⟨final, fun keyAttrs keys =>
        kept keyAttrs (keys_step runs.standing runs.pointed runs.stands stepped keys)⟩

theorem update_begins (statement : UpdateStatement)
    (table : Updatable catalog oid me txn.readTs store) (live : store.history.Live me txn) :
    UpdateRuns statement catalog oid me txn.readTs (seenRows me txn.readTs oid store.history)
      (statement.begun store) := by
  refine ⟨⟨reached_inv table.reached, txn, live, rfl⟩, reached_catalog table.reached,
    ⟨table.entries, ?_⟩, ?_⟩
  · intro rid points
    cases points
  · exact UpdateInv.opening rfl seen_rows_list

theorem known_keys_nodup {keyAttrs : List Nat} {entries : UnorderedMap Tuple RID}
    {view : RID → Option Tuple} (lists : Lists view rows)
    (known : ∀ rid tuple, view rid = some tuple →
      entries.lookup (keyFromTuple keyAttrs tuple) = some rid) :
    (rows.map fun row => keyFromTuple keyAttrs row.2).Nodup := by
  refine (lists.unique.of_map.map_on ?_)
  rintro ⟨left, tuple⟩ member ⟨right, other⟩ member' same
  have here := (lists.rows left tuple).mp member
  have there := (lists.rows right other).mp member'
  have first := known left tuple here
  -- the index has one RID for the key
  rw [show keyFromTuple keyAttrs tuple = keyFromTuple keyAttrs other from same] at first
  obtain rfl : left = right := Option.some.inj (first.symm.trans (known right other there))
  rw [Option.some.inj (here.symm.trans there)]

/-- The new values that the statement has for the rows are INTEGERs. -/
def SetsIntegers (statement : UpdateStatement) (rows : List (RID × Tuple)) : Prop :=
  ∀ row ∈ rows, statement.query.accepts row.2 = true →
    ∀ values, statement.setValues row.2 = some values → ∀ value ∈ values, value.typeId = .integer

theorem replaced_assigned (sets : SetsIntegers statement rows) :
    rows.mapM (fun row => statement.replace row.2) = rows.mapM fun row =>
      statement.assign row.2 := by
  apply map_m_congr
  intro row member
  unfold UpdateStatement.replace UpdateStatement.assign
  split
  next accepted =>
    rw [UpdateStatement.targetExpressions]
    cases values : statement.setValues row.2 with
    | none => rfl
    | some computed =>
        refine congrArg some (as_integers fun value inside => ?_)
        exact statement.computed _ _ values value inside
          (sets row member accepted _ values value inside)
  next => rfl

/-- A table of INTEGER columns holds the new values only if they are INTEGERs. -/
theorem assigned_integers {expected held : List Tuple}
    (assigned : rows.mapM (fun row => statement.assign row.2) = some expected)
    (same : held.Perm expected) (typed : ∀ tuple ∈ held, ∀ value ∈ tuple, value.typeId = .integer) :
    SetsIntegers statement rows := by
  intro row member accepted values computed value inside
  obtain ⟨tuple, listed, assigns⟩ := map_m_member assigned member
  rw [UpdateStatement.assign, if_pos accepted, computed] at assigns
  obtain rfl := Option.some.inj assigns
  exact typed _ (same.mem_iff.mpr listed) value inside

/-- An UPDATE that completes has replaced every matching row at once just when its new
values are INTEGERs, and no two rows have one key then; one that throws has tainted its
transaction, or an expression throws on a row and the table is as it was. -/
theorem update_is_set_at_a_time (statement : UpdateStatement)
    (integers : ∀ column ∈ catalog oid, column = .integer)
    (table : UpdatableTable catalog oid me store) (live : store.history.Live me txn)
    (running : txn.state = .running)
    (run : Run (graph (ScannedStore.step statement.query me oid)) (statement.begun store)
      labels after) :
    (after.statement.phase = .finished →
      ((∃ expected, (seenRows me txn.readTs oid store.history).mapM
        (fun row => statement.assign row.2) = some expected ∧
        ((seenRows me txn.readTs oid after.statement.history).map Prod.snd).Perm expected) ↔
          SetsIntegers statement (seenRows me txn.readTs oid store.history)) ∧
      ∀ info ∈ store.indexes, ((seenRows me txn.readTs oid after.statement.history).map fun row =>
        info.key row.2).Nodup) ∧
    ∀ cause, after.statement.phase = .threw cause →
      Refused me after.statement.history ∨
        ((seenRows me txn.readTs oid after.statement.history).Perm
          (seenRows me txn.readTs oid store.history) ∧
            ∃ row ∈ seenRows me txn.readTs oid store.history, statement.ThrowsOn row.2) := by
  have begins := updatable table live running
  obtain ⟨runs, kept⟩ := update_run integers run (update_begins statement begins live)
  have stands := runs.stands
  unfold UpdateStands at stands
  refine ⟨fun ended => ⟨?_, ?_⟩, fun cause ended => ?_⟩
  · rw [ended] at stands
    constructor
    -- the values of a tuple have the types of its columns
    · rintro ⟨expected, assigned, same⟩
      refine assigned_integers assigned same fun tuple member value inside => ?_
      obtain ⟨row, listed, rfl⟩ := List.mem_map.mp member
      have fits := view_fits runs.standing.inv ((seen_rows_list.rows row.1 row.2).mp listed)
      refine integers _ ?_
      rw [← runs.catalog, ← fits]
      exact List.mem_map_of_mem inside
    · intro sets
      cases stands with
      | finished rows expected lists replaced same =>
          rw [replaced_assigned sets] at replaced
          exact ⟨expected, replaced, ((lists_perm seen_rows_list lists).map _).trans same⟩
  · intro info member
    obtain ⟨keyAttrs, rfl, keys⟩ := begins.keys info member statement.targetExpressions
    rcases kept _ keys with ⟨cause, threw⟩ | ⟨entries, _, keys⟩
    · cases ended.symm.trans threw
    · refine known_keys_nodup seen_rows_list fun rid tuple sees => settled_keys keys ?_ sees
      rintro _ _ _ _ impossible
      cases ended.symm.trans impossible
  · rw [ended] at stands
    cases stands with
    | threw cause why =>
        rcases why with tainted | ⟨lists, row, member, throws⟩
        · exact Or.inl (tainted_refused runs.standing.inv tainted)
        · exact Or.inr ⟨lists_perm seen_rows_list lists, row, member, throws⟩

end Updates

/-! ### A shift of the keys -/

def Phase.completes : Phase → Bool
  | .finished => true
  | _ => false

theorem completes_finished {phase : Phase} (completes : phase.completes = true) :
    phase = .finished := by
  cases phase with
  | finished => rfl
  | notStarted | pulling | writing | threw => cases completes

def increment (value : Value) : Value :=
  match value.datum with
  | some (.number key) => .integer (key + 1)
  | _ => ⟨.integer, none⟩

theorem increment_integer (value : Value) : ∃ number, increment value = .integer number := by
  unfold increment
  split
  · exact ⟨_, rfl⟩
  · exact ⟨-(1 <<< 31 : Nat), rfl⟩

/-- `UPDATE t SET k = k + 1`. -/
def shiftKeys : UpdateStatement where
  filterPredicate := fun _ => some true
  setValues := fun tuple => some (tuple.map increment)
  computed := by
    rintro tuple _ ⟨⟩ value member _
    obtain ⟨key, _, rfl⟩ := List.mem_map.mp member
    exact increment_integer key

def twoKeysRun : List (Option KeyedOp) :=
  [some (.txn (.begin .snapshotIsolation)),
    some (.insertRows TXN_START_ID [[number 1], [number 2]]), some (.scanKey TXN_START_ID),
      some (.place TXN_START_ID firstSlot), some (.insertEntry TXN_START_ID),
    some (.scanKey TXN_START_ID), some (.place TXN_START_ID secondSlot),
      some (.insertEntry TXN_START_ID), none]

def twoKeysStart :
    Option KeyedStore :=
      twoKeysRun.foldlM (KeyedStore.stepOrCollect keyTable) (KeyedStore.start oneColumn)

theorem two_keys_returns : twoKeysStart.isSome = true := by decide

def twoKeys : KeyedStore := twoKeysStart.get two_keys_returns

def twoKeysStore : Store where
  history := twoKeys.history
  indexes := [keyIndex [0] twoKeys.index]
  phase := .notStarted

def thirdSlot : RID := { pageId := 0, slotNum := 2 }

def shiftLabels : List ScannedOp :=
  ([.openScan [secondSlot, firstSlot], .read, .take, .read, .take, .deliver, .deliver] :
    List ScannedOp) ++
  List.replicate 5 (.statement .advance : ScannedOp) ++
    ([.statement (.place thirdSlot)] : List ScannedOp) ++
  List.replicate 6 (.statement .advance : ScannedOp)

def shiftRun : Option ScannedStore :=
  shiftLabels.foldlM (ScannedStore.step shiftKeys.query TXN_START_ID 0)
    (shiftKeys.begun twoKeysStore)

theorem shift_returns : shiftRun.isSome = true := by decide +kernel

def shifted : ScannedStore := shiftRun.get shift_returns

theorem two_keys_found : (twoKeysStore.history.mgr.txnMap.lookup TXN_START_ID).isSome =
    true := by decide

theorem two_keys_live : ∃ txn, twoKeysStore.history.Live TXN_START_ID txn ∧ txn.state = .running :=
  ⟨_, ⟨(Option.some_get two_keys_found).symm, by decide⟩, by decide⟩

theorem shift_is_set_at_a_time : ∃ readTs expected,
    (seenRows TXN_START_ID readTs 0 twoKeysStore.history).mapM (fun row => shiftKeys.assign row.2) =
      some expected ∧
        ((seenRows TXN_START_ID readTs 0 shifted.statement.history).map Prod.snd).Perm
        expected := by
  obtain ⟨txn, live, running⟩ := two_keys_live
  have reached : UpdatableTable oneColumn 0 TXN_START_ID twoKeysStore := by
    refine UpdatableTable.keyed [0] twoKeys ⟨_, twoKeysRun, rfl,
      run_of_fold (Option.some_get _).symm⟩ ?_
    rfl
  have integers : ∀ column ∈ oneColumn 0, column = .integer := by simp [oneColumn]
  have run : Run (graph (ScannedStore.step shiftKeys.query TXN_START_ID 0))
      (shiftKeys.begun twoKeysStore) shiftLabels
      shifted := run_of_fold (Option.some_get _).symm
  have sets : SetsIntegers shiftKeys (seenRows TXN_START_ID txn.readTs 0 twoKeysStore.history) := by
    rintro row _ _ _ ⟨⟩ value member
    obtain ⟨key, _, rfl⟩ := List.mem_map.mp member
    obtain ⟨number, same⟩ := increment_integer key
    rw [same]
    rfl
  have ends : shifted.statement.phase = .finished := completes_finished (by decide +kernel)
  obtain ⟨expected, assigned, same⟩ :=
    ((update_is_set_at_a_time shiftKeys integers reached live running run).1 ends).1.mpr sets
  exact ⟨txn.readTs, expected, assigned, same⟩

/-! ### A comparison in an INTEGER column -/

/-- `UPDATE t SET x = (x > 3)`. -/
def setComparison : UpdateStatement where
  filterPredicate := fun _ => some true
  setValues := fun tuple => tuple.mapM fun value =>
    (value.compare .greaterThan (.integer 3)).map Value.boolean
  computed := by
    intro tuple values computed value member integer
    obtain ⟨key, _, compared⟩ := map_m_source computed member
    obtain ⟨answer, _, rfl⟩ := Option.map_eq_some_iff.mp compared
    cases integer

def nullRow : List TxnOp :=
  [.begin .snapshotIsolation, .insert TXN_START_ID 0 firstSlot [⟨.integer, none⟩]]

theorem null_row_returns : (runFrom oneColumn nullRow).isSome = true := by decide

def nullRowStore : Store where
  history := (runFrom oneColumn nullRow).get null_row_returns
  indexes := []
  phase := .notStarted

def comparisonLabels : List ScannedOp :=
  [.openScan [firstSlot], .read, .take, .deliver, .deliver, .statement .advance,
    .statement .advance]

def comparisonRun : Option ScannedStore :=
  comparisonLabels.foldlM (ScannedStore.step setComparison.query TXN_START_ID 0)
    (setComparison.begun nullRowStore)

theorem comparison_returns : comparisonRun.isSome = true := by decide

theorem null_row_found : (nullRowStore.history.mgr.txnMap.lookup TXN_START_ID).isSome = true := by
  decide

def nullRowTxn : Transaction :=
  (nullRowStore.history.mgr.txnMap.lookup TXN_START_ID).get null_row_found

def compared : ScannedStore := comparisonRun.get comparison_returns

/-- The byte of a NULL of type BOOLEAN is the 128 of an INTEGER. -/
theorem comparison_read :
    (seenRows TXN_START_ID nullRowTxn.readTs 0 compared.statement.history).map Prod.snd =
      [[number 128]] := by
  decide +kernel

theorem comparison_not_set :
    ¬∀ (catalog : TableOid → Schema) (oid : TableOid) (me : TxnId) (store : Store)
      (txn : Transaction)
      (statement : UpdateStatement) (labels : List ScannedOp) (after : ScannedStore),
      (∀ column ∈ catalog oid, column = .integer) → UpdatableTable catalog oid me store →
      store.history.Live me txn → txn.state = .running →
      Run (graph (ScannedStore.step statement.query me oid)) (statement.begun store) labels after →
      after.statement.phase = .finished →
      ∃ expected, (seenRows me txn.readTs oid store.history).mapM
        (fun row => statement.assign row.2) = some expected ∧
        ((seenRows me txn.readTs oid after.statement.history).map Prod.snd).Perm expected := by
  intro claim
  have reached : UpdatableTable oneColumn 0 TXN_START_ID nullRowStore :=
    UpdatableTable.unindexed _ ⟨_, nullRow, rfl, run_of_fold (Option.some_get _).symm⟩
  have run : Run (graph (ScannedStore.step setComparison.query TXN_START_ID 0))
      (setComparison.begun nullRowStore) comparisonLabels compared :=
        run_of_fold (Option.some_get _).symm
  obtain ⟨expected, assigned, same⟩ :=
    claim oneColumn 0 TXN_START_ID nullRowStore nullRowTxn setComparison
      comparisonLabels compared (by simp [oneColumn]) reached
      ⟨(Option.some_get null_row_found).symm, by decide⟩ (by decide) run
        (completes_finished (by decide +kernel))
  have only : (seenRows TXN_START_ID nullRowTxn.readTs 0 nullRowStore.history).mapM
      (fun row => setComparison.assign row.2) = some [[⟨.boolean, none⟩]] := by decide +kernel
  obtain rfl := Option.some.inj (only.symm.trans assigned)
  rw [comparison_read] at same
  have equal := List.singleton_perm.mp same
  cases equal

end BusTub.Dml
