import BusTub.KeyedSteps
import BusTub.TableIndexes
import BusTub.UnseenCollection
import BusTub.WatermarkRuns

/-!
A table with one of its indexes, over the transaction manager. `CreateIndex` goes
once over the table heap; after that only `InsertTupleMvcc` adds entries, and no
entry ever leaves. What else is written to the table, by an UPDATE, a DELETE, an
abort or an insert that finds its key in some index, does not touch the index. As
long as each tuple is written where the index has its key, and no insertion into the
index splits a leaf under a full parent, the index lists every row that any snapshot
sees, once, under its own key.
-/

namespace BusTub

open TransitionSystem (Run graph guarded)

section Seen
variable {before after : History} {op : TxnOp} {id : TxnId} {rid : RID} {tuple : Tuple}
  {ts : Timestamp}

def History.ReadsAt (history : History) (ts : Timestamp) : Prop :=
  ts = history.mgr.lastCommitTs ∨ ∃ id txn, history.Live id txn ∧ txn.readTs = ts

def Seen (history : History) (rid : RID) (tuple : Tuple) : Prop :=
  (∃ ts, history.ReadsAt ts ∧ history.ledger.committedAt ts rid = some tuple) ∨
    ∃ id, history.ledger.pending id rid = some (some tuple)

theorem committed_before (stepped : before.step op = some after) (inv : Inv before)
    (early : ts ≤ before.mgr.lastCommitTs) :
    after.ledger.committedAt ts rid = before.ledger.committedAt ts rid := by
  by_cases publishes : ∃ actor, op = .publish actor
  · obtain ⟨actor, rfl⟩ := publishes
    obtain ⟨_, _, commitTs, published⟩ := published_step inv stepped
    have next := published.next
    rw [published.ledger]
    exact committed_at_publish (by lia)
  · have same := committed_kept stepped fun actor isPublish => publishes ⟨actor, isPublish⟩
    rw [Ledger.committedAt, Ledger.committedAt, same]

theorem committed_later (store : StoreInv before) (late : before.mgr.lastCommitTs ≤ ts) :
    before.ledger.committedAt ts rid = before.ledger.committedAt before.mgr.lastCommitTs rid := by
  unfold Ledger.committedAt
  cases versions : before.ledger.committed rid with
  | nil => rfl
  | cons version older =>
      have dated := (store.dated rid version (versions ▸ List.mem_cons_self)).2.2
      rw [List.find?_cons_of_pos (by simpa using dated.trans late),
        List.find?_cons_of_pos (by simpa using dated)]

/-- What is newest was newest before, or the step commits it. -/
theorem newest_step (stepped : before.step op = some after) (inv : Inv before)
    (newest : after.ledger.committedAt after.mgr.lastCommitTs rid = some tuple) :
    before.ledger.committedAt before.mgr.lastCommitTs rid = some tuple ∨
      ∃ actor, op = .publish actor ∧ before.ledger.pending actor rid = some (some tuple) := by
  by_cases publishes : ∃ actor, op = .publish actor
  · obtain ⟨actor, rfl⟩ := publishes
    obtain ⟨txn, _, commitTs, published⟩ := published_step inv stepped
    have next := published.next
    rw [published.published, published.ledger] at newest
    cases written : before.ledger.pending actor rid with
    | none =>
        rw [Ledger.committedAt, committed_publish_none written] at newest
        refine Or.inl ?_
        rw [← committed_later inv.store (by lia : before.mgr.lastCommitTs ≤ commitTs)]
        exact newest
    | some row =>
        rw [Ledger.committedAt, committed_publish written, List.find?_cons_of_pos (by simp)]
          at newest
        obtain rfl : row = some tuple := newest
        exact Or.inr ⟨actor, rfl, written⟩
  · obtain ⟨last, snapshots⟩ := step_snapshots inv stepped
    have same := committed_kept stepped fun actor isPublish => publishes ⟨actor, isPublish⟩
    rw [Ledger.committedAt, same] at newest
    refine Or.inl ?_
    rw [← committed_later inv.store last]
    exact newest

def TxnOp.lands (op : TxnOp) (mgr : TransactionManager) (id : TxnId) (rid : RID)
    (tuple : Tuple) : Prop :=
  (∃ oid, op = .insert id oid rid tuple) ∨
    ∃ requireDeleted next, op = .modify id rid (some tuple) requireDeleted ∧
      mgr.modifyTuple id rid (some tuple) requireDeleted = some (.done, next)

theorem modify_pending {target : Option Tuple} {requireDeleted : Bool} {place : RID}
    (stepped : before.step (.modify id place target requireDeleted) = some after) :
    after.ledger = before.ledger ∨ after.ledger = before.ledger.write id place target ∧
      ∃ next, before.mgr.modifyTuple id place target requireDeleted = some (.done, next) := by
  obtain ⟨mgr, ran, rfl⟩ := Option.map_eq_some_iff.mp stepped
  obtain ⟨⟨result, next⟩, modified, _⟩ := Option.map_eq_some_iff.mp ran
  obtain ⟨txn, slot, ready, found, _, _⟩ := modify_cases modified
  have inMap := (TransactionManager.ready_iff.mp ready).1
  simp only [History.record, modified, History.recordModify, inMap, found]
  by_cases done : result = .done
  · subst done
    exact Or.inr ⟨by simp, next, rfl⟩
  · exact Or.inl (by simp [done])

theorem pending_step (stepped : before.step op = some after)
    (written : after.ledger.pending id rid = some (some tuple)) :
    before.ledger.pending id rid = some (some tuple) ∨ op.lands before.mgr id rid tuple := by
  have booked := step_booked stepped
  generalize same : after.ledger = ledger at booked written
  cases booked with
  | unchanged => exact Or.inl written
  | insert actor oid place new =>
      by_cases here : id = actor ∧ rid = place
      · obtain ⟨rfl, rfl⟩ := here
        obtain rfl := Option.some.inj (Option.some.inj (pending_write_self.symm.trans written))
        exact Or.inr (Or.inl ⟨oid, rfl⟩)
      · exact Or.inl ((pending_write_other (by tauto)).symm.trans written)
  | modify actor place target requireDeleted =>
      rcases modify_pending stepped with unchanged | ⟨-, next, done⟩
      · rw [← same, unchanged] at written
        exact Or.inl written
      · by_cases here : id = actor ∧ rid = place
        · obtain ⟨rfl, rfl⟩ := here
          obtain rfl := Option.some.inj (pending_write_self.symm.trans written)
          exact Or.inr (Or.inr ⟨requireDeleted, next, rfl, done⟩)
        · exact Or.inl ((pending_write_other (by tauto)).symm.trans written)
  | rollback actor oid place =>
      by_cases here : id = actor ∧ rid = place
      · obtain ⟨rfl, rfl⟩ := here
        cases pending_undo_self.symm.trans written
      · exact Or.inl ((pending_undo_other (by tauto)).symm.trans written)
  | publish actor readTs commitTs =>
      by_cases own : id = actor
      · subst own
        cases pending_publish_self.symm.trans written
      · exact Or.inl ((congrFun (pending_publish_other own) rid).symm.trans written)

/-- What can be read off a snapshot after a step could be so before it, or the step commits it. -/
theorem snapshot_step (stepped : before.step op = some after) (inv : Inv before)
    (reads : after.ReadsAt ts) (row : after.ledger.committedAt ts rid = some tuple) :
    (∃ ts, before.ReadsAt ts ∧ before.ledger.committedAt ts rid = some tuple) ∨
      ∃ actor, op = .publish actor ∧ before.ledger.pending actor rid = some (some tuple) := by
  rcases reads with rfl | ⟨id, txn, live, rfl⟩
  · rcases newest_step stepped inv row with old | published
    · exact Or.inl ⟨_, Or.inl rfl, old⟩
    · exact Or.inr published
  · refine Or.inl ?_
    obtain ⟨ids, clock⟩ := inv.clock
    rcases (step_snapshots inv stepped).2 id txn live with fresh | ⟨txn', was, same⟩
    · rw [fresh, committed_before stepped inv le_rfl] at row
      exact ⟨_, Or.inl rfl, row⟩
    · rw [← same, committed_before stepped inv (clock.readTs id txn' was).2.2] at row
      exact ⟨_, Or.inr ⟨id, txn', was, rfl⟩, row⟩

end Seen

/-! ### The table and its index -/

structure IndexedStore where
  history : History
  /-- `none` until the index is created -/
  index : Option TableIndex
  /-- the RID that `InsertTuple` has given to the tuple whose entry is to come -/
  entering : TxnId → Option (RID × Tuple)

inductive IndexedOp where
  /-- a step of the transaction manager that adds nothing to the table -/
  | txn (op : TxnOp)
  /-- the table heap is gone over in this order -/
  | createIndex (indexType : IndexType) (rids : List RID)
  | place (id : TxnId) (rid : RID) (tuple : Tuple)
  | enter (id : TxnId)

namespace IndexedStore

open Function (update)

def start (catalog : TableOid → Schema) : IndexedStore where
  history := History.start catalog
  index := none
  entering := fun _ => none

def tableRids (table : TableInfo) (mgr : TransactionManager) : List RID :=
  (mgr.heap.entries.filter fun entry => entry.2.oid = table.oid).map Sigma.fst

/-- One turn of the loop of `CreateIndex`. What `InsertEntry` answers is not looked at. -/
def enterSlot (table : TableInfo) (mgr : TransactionManager) (index : TableIndex) (rid : RID) :
    Option TableIndex :=
  match mgr.heap.lookup rid with
  | some slot => (index.insertEntry (keyFromTuple table.keyAttrs slot.tuple) rid).map Prod.snd
  | none => some index

def populate (table : TableInfo) (mgr : TransactionManager) (index : TableIndex) (rids : List RID) :
    Option TableIndex :=
  rids.foldlM (enterSlot table mgr) index

/-- Between `InsertTuple` and `InsertEntry` a transaction takes no other step but
to fail and be aborted. -/
def mayTake (table : TableInfo) (store : IndexedStore) : TxnOp → Bool
  | .insert id oid _ _ => oid ≠ table.oid && (store.entering id).isNone
  | .throwWriteConflict _ | .abort _ | .rollback _ _ _ | .aborted _ => true
  | op => op.actor.all fun id => (store.entering id).isNone

def step (table : TableInfo) (store : IndexedStore) : IndexedOp → Option IndexedStore
  | .txn op =>
      if store.mayTake table op then (store.history.step op).map fun history =>
        { store with history := history }
      else none
  | .createIndex indexType rids =>
      if store.index.isNone && rids.isPerm (tableRids table store.history.mgr) then do
        let fresh ← TableIndex.make indexType
        let index ← populate table store.history.mgr fresh rids
        return { store with index := some index }
      else none
  | .place id rid tuple =>
      if (store.entering id).isNone then
        (store.history.step (.insert id table.oid rid tuple)).map fun history =>
          { store with
            history := history,
            entering := if store.index.isSome then update store.entering id (some (rid, tuple))
              else store.entering }
      else none
  | .enter id =>
      match store.entering id, store.index with
      | some (rid, tuple), some index => do
          let (inserted, index) ← index.insertEntry (keyFromTuple table.keyAttrs tuple) rid
          if inserted then
            (store.history.mgr.ready id).map fun _ =>
              { store with index := some index, entering := update store.entering id none }
          else (store.history.step (.throwWriteConflict id)).map fun history =>
            { store with history := history }
      | _, _ => none

end IndexedStore

def HasKey (table : TableInfo) (tuple : Tuple) : Prop :=
  ∃ numbers : List Int, (table.keyAttrs.mapM fun column => tuple[column]?) =
    some (numbers.map number)

def Finds (table : TableInfo) (index : TableIndex) (rid : RID) (tuple : Tuple) : Prop :=
  ∃ numbers : List Int, (table.keyAttrs.mapM fun column => tuple[column]?) =
    some (numbers.map number) ∧ index.getValue numbers = some (some rid)

def InTable (table : TableInfo) (history : History) (rid : RID) : Prop :=
  ∃ slot, history.mgr.heap.lookup rid = some slot ∧ slot.oid = table.oid

def RoomForAll (table : TableInfo) (mgr : TransactionManager) : TableIndex → List RID → Prop
  | _, [] => True
  | index, rid :: rids =>
      (∀ slot, mgr.heap.lookup rid = some slot →
        index.Room (keyFromTuple table.keyAttrs slot.tuple)) ∧
          ∀ next, IndexedStore.enterSlot table mgr index rid = some next →
          RoomForAll table mgr next rids

/-- No NULL comes into a key column, and no leaf of the index splits under a full parent.
A tuple is written over at a RID only where the index has its key, and when the index is
created it has each row that somebody may see under the row's key. -/
def KeepsKeys (table : TableInfo) (store : IndexedStore) : IndexedOp → Prop
  | .txn op => ∀ index, store.index = some index →
      ∀ id rid tuple, op.lands store.history.mgr id rid tuple → InTable table store.history rid →
      Finds table index rid tuple
  | .createIndex indexType rids =>
      (∀ rid slot, store.history.mgr.heap.lookup rid = some slot → slot.oid = table.oid →
        HasKey table slot.tuple) ∧ ∀ fresh, TableIndex.make indexType = some fresh →
          RoomForAll table store.history.mgr fresh rids ∧
        ∀ index, IndexedStore.populate table store.history.mgr fresh rids = some index →
          ∀ rid tuple, InTable table store.history rid → Seen store.history rid tuple →
            Finds table index rid tuple
  | .place _ _ tuple => store.index.isSome → HasKey table tuple
  | .enter id =>
      ∀ rid tuple index, store.entering id = some (rid, tuple) → store.index = some index →
        index.Room (keyFromTuple table.keyAttrs tuple)

def KeysKept (catalog : TableOid → Schema) (table : TableInfo) : IndexedStore → Prop :=
  TransitionSystem.Reachable (· = IndexedStore.start catalog)
    (guarded (KeepsKeys table) (graph (IndexedStore.step table)))

/-! ### What such runs keep -/

def Listed (table : TableInfo) (map : UnorderedMap Tuple RID) (rid : RID) (tuple : Tuple) : Prop :=
  HasKey table tuple ∧ map.lookup (keyFromTuple table.keyAttrs tuple) = some rid

structure IndexKeyed (table : TableInfo) (store : IndexedStore)
    (map : UnorderedMap Tuple RID) : Prop where
  whole : ∀ key rid, map.lookup key = some rid →
    ∃ numbers : List Int, key = numbers.map number ∧ numbers.length = table.keyAttrs.length
  slots : ∀ key rid, map.lookup key = some rid → InTable table store.history rid
  unique : ∀ key other rid, map.lookup key = some rid → map.lookup other = some rid → key = other
  snapshots : ∀ rid, InTable table store.history rid → ∀ ts tuple, store.history.ReadsAt ts →
    store.history.ledger.committedAt ts rid = some tuple → Listed table map rid tuple
  pending : ∀ rid, InTable table store.history rid →
    ∀ id tuple, store.history.ledger.pending id rid = some (some tuple) →
      Listed table map rid tuple ∨ (store.entering id).any fun entry => entry.1 = rid
  entering : ∀ id rid tuple, store.entering id = some (rid, tuple) → HasKey table tuple ∧
    InTable table store.history rid ∧ (∀ key, map.lookup key ≠ some rid) ∧
    ∀ row, store.history.ledger.pending id rid = some row → row = some tuple
  apart : ∀ id other rid tuple tuple', store.entering id = some (rid, tuple) →
    store.entering other = some (rid, tuple') → id = other

structure IndexInv (table : TableInfo) (store : IndexedStore) : Prop where
  inv : Inv store.history
  keyed : ∀ index, store.index = some index → ∃ map, index.Represents map ∧
    IndexKeyed table store map
  before : store.index = none → ∀ id, store.entering id = none

section Keys
variable {table : TableInfo} {store : IndexedStore} {history : History} {op : TxnOp} {id : TxnId}
  {rid : RID} {tuple : Tuple} {map : UnorderedMap Tuple RID} {index : TableIndex}
  {columns : List Nat} {values : List Value} {ts : Timestamp} {key : Tuple}
  {mgr : TransactionManager} {rids : List RID}

theorem key_of_columns (there : (columns.mapM fun column => tuple[column]?) = some values) :
    keyFromTuple columns tuple = values := by
  induction columns generalizing values with
  | nil => simpa [keyFromTuple] using there
  | cons column columns ih =>
      simp only [List.mapM_cons, Option.bind_eq_bind, Option.bind_eq_some_iff] at there
      obtain ⟨value, here, rest, later, same⟩ := there
      obtain rfl := Option.some.inj same
      have tail := ih later
      simp only [keyFromTuple] at tail ⊢
      rw [List.filterMap_cons_some here, tail]

theorem columns_length (there : (columns.mapM fun column => tuple[column]?) = some values) :
    values.length = columns.length := by
  induction columns generalizing values with
  | nil => simp_all
  | cons column columns ih =>
      simp only [List.mapM_cons, Option.bind_eq_bind, Option.bind_eq_some_iff] at there
      obtain ⟨value, here, rest, later, same⟩ := there
      obtain rfl := Option.some.inj same
      simp [ih later]

theorem has_key (has : HasKey table tuple) : ∃ numbers : List Int,
    keyFromTuple table.keyAttrs tuple = numbers.map number ∧
      numbers.length = table.keyAttrs.length := by
  obtain ⟨numbers, there⟩ := has
  exact ⟨numbers, key_of_columns there, by simpa using columns_length there⟩

/-- In an index of one column the key of a row is its number there. -/
theorem listed_under_number {column : Nat} (onColumn : table.keyAttrs = [column])
    (listed : Listed table map rid tuple) :
    ∃ value : Int, tuple[column]? = some (number value) ∧ map.lookup [number value] = some rid := by
  obtain ⟨⟨numbers, there⟩, entered⟩ := listed
  rw [key_of_columns there] at entered
  rw [onColumn] at there
  simp only [List.mapM_cons, List.mapM_nil, Option.bind_eq_bind, Option.bind_eq_some_iff] at there
  obtain ⟨value, cell, rest, ended, same⟩ := there
  obtain rfl := Option.some.inj ended
  cases numbers with
  | nil => cases same
  | cons first numbers =>
      obtain ⟨rfl, none⟩ := List.cons.inj (Option.some.inj same)
      obtain rfl := List.map_eq_nil_iff.mp none.symm
      exact ⟨first, cell, entered⟩

theorem in_table_step (inv : Inv store.history) (stepped : store.history.step op = some history)
    (there : InTable table store.history rid) : InTable table history rid := by
  obtain ⟨slot, found, sameTable⟩ := there
  obtain ⟨slot', now, same⟩ := tables_step inv stepped rid slot found
  exact ⟨slot', now, same.trans sameTable⟩

theorem in_table_before (inv : Inv store.history) (stepped : store.history.step op = some history)
    (there : InTable table history rid) (slot : (store.history.mgr.heap.lookup rid).isSome) :
    InTable table store.history rid := by
  obtain ⟨slot, found⟩ := Option.isSome_iff_exists.mp slot
  obtain ⟨slot', now, same⟩ := tables_step inv stepped rid slot found
  obtain ⟨slot'', now', sameTable⟩ := there
  obtain rfl := Option.some.inj (now.symm.trans now')
  exact ⟨slot, found, same.symm.trans sameTable⟩

theorem committed_slot (inv : Inv store.history)
    (row : store.history.ledger.committedAt ts rid = some tuple) :
    (store.history.mgr.heap.lookup rid).isSome := by
  cases found : store.history.mgr.heap.lookup rid with
  | some slot => rfl
  | none =>
      rw [Ledger.committedAt, (inv.store.empty rid found).2.1] at row
      cases row

theorem pending_slot (inv : Inv store.history) {row : Option Tuple}
    (written : store.history.ledger.pending id rid = some row) :
    (store.history.mgr.heap.lookup rid).isSome := by
  cases found : store.history.mgr.heap.lookup rid with
  | some slot => rfl
  | none =>
      rw [((inv.store.empty rid found).2.2 id).1] at written
      cases written

/-- What is published is listed already: only a transaction that enters nothing publishes. -/
theorem snapshots_kept (keyed : IndexKeyed table store map) (inv : Inv store.history)
    (stepped : store.history.step op = some history)
    (idle : ∀ actor, op = .publish actor → store.entering actor = none)
    (there : InTable table history rid) (reads : history.ReadsAt ts)
    (row : history.ledger.committedAt ts rid = some tuple) : Listed table map rid tuple := by
  rcases snapshot_step stepped inv reads row with ⟨ts, was, row⟩ | ⟨actor, publishes, written⟩
  · exact keyed.snapshots rid (in_table_before inv stepped there (committed_slot inv row))
      ts tuple was row
  · rcases keyed.pending rid (in_table_before inv stepped there (pending_slot inv written)) actor
      tuple written with
      listed | enters
    · exact listed
    · simp [idle actor publishes] at enters

theorem may_take_idle (may : store.mayTake table op = true) :
    (∀ actor, op = .publish actor → store.entering actor = none) ∧
    ∀ actor, op.actor = some actor → store.entering actor = none ∨ op = .throwWriteConflict actor ∨
      op = .abort actor ∨
      op = .aborted actor ∨ ∃ oid rid, op = .rollback actor oid rid := by
  constructor
  · rintro actor rfl
    simpa [IndexedStore.mayTake, TxnOp.actor] using may
  · intro actor acts
    cases op <;> simp_all [IndexedStore.mayTake, TxnOp.actor]

theorem txn_keyed (keyed : IndexKeyed table store map) (inv : Inv store.history)
    (stepped : store.history.step op = some history) (may : store.mayTake table op = true)
    (keeps : ∀ id rid tuple, op.lands store.history.mgr id rid tuple →
      InTable table store.history rid → Listed table map rid tuple) :
    IndexKeyed table { store with history := history } map := by
  obtain ⟨idle, enters⟩ := may_take_idle may
  refine ⟨keyed.whole, fun key rid entry => in_table_step inv stepped (keyed.slots key rid entry),
    keyed.unique, ?_, ?_, ?_, keyed.apart⟩
  · intro rid there ts tuple reads row
    exact snapshots_kept keyed inv stepped idle there reads row
  · intro rid there id tuple written
    rcases pending_step stepped written with old | lands
    · exact keyed.pending rid (in_table_before inv stepped there (pending_slot inv old)) id tuple
        old
    · refine Or.inl (keeps id rid tuple lands ?_)
      rcases lands with ⟨oid, rfl⟩ | ⟨requireDeleted, next, rfl, done⟩
      · -- a slot of another table
        obtain ⟨-, slot, found, sameOid⟩ := inserted_slot stepped
        obtain ⟨slot', found', sameTable⟩ := there
        obtain rfl := Option.some.inj (found.symm.trans found')
        simp [IndexedStore.mayTake, ← sameOid, sameTable] at may
      · obtain ⟨_, slot, _, found, _⟩ := modify_cases done
        exact in_table_before inv stepped there (by rw [found]; rfl)
  · intro id rid tuple entry
    obtain ⟨has, there, unlisted, same⟩ := keyed.entering id rid tuple entry
    refine ⟨has, in_table_step inv stepped there, unlisted, fun row written => ?_⟩
    by_cases acts : op.actor = some id
    · apply same row
      have booked := step_booked stepped
      generalize history.ledger = ledger at booked written
      -- all that its own transaction does to such a row is to roll it back
      rcases enters id acts with none | rfl | rfl | rfl | ⟨oid, place, rfl⟩
      · rw [none] at entry
        cases entry
      · cases booked
        exact written
      · cases booked
        exact written
      · cases booked
        exact written
      · cases booked with
        | unchanged => exact written
        | rollback =>
            by_cases here : rid = place
            · subst here
              cases pending_undo_self.symm.trans written
            · exact (pending_undo_other (Or.inr here)).symm.trans written
    · exact same row ((pending_others stepped acts rid).symm.trans written)

theorem place_keyed (keyed : IndexKeyed table store map) (inv : Inv store.history)
    (stepped : store.history.step (.insert id table.oid rid tuple) = some history)
    (idle : store.entering id = none) (has : HasKey table tuple) :
    IndexKeyed table
      { store with
        history := history
        entering := Function.update store.entering id (some (rid, tuple)) } map := by
  obtain ⟨vacant, slot, found, sameOid⟩ := inserted_slot stepped
  -- the slot is new, so nobody is about to enter its RID
  have elsewhere {other : TxnId} {place : RID} {row : Tuple}
    (entry : store.entering other = some (place, row)) :
    place ≠ rid := by
    rintro rfl
    obtain ⟨-, ⟨slot, there, -⟩, -⟩ := keyed.entering other place row entry
    cases vacant.symm.trans there
  refine ⟨keyed.whole, fun key rid entry => in_table_step inv stepped (keyed.slots key rid entry),
      keyed.unique, ?_, ?_, ?_, ?_⟩
  · intro rid there ts tuple reads row
    exact snapshots_kept keyed inv stepped (by simp) there reads row
  · intro place there other row written
    rcases pending_step stepped written with old | lands
    · rcases keyed.pending place
        (in_table_before inv stepped there (pending_slot inv old)) other row
          old with listed | enters
      · exact Or.inl listed
      · refine Or.inr ?_
        have different : other ≠ id := by
          rintro rfl
          simp [idle] at enters
        simpa [Function.update_of_ne different] using enters
    · rcases lands with ⟨oid, same⟩ | ⟨requireDeleted, next, same, -⟩
      · obtain ⟨rfl, -, rfl, rfl⟩ := TxnOp.insert.inj same
        exact Or.inr (by simp)
      · cases same
  · intro other place row entry
    dsimp only at entry ⊢
    by_cases same : other = id
    · subst same
      rw [Function.update_self] at entry
      obtain ⟨rfl, rfl⟩ := Prod.mk.inj (Option.some.inj entry)
      refine ⟨has, ⟨slot, found, sameOid⟩, fun key listed => ?_, fun row written => ?_⟩
      · obtain ⟨slot, there, -⟩ := keyed.slots key rid listed
        cases vacant.symm.trans there
      · have booked := step_booked stepped
        generalize history.ledger = ledger at booked written
        cases booked with
        | unchanged => cases ((inv.store.empty rid vacant).2.2 other).1.symm.trans written
        | insert => exact Option.some.inj (written.symm.trans pending_write_self)
    · rw [Function.update_of_ne same] at entry
      obtain ⟨has, there, unlisted, same'⟩ := keyed.entering other place row entry
      refine ⟨has, in_table_step inv stepped there, unlisted, fun row written => same' row ?_⟩
      exact (pending_others stepped (fun acts => same (Option.some.inj acts).symm) place).symm.trans
        written
  · intro first second place row row' entry entry'
    dsimp only at entry entry'
    by_cases one : first = id
    · by_cases two : second = id
      · exact one.trans two.symm
      · subst one
        rw [Function.update_self] at entry
        rw [Function.update_of_ne two] at entry'
        obtain ⟨rfl, -⟩ := Prod.mk.inj (Option.some.inj entry)
        exact absurd rfl (elsewhere entry')
    · rw [Function.update_of_ne one] at entry
      by_cases two : second = id
      · subst two
        rw [Function.update_self] at entry'
        obtain ⟨rfl, -⟩ := Prod.mk.inj (Option.some.inj entry')
        exact absurd rfl (elsewhere entry)
      · rw [Function.update_of_ne two] at entry'
        exact keyed.apart first second place row row' entry entry'

theorem listed_insert (absent : map.lookup key = none) {place : RID}
    (listed : Listed table map rid tuple) :
    Listed table (map.insert key place) rid tuple := by
  refine ⟨listed.1, (AList.lookup_insert_ne ?_).trans listed.2⟩
  intro same
  rw [← same, listed.2] at absent
  cases absent

theorem enter_keyed (keyed : IndexKeyed table store map)
    (entry : store.entering id = some (rid, tuple))
    (absent : map.lookup (keyFromTuple table.keyAttrs tuple) = none) :
    IndexKeyed table
      { store with index := some index, entering := Function.update store.entering id none }
      (map.insert (keyFromTuple table.keyAttrs tuple) rid) := by
  obtain ⟨has, there, unlisted, written⟩ := keyed.entering id rid tuple entry
  -- an entry is the new one, or an old one at another RID
  have cases_of {key : Tuple} {place : RID}
    (found : (map.insert (keyFromTuple table.keyAttrs tuple) rid).lookup key = some place) :
    (key = keyFromTuple table.keyAttrs tuple ∧ place = rid) ∨
      (map.lookup key = some place ∧ place ≠ rid) := by
    by_cases same : key = keyFromTuple table.keyAttrs tuple
    · subst same
      exact Or.inl ⟨rfl, (Option.some.inj ((AList.lookup_insert _).symm.trans found)).symm⟩
    · have old := (AList.lookup_insert_ne same).symm.trans found
      exact Or.inr ⟨old, fun here => unlisted key (here ▸ old)⟩
  refine ⟨?_, ?_, ?_, ?_, ?_, ?_, ?_⟩
  · intro key place found
    rcases cases_of found with ⟨rfl, -⟩ | ⟨old, -⟩
    · exact has_key has
    · exact keyed.whole key place old
  · intro key place found
    rcases cases_of found with ⟨-, rfl⟩ | ⟨old, -⟩
    · exact there
    · exact keyed.slots key place old
  · intro key other place found found'
    rcases cases_of found with ⟨rfl, rfl⟩ | ⟨old, apart⟩
    · rcases cases_of found' with ⟨rfl, -⟩ | ⟨-, apart⟩
      · rfl
      · exact absurd rfl apart
    · rcases cases_of found' with ⟨-, rfl⟩ | ⟨old', -⟩
      · exact absurd rfl apart
      · exact keyed.unique key other place old old'
  · intro place inTable ts row reads committed
    exact listed_insert absent (keyed.snapshots place inTable ts row reads committed)
  · intro place inTable other row pending
    rcases keyed.pending place inTable other row pending with listed | enters
    · exact Or.inl (listed_insert absent listed)
    · by_cases same : other = id
      · subst same
        obtain rfl : rid = place := by simpa [entry] using enters
        obtain rfl := Option.some.inj (written (some row) pending)
        exact Or.inl ⟨has, AList.lookup_insert _⟩
      · exact Or.inr (by simpa [Function.update_of_ne same] using enters)
  · intro other place row entry'
    dsimp only at entry'
    have different : other ≠ id := by
      rintro rfl
      simp at entry'
    rw [Function.update_of_ne different] at entry'
    obtain ⟨has', there', unlisted', written'⟩ := keyed.entering other place row entry'
    refine ⟨has', there', fun key found => ?_, written'⟩
    rcases cases_of found with ⟨-, rfl⟩ | ⟨old, -⟩
    · exact different (keyed.apart other id place row tuple entry' entry)
    · exact unlisted' key old
  · intro first second place row row' entry' entry''
    dsimp only at entry' entry''
    have one : first ≠ id := by
      rintro rfl
      simp at entry'
    have two : second ≠ id := by
      rintro rfl
      simp at entry''
    rw [Function.update_of_ne one] at entry'
    rw [Function.update_of_ne two] at entry''
    exact keyed.apart first second place row row' entry' entry''

theorem table_rid (member : rid ∈ IndexedStore.tableRids table mgr) :
    ∃ slot, mgr.heap.lookup rid = some slot ∧ slot.oid = table.oid := by
  obtain ⟨⟨place, slot⟩, inside, rfl⟩ := List.mem_map.mp member
  obtain ⟨entry, sameOid⟩ := List.mem_filter.mp inside
  exact ⟨slot, AList.mem_lookup_iff.mpr entry, of_decide_eq_true sameOid⟩

theorem enter_represents (represents : index.Represents map) {numbers : List Int}
    (whole : key = numbers.map number) (room : index.Room key) {inserted : Bool}
    {grown : TableIndex} (entered : index.insertEntry key rid = some (inserted, grown)) :
    (inserted = false ∧ grown = index ∧ (map.lookup key).isSome) ∨
      (inserted = true ∧ map.lookup key = none ∧ grown.Represents (map.insert key rid)) := by
  subst whole
  obtain ⟨new, old⟩ := TableIndex.insert_represents represents room rid
  cases there : map.lookup (numbers.map number) with
  | none =>
      obtain ⟨result, done, stands⟩ := new there
      obtain ⟨rfl, rfl⟩ := Prod.mk.inj (Option.some.inj (done.symm.trans entered))
      exact Or.inr ⟨rfl, rfl, stands⟩
  | some place =>
      obtain ⟨rfl, rfl⟩ := Prod.mk.inj (Option.some.inj ((old place there).symm.trans entered))
      exact Or.inl ⟨rfl, rfl, rfl⟩

/-- An entry of a new index has the key of the tuple at its RID. -/
theorem populate_represents (represents : index.Represents map)
    (whole : ∀ rid ∈ rids, ∀ slot, mgr.heap.lookup rid = some slot → HasKey table slot.tuple)
    (room : RoomForAll table mgr index rids) {filled : TableIndex}
    (populated : IndexedStore.populate table mgr index rids = some filled) :
    ∃ entries, filled.Represents entries ∧ ∀ key rid, entries.lookup key = some rid →
      map.lookup key = some rid ∨
        (rid ∈ rids ∧ ∃ slot, mgr.heap.lookup rid = some slot ∧
        key = keyFromTuple table.keyAttrs slot.tuple) := by
  induction rids generalizing index map with
  | nil =>
      obtain rfl := Option.some.inj populated
      exact ⟨map, represents, fun key rid found => Or.inl found⟩
  | cons place rids ih =>
      obtain ⟨fits, later⟩ := room
      simp only [IndexedStore.populate, List.foldlM_cons, Option.bind_eq_bind,
        Option.bind_eq_some_iff] at populated
      obtain ⟨next, entered, populated⟩ := populated
      have others (rid : RID) (member : rid ∈ rids) := whole rid (List.mem_cons_of_mem _ member)
      -- after this turn there is at most the entry of this slot more
      obtain ⟨middle, stands, more⟩ : ∃ middle, next.Represents middle ∧
          ∀ key rid, middle.lookup key = some rid → map.lookup key = some rid ∨
            (rid = place ∧ ∃ slot, mgr.heap.lookup rid = some slot ∧
              key = keyFromTuple table.keyAttrs slot.tuple) := by
        have turn := entered
        unfold IndexedStore.enterSlot at turn
        cases here : mgr.heap.lookup place with
        | none =>
            rw [here] at turn
            obtain rfl := Option.some.inj turn
            exact ⟨map, represents, fun key rid found => Or.inl found⟩
        | some slot =>
            rw [here] at turn
            obtain ⟨⟨inserted, grown⟩, done, rfl⟩ := Option.map_eq_some_iff.mp turn
            obtain ⟨numbers, same, -⟩ := has_key (whole place List.mem_cons_self slot here)
            rcases enter_represents represents same (fits slot here) done with ⟨-, rfl, -⟩ |
              ⟨-, absent, stands⟩
            · exact ⟨map, represents, fun key rid found => Or.inl found⟩
            · refine ⟨_, stands, fun key rid found => ?_⟩
              by_cases one : key = keyFromTuple table.keyAttrs slot.tuple
              · subst one
                obtain rfl := Option.some.inj ((AList.lookup_insert _).symm.trans found)
                exact Or.inr ⟨rfl, slot, here, rfl⟩
              · exact Or.inl ((AList.lookup_insert_ne one).symm.trans found)
      obtain ⟨entries, holds, from_slots⟩ := ih stands others (later next entered) populated
      refine ⟨entries, holds, fun key rid found => ?_⟩
      rcases from_slots key rid found with inMiddle | ⟨member, slot⟩
      · rcases more key rid inMiddle with old | ⟨rfl, slot⟩
        · exact Or.inl old
        · exact Or.inr ⟨List.mem_cons_self, slot⟩
      · exact Or.inr ⟨List.mem_cons_of_mem _ member, slot⟩

theorem finds_listed (represents : index.Represents map) : Finds table index rid tuple ↔
    Listed table map rid tuple := by
  constructor
  · rintro ⟨numbers, there, answers⟩
    rw [TableIndex.value_represents represents] at answers
    refine ⟨⟨numbers, there⟩, ?_⟩
    rw [key_of_columns there]
    exact Option.some.inj answers
  · rintro ⟨⟨numbers, there⟩, listed⟩
    refine ⟨numbers, there, ?_⟩
    rw [TableIndex.value_represents represents, ← key_of_columns there, listed]

theorem create_keyed {indexType : IndexType} {fresh : TableIndex}
    (perm : rids.Perm (IndexedStore.tableRids table store.history.mgr))
    (idle : ∀ id, store.entering id = none)
    (keeps : KeepsKeys table store (.createIndex indexType rids))
    (made : TableIndex.make indexType = some fresh)
    (populated : IndexedStore.populate table store.history.mgr fresh rids = some index) :
    ∃ map, index.Represents map ∧ IndexKeyed table store map := by
  obtain ⟨whole, keeps⟩ := keeps
  obtain ⟨room, seen⟩ := keeps fresh made
  have inTable (rid : RID) (member : rid ∈ rids) := table_rid (perm.mem_iff.mp member)
  have keys (rid : RID) (member : rid ∈ rids) (slot : Slot)
    (found : store.history.mgr.heap.lookup rid = some slot) : HasKey table slot.tuple := by
    obtain ⟨slot', here, sameOid⟩ := inTable rid member
    obtain rfl := Option.some.inj (found.symm.trans here)
    exact whole rid slot found sameOid
  obtain ⟨map, represents, entries⟩ :=
    populate_represents (TableIndex.made_represents made) keys room populated
  have slots {key : Tuple} {rid : RID} (found : map.lookup key = some rid) :
      rid ∈ rids ∧ ∃ slot, store.history.mgr.heap.lookup rid = some slot ∧
        key = keyFromTuple table.keyAttrs slot.tuple := by
    rcases entries key rid found with nothing | there
    · cases nothing
    · exact there
  refine ⟨map, represents, ?_, ?_, ?_, ?_, ?_, ?_, ?_⟩
  · intro key rid found
    obtain ⟨member, slot, here, rfl⟩ := slots found
    exact has_key (keys rid member slot here)
  · intro key rid found
    exact inTable rid (slots found).1
  · intro key other rid found found'
    obtain ⟨-, slot, here, rfl⟩ := slots found
    obtain ⟨-, slot', here', rfl⟩ := slots found'
    obtain rfl := Option.some.inj (here.symm.trans here')
    rfl
  · intro rid there ts tuple reads row
    exact (finds_listed represents).mp
      (seen index populated rid tuple there (Or.inl ⟨ts, reads, row⟩))
  · intro rid there id tuple written
    exact Or.inl
      ((finds_listed represents).mp (seen index populated rid tuple there (Or.inr ⟨id, written⟩)))
  · intro id rid tuple entry
    cases (idle id).symm.trans entry
  · intro id other rid tuple tuple' entry
    cases (idle id).symm.trans entry

theorem step_index_inv {after : IndexedStore} {label : IndexedOp} (inv : IndexInv table store)
    (keeps : KeepsKeys table store label) (stepped : store.step table label = some after) :
    IndexInv table after := by
  cases label with
  | txn op =>
      simp only [IndexedStore.step, Option.ite_none_right_eq_some] at stepped
      obtain ⟨may, stepped⟩ := stepped
      obtain ⟨history, ran, rfl⟩ := Option.map_eq_some_iff.mp stepped
      refine ⟨step_inv inv.inv ran, fun index there => ?_, inv.before⟩
      obtain ⟨map, represents, keyed⟩ := inv.keyed index there
      refine ⟨map, represents, txn_keyed keyed inv.inv ran may fun id rid tuple lands inTable => ?_⟩
      exact (finds_listed represents).mp (keeps index there id rid tuple lands inTable)
  | createIndex indexType rids =>
      simp only [IndexedStore.step, Option.ite_none_right_eq_some, Bool.and_eq_true,
        Option.isNone_iff_eq_none, List.isPerm_iff, Option.bind_eq_bind,
          Option.bind_eq_some_iff] at stepped
      obtain ⟨⟨fresh, perm⟩, empty, made, index, populated, same⟩ := stepped
      obtain rfl := Option.some.inj same
      refine ⟨inv.inv, fun index there => ?_, by simp⟩
      obtain rfl := Option.some.inj there
      obtain ⟨map, represents, keyed⟩ := create_keyed perm (inv.before fresh) keeps made populated
      exact ⟨map, represents, keyed.whole, keyed.slots, keyed.unique, keyed.snapshots,
          keyed.pending, keyed.entering, keyed.apart⟩
  | place id rid tuple =>
      simp only [IndexedStore.step, Option.ite_none_right_eq_some, Option.isNone_iff_eq_none]
        at stepped
      obtain ⟨idle, stepped⟩ := stepped
      obtain ⟨history, ran, rfl⟩ := Option.map_eq_some_iff.mp stepped
      refine ⟨step_inv inv.inv ran, fun index there => ?_, fun fresh => ?_⟩
      · have created : store.index.isSome = true := by
          dsimp only at there
          rw [there]
          rfl
        obtain ⟨map, represents, keyed⟩ := inv.keyed index there
        have keyed' := place_keyed keyed inv.inv ran idle (keeps created)
        refine ⟨map, represents, ?_⟩
        simp only [created, if_true]
        exact keyed'
      · dsimp only at fresh ⊢
        rw [fresh]
        exact inv.before fresh
  | enter id =>
      simp only [IndexedStore.step] at stepped
      split at stepped
      · rename_i rid tuple index entry created
        simp only [Option.bind_eq_bind, Option.bind_eq_some_iff] at stepped
        obtain ⟨⟨inserted, grown⟩, entered, stepped⟩ := stepped
        obtain ⟨map, represents, keyed⟩ := inv.keyed index created
        obtain ⟨numbers, whole, -⟩ := has_key (keyed.entering id rid tuple entry).1
        have room := keeps rid tuple index entry created
        rcases enter_represents represents whole room entered with ⟨rfl, rfl, -⟩ |
          ⟨rfl, absent, stands⟩
        · obtain ⟨history, ran, rfl⟩ := Option.map_eq_some_iff.mp stepped
          refine ⟨step_inv inv.inv ran, fun index there => ?_, inv.before⟩
          obtain rfl := Option.some.inj (created.symm.trans there)
          refine ⟨map, represents, txn_keyed keyed inv.inv ran rfl ?_⟩
          rintro id rid tuple (⟨oid, same⟩ | ⟨requireDeleted, next, same, -⟩)
          · cases same
          · cases same
        · obtain ⟨_, -, rfl⟩ := Option.map_eq_some_iff.mp stepped
          refine ⟨inv.inv, fun now there => ?_, by simp⟩
          obtain rfl := Option.some.inj there
          exact ⟨_, stands, enter_keyed keyed entry absent⟩
      · cases stepped

theorem keys_kept_inv {catalog : TableOid → Schema} (reached : KeysKept catalog table store) :
    IndexInv table store := by
  refine TransitionSystem.reachable_preserves (IndexInv table) ?_ ?_ reached
  · rintro _ rfl
    exact ⟨start_inv catalog, by simp [IndexedStore.start], fun _ _ => rfl⟩
  · rintro before label after inv ⟨keeps, stepped⟩
    exact step_index_inv inv keeps stepped

/-- A transaction that is not about to enter a key finds each row that it sees in the index. -/
theorem sees_listed {txn : Transaction} (keyed : IndexKeyed table store map)
    (live : store.history.Live id txn) (idle : store.entering id = none)
    (there : InTable table store.history rid)
    (sees : store.history.ledger.sees id txn.readTs rid = some tuple) :
    Listed table map rid tuple := by
  unfold Ledger.sees at sees
  cases written : store.history.ledger.pending id rid with
  | none =>
      rw [written, Option.getD_none] at sees
      exact keyed.snapshots rid there _ tuple (Or.inr ⟨id, txn, live, rfl⟩) sees
  | some row =>
      rw [written, Option.getD_some] at sees
      subst sees
      rcases keyed.pending rid there id tuple written with listed | enters
      · exact listed
      · simp [idle] at enters

end Keys

end BusTub
