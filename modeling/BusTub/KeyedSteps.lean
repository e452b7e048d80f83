import BusTub.Aborts
import BusTub.KeyedStatements

/-!
The rows at a RID of the index have the key of its entry, and nobody who is
still running sees a row that is not in the index, but for the one that its own
statement is about to enter. Every step keeps it so.
-/

namespace BusTub

open Function (update)

section Tainted
variable {before after : History} {op : TxnOp} {id : TxnId} {txn : Transaction}
  {rest : List (TableOid × RID)}

def Tainted (history : History) (id : TxnId) : Prop :=
  ∃ txn, history.Live id txn ∧ txn.state = .tainted

theorem throw_tainted (thrown : before.mgr.throwWriteConflict id = some after.mgr) :
    Tainted after id := by
  obtain ⟨txn, ready, same⟩ := Option.bind_eq_some_iff.mp thrown
  split at same
  · have map := congrArg TransactionManager.txnMap (Option.some.inj same)
    refine ⟨{ txn with state := .tainted }, ⟨?_, rfl⟩, rfl⟩
    rw [← map]
    exact TransactionManager.lookup_set_txn
  · cases same

theorem running_verifies (inv : Inv before) {walk : Option VersionWalk}
    (stage : before.mgr.control id = .verifying rest walk) : ¬ Tainted before id := by
  rintro ⟨txn, live, tainted⟩
  obtain ⟨_, record, found, running, _⟩ := verifying_facts inv stage
  obtain rfl := Option.some.inj (live.1.symm.trans found)
  cases tainted.symm.trans running

theorem running_stamps (inv : Inv before) {commitTs : Timestamp}
    (stage : before.mgr.control id = .stamping commitTs rest) : ¬ Tainted before id := by
  rintro ⟨txn, live, tainted⟩
  have call := inv.calls id
  rw [stage] at call
  obtain ⟨_, _, _, record, found, running, _⟩ := call
  obtain rfl := Option.some.inj (live.1.symm.trans found)
  cases tainted.symm.trans running

theorem record_undo_state {mgr : TransactionManager} {slot : Slot} {link : Option UndoLink}
    {target : Option Tuple} :
    (mgr.recordUndo id txn slot link target).1.state = txn.state := by
  unfold TransactionManager.recordUndo
  dsimp only
  split
  · split
    · split
      · split <;> rfl
      · rfl
    · rfl
  · rfl

/-- A tainted transaction stays so until it has been aborted. -/
theorem tainted_step (inv : Inv before) (stepped : before.step op = some after)
    (tainted : Tainted before id) (goesOn : op ≠ .aborted id) : Tainted after id := by
  obtain ⟨txn, live, state⟩ := tainted
  by_cases own : op.actor = some id
  · obtain ⟨mgr, ran, rfl⟩ := Option.map_eq_some_iff.mp stepped
    have hold (txn' : Transaction) (found : mgr.txnMap.lookup id = some txn')
      (same : txn'.state = txn.state) :
      Tainted { before.record op with mgr := mgr } id :=
      ⟨txn', ⟨found, by simp [Transaction.live, same, state]⟩, same.trans state⟩
    have here {record : Transaction} (ready : before.mgr.ready id = some record) : record = txn :=
      Option.some.inj ((TransactionManager.ready_iff.mp ready).1.symm.trans live.1)
    have now : ∃ txn, before.Live id txn ∧ txn.state = .tainted := ⟨txn, live, state⟩
    cases op with
    | begin _ => cases own
    | garbageCollection => cases own
    | scan actor oid predicate =>
        obtain rfl := Option.some.inj own
        obtain ⟨record, ready, same⟩ := Option.bind_eq_some_iff.mp ran
        obtain rfl := here ready
        obtain rfl := Option.some.inj same
        exact hold _ TransactionManager.lookup_set_txn rfl
    | read actor rid =>
        obtain rfl := Option.some.inj own
        obtain ⟨record, ready, same⟩ := Option.bind_eq_some_iff.mp ran
        obtain ⟨slot, _, same⟩ := Option.bind_eq_some_iff.mp same
        split at same
        · obtain rfl := Option.some.inj same
          exact hold _ live.1 rfl
        · obtain rfl := Option.some.inj same
          exact hold _ live.1 rfl
    | fetch actor =>
        obtain rfl := Option.some.inj own
        obtain ⟨record, _, same⟩ := Option.bind_eq_some_iff.mp ran
        split at same
        · split at same
          · obtain rfl := Option.some.inj same
            exact hold _ live.1 rfl
          · split at same
            · obtain rfl := Option.some.inj same
              exact hold _ live.1 rfl
            · obtain rfl := Option.some.inj same
              exact hold _ live.1 rfl
        · cases same
    | insert actor oid rid tuple =>
        obtain rfl := Option.some.inj own
        obtain ⟨record, ready, same⟩ := Option.bind_eq_some_iff.mp ran
        obtain rfl := here ready
        split at same
        · cases same
        · obtain rfl := Option.some.inj same
          exact hold _ TransactionManager.lookup_set_txn rfl
    | modify actor rid target requireDeleted =>
        obtain rfl := Option.some.inj own
        obtain ⟨⟨result, next⟩, modified, rfl⟩ := Option.map_eq_some_iff.mp ran
        obtain ⟨record, slot, ready, found, _, ⟨_, thrown⟩ | ⟨_, recorded, link, made, rest⟩⟩ :=
          modify_cases modified
        · exact throw_tainted thrown
        · obtain rfl := here ready
          have same :
              (before.mgr.recordUndo actor record slot (before.mgr.getUndoLink rid)
              target).1.state =
              record.state := record_undo_state
          rw [made] at same
          rcases rest with ⟨_, rfl⟩ | ⟨_, _, rfl⟩
          · exact hold _ TransactionManager.lookup_set_txn same
          · refine hold (recorded.appendWriteSet slot.oid rid) ?_ same
            rw [(TransactionManager.update_undo_link_rest _).2.1]
            exact TransactionManager.lookup_set_txn
    | throwWriteConflict actor =>
        obtain rfl := Option.some.inj own
        exact throw_tainted ran
    | commit actor =>
        obtain rfl := Option.some.inj own
        obtain ⟨record, ready, same⟩ := Option.bind_eq_some_iff.mp ran
        obtain rfl := here ready
        rw [if_pos (Or.inl (by rw [state]; rintro ⟨⟩))] at same
        cases same
    | verifyRid actor oid rid =>
        obtain rfl := Option.some.inj own
        simp only [TransactionManager.step, TransactionManager.verifyRid] at ran
        split at ran
        · rename_i stage
          exact absurd now (running_verifies inv stage)
        · cases ran
    | verifyVersion actor =>
        obtain rfl := Option.some.inj own
        obtain ⟨record, _, same⟩ := Option.bind_eq_some_iff.mp ran
        split at same
        · rename_i stage
          exact absurd now (running_verifies inv stage)
        · cases same
    | verified actor =>
        obtain rfl := Option.some.inj own
        obtain ⟨record, _, same⟩ := Option.bind_eq_some_iff.mp ran
        split at same
        · rename_i stage
          exact absurd now (running_verifies inv stage)
        · cases same
    | stamp actor oid rid =>
        obtain rfl := Option.some.inj own
        simp only [TransactionManager.step, TransactionManager.stamp] at ran
        split at ran
        · rename_i stage
          exact absurd now (running_stamps inv stage)
        · cases ran
    | publish actor =>
        obtain rfl := Option.some.inj own
        obtain ⟨record, _, same⟩ := Option.bind_eq_some_iff.mp ran
        split at same
        · rename_i stage
          exact absurd now (running_stamps inv stage)
        · cases same
    | abort actor =>
        obtain rfl := Option.some.inj own
        obtain ⟨record, ready, same⟩ := Option.bind_eq_some_iff.mp ran
        obtain rfl := Option.some.inj same
        exact hold _ live.1 rfl
    | rollback actor oid rid =>
        obtain rfl := Option.some.inj own
        obtain ⟨record, _, _, live', _, _, _, _, _, _, map, _⟩ := rollback_step inv stepped
        exact hold txn (map ▸ live.1) rfl
    | aborted actor => exact absurd (by rw [Option.some.inj own]) goesOn
  · exact ⟨txn, (outside_step inv stepped own live).live, state⟩

end Tainted

/-- An entry of the index leads to the RID. -/
def KeyedStore.Indexed (store : KeyedStore) (rid : RID) : Prop :=
  ∃ key, store.index.lookup key = some rid

/-- No slot of another table is at the RID. -/
def Ours (table : TableInfo) (history : History) (rid : RID) : Prop :=
  ∀ slot, history.mgr.heap.lookup rid = some slot → slot.oid = table.oid

/-- What a statement has to do with a RID that it has gathered: the new row has
the key of the entry, if there is one; if not, the transaction wrote the RID itself. -/
def RightKey (table : TableInfo) (store : KeyedStore) (id : TxnId) (rid : RID)
    (target : Option Tuple) : Prop :=
  (store.Indexed rid ∨ (store.history.ledger.pending id rid).isSome) ∧
    ∀ key tuple, store.index.lookup key = some rid → target = some tuple →
      keyFromTuple table.keyAttrs tuple = key

/-- The transaction sees no row at the entry of the key. -/
def Absent (store : KeyedStore) (id : TxnId) (key : Tuple) : Prop :=
  ∀ rid, store.index.lookup key = some rid → ∀ txn, store.history.Live id txn →
    store.history.ledger.sees id txn.readTs rid = none

def StatementInv (table : TableInfo) (store : KeyedStore) (id : TxnId) : Statement → Prop
  | .none | .inserting _ => True
  | .gathering _ rows => ∀ row ∈ rows, RightKey table store id row.1 (some row.2)
  | .modifying updates _ => ∀ update ∈ updates, RightKey table store id update.1 update.2
  | .reviving rid tuple _ => store.index.lookup (keyFromTuple table.keyAttrs tuple) = some rid
  | .placing tuple _ => Absent store id (keyFromTuple table.keyAttrs tuple)
  | .indexing rid tuple _ =>
      Absent store id (keyFromTuple table.keyAttrs tuple) ∧ ¬ store.Indexed rid ∧
        store.history.ledger.pending id rid = some (some tuple) ∧
      ∃ slot, store.history.mgr.heap.lookup rid = some slot ∧ slot.oid = table.oid

/-- A write at a RID that is not in the index: its transaction will not commit, or
the statement is about to enter the key. -/
def Loose (store : KeyedStore) (id : TxnId) (rid : RID) : Prop :=
  Tainted store.history id ∨ ∃ tuple rest, store.statement id = .indexing rid tuple rest

structure KeyBook (table : TableInfo) (store : KeyedStore) : Prop where
  inv : Inv store.history
  indexed : ∀ key rid, store.index.lookup key = some rid →
    (∃ slot, store.history.mgr.heap.lookup rid = some slot ∧ slot.oid = table.oid) ∧
      ∀ tuple, RowAt store.history rid tuple → keyFromTuple table.keyAttrs tuple = key
  unique : ∀ key other rid, store.index.lookup key = some rid →
    store.index.lookup other = some rid → key = other
  uncommitted : ∀ rid, Ours table store.history rid → ¬ store.Indexed rid →
    store.history.ledger.committed rid = []
  loose : ∀ rid, Ours table store.history rid → ¬ store.Indexed rid → ∀ id,
    (store.history.ledger.pending id rid).isSome → Loose store id rid
  live : ∀ id, store.statement id ≠ .none → ∃ txn, store.history.Live id txn
  statements : ∀ id, StatementInv table store id (store.statement id)

/-- The same before any collection. -/
structure KeyInv (table : TableInfo) (store : KeyedStore) : Prop extends KeyBook table store where
  young : store.history.horizon = -1

section Steps
variable {table : TableInfo} {store : KeyedStore} {history : History} {op : TxnOp} {id : TxnId}
  {rid : RID} {statement : TxnId → Statement} {after : KeyedStore} {tuple : Tuple} {now : Statement}
  {label : KeyedOp} {rest : List Tuple} {rows : List (RID × Tuple)}

theorem ours_before (inv : Inv store.history) (stepped : store.history.step op = some history)
    (ours : Ours table history rid) : Ours table store.history rid := by
  intro slot found
  obtain ⟨slot', now, same⟩ := tables_step inv stepped rid slot found
  exact same.symm.trans (ours slot' now)

/-- A statement waits where it is while another transaction takes a step. -/
theorem statement_waits (inv : Inv store.history) (stepped : store.history.step op = some history)
    (other : op.actor ≠ some id) {waiting : Statement}
    (live : waiting ≠ .none → ∃ txn, store.history.Live id txn)
    (now : StatementInv table store id waiting) :
    StatementInv table { store with history := history, statement := statement } id waiting := by
  have right {rid : RID} {target : Option Tuple} (right : RightKey table store id rid target) :
      RightKey table { store with history := history, statement := statement } id rid target := by
    refine ⟨?_, right.2⟩
    dsimp only
    rw [pending_others stepped other]
    exact right.1
  have unseen {key : Tuple} (live : ∃ txn, store.history.Live id txn)
    (unseen : Absent store id key) :
    Absent { store with history := history, statement := statement } id key := by
    intro rid found txn' live'
    obtain ⟨txn, live⟩ := live
    obtain ⟨ids, clock⟩ := inv.clock
    have outside := outside_step inv stepped other live
    obtain rfl : txn = txn' := Option.some.inj (outside.live.1.symm.trans live'.1)
    have same := unseen rid found txn live
    dsimp only
    rw [Ledger.sees, outside.pending, outside.committedAt _ _ (clock.readTs id txn live).2.2]
    exact same
  cases waiting with
  | none => trivial
  | inserting tuples => trivial
  | gathering target rows => exact fun row member => right (now row member)
  | modifying updates inserts => exact fun update member => right (now update member)
  | reviving rid tuple rest => exact now
  | placing tuple rest => exact unseen (live (by rintro ⟨⟩)) now
  | indexing rid tuple rest =>
      obtain ⟨here, fresh, written, slot, found, sameTable⟩ := now
      refine ⟨unseen (live (by rintro ⟨⟩)) here, fresh,
        (pending_others stepped other rid).trans written, ?_⟩
      obtain ⟨slot', now, same⟩ := tables_step inv stepped rid slot found
      exact ⟨slot', now, same.trans sameTable⟩

/-- What the one who takes a step has to see to. -/
structure OwnStep (table : TableInfo) (store : KeyedStore) (history : History)
    (statement : TxnId → Statement) (id : TxnId) : Prop where
  loose : ∀ rid, Ours table history rid → ¬ store.Indexed rid →
    (history.ledger.pending id rid).isSome → Tainted history id ∨
      ∃ tuple rest, statement id = .indexing rid tuple rest
  live : statement id ≠ .none → ∃ txn, history.Live id txn
  statement : StatementInv table { store with history := history, statement := statement } id
    (statement id)

/-- A step of the transaction manager that enters nothing into the index. -/
theorem acted_inv (inv : KeyBook table store) (stepped : store.history.step op = some history)
    (others : ∀ id, op.actor ≠ some id → statement id = store.statement id)
    (rows : ∀ rid tuple key, op.writes rid tuple → store.index.lookup key = some rid →
      keyFromTuple table.keyAttrs tuple = key)
    (uncommitted : ∀ rid, Ours table store.history rid → ¬ store.Indexed rid →
      ∀ id, op = .publish id → store.history.ledger.pending id rid = none)
    (own : ∀ id, op.actor = some id → OwnStep table store history statement id) :
    KeyBook table { store with history := history, statement := statement } := by
  have later := step_inv inv.inv stepped
  refine ⟨later, ?_, inv.unique, ?_, ?_, ?_, ?_⟩
  · intro key rid found
    obtain ⟨⟨slot, here, sameTable⟩, right⟩ := inv.indexed key rid found
    obtain ⟨slot', now, same⟩ := tables_step inv.inv stepped rid slot here
    refine ⟨⟨slot', now, same.trans sameTable⟩, fun tuple row => ?_⟩
    rcases rows_step stepped row with old | writes
    · exact right tuple old
    · exact rows rid tuple key writes found
  · intro rid ours fresh
    have ours' := ours_before inv.inv stepped ours
    have nothing := inv.uncommitted rid ours' fresh
    have booked := step_booked stepped
    dsimp only
    generalize history.ledger = ledger at booked
    cases booked with
    | publish actor readTs commitTs =>
        rw [committed_publish_none (uncommitted rid ours' fresh actor rfl)]
        exact nothing
    | _ => exact nothing
  · intro rid ours fresh id written
    by_cases mine : op.actor = some id
    · exact (own id mine).loose rid ours fresh written
    · dsimp only at written
      rw [pending_others stepped mine] at written
      rcases inv.loose rid (ours_before inv.inv stepped ours) fresh id written with tainted | waits
      · refine Or.inl (tainted_step inv.inv stepped tainted ?_)
        rintro rfl
        exact mine rfl
      · obtain ⟨tuple, rest, stage⟩ := waits
        exact Or.inr ⟨tuple, rest, (others id mine).trans stage⟩
  · intro id busy
    by_cases mine : op.actor = some id
    · exact (own id mine).live busy
    · dsimp only at busy
      rw [others id mine] at busy
      obtain ⟨txn, live⟩ := inv.live id busy
      exact ⟨txn, (outside_step inv.inv stepped mine live).live⟩
  · intro id
    by_cases mine : op.actor = some id
    · exact (own id mine).statement
    · dsimp only
      rw [others id mine]
      exact statement_waits inv.inv stepped mine (inv.live id) (inv.statements id)

theorem inserted_slot {before after : History} {oid : TableOid}
    (stepped : before.step (.insert id oid rid tuple) = some after) :
    before.mgr.heap.lookup rid = none ∧ ∃ slot, after.mgr.heap.lookup rid = some slot ∧
      slot.oid = oid := by
  obtain ⟨mgr, ran, rfl⟩ := Option.map_eq_some_iff.mp stepped
  obtain ⟨record, ready, same⟩ := Option.bind_eq_some_iff.mp ran
  split at same
  · cases same
  · rename_i allowed
    obtain rfl := Option.some.inj same
    exact ⟨by simpa using (not_or.mp allowed).1, _, AList.lookup_insert _, rfl⟩

/-- A row of another table is not at a RID of the index. -/
theorem foreign_rows (inv : KeyBook table store) (stepped : store.history.step op = some history)
    (may : store.mayTake table op = true) {tuple key : Tuple} (writes : op.writes rid tuple)
    (found : store.index.lookup key = some rid) : keyFromTuple table.keyAttrs tuple = key := by
  obtain ⟨⟨slot, here, sameTable⟩, _⟩ := inv.indexed key rid found
  rcases writes with ⟨id, oid, rfl⟩ | ⟨id, requireDeleted, rfl⟩
  · cases (inserted_slot stepped).1.symm.trans here
  · simp [KeyedStore.mayTake, here, sameTable] at may

/-- Who commits has left no row outside the index. -/
theorem publisher_tidy (inv : KeyBook table store)
    (stepped : store.history.step (.publish id) = some history)
    (between : store.statement id = .none) (ours : Ours table store.history rid)
    (fresh : ¬ store.Indexed rid) :
    store.history.ledger.pending id rid = none := by
  by_contra written
  rcases inv.loose rid ours fresh id (Option.isSome_iff_ne_none.mpr written) with tainted |
    ⟨tuple, rest, stage⟩
  · obtain ⟨_, _, _, published⟩ := published_step inv.inv stepped
    exact running_stamps inv.inv published.stage tainted
  · cases between.symm.trans stage

theorem between_iff : (now matches .none) = true ↔ now = .none := by
  cases now <;> simp

/-- Who takes a step outside the writes of statements is between two of them, or reads for one. -/
theorem may_take_between (may : store.mayTake table op = true) (acts : op.actor = some id) :
    store.statement id = .none ∨
      ((∃ target rows, store.statement id = .gathering target rows) ∧
        ((∃ oid predicate, op = .scan id oid predicate) ∨ (∃ rid, op = .read id rid) ∨
        op = .fetch id)) := by
  cases op with
  | begin _ => cases acts
  | garbageCollection => cases acts
  | scan actor oid predicate =>
      obtain rfl := Option.some.inj acts
      cases now : store.statement actor <;> simp [KeyedStore.mayTake, now] at may <;> simp
  | read actor rid =>
      obtain rfl := Option.some.inj acts
      cases now : store.statement actor <;> simp [KeyedStore.mayTake, now] at may <;> simp
  | fetch actor =>
      obtain rfl := Option.some.inj acts
      cases now : store.statement actor <;> simp [KeyedStore.mayTake, now] at may <;> simp
  | insert actor oid rid tuple =>
      obtain rfl := Option.some.inj acts
      exact Or.inl (between_iff.mp (Bool.and_eq_true_iff.mp may).2)
  | modify actor rid target requireDeleted =>
      obtain rfl := Option.some.inj acts
      exact Or.inl (between_iff.mp (Bool.and_eq_true_iff.mp may).2)
  | _ =>
      obtain rfl := Option.some.inj acts
      exact Or.inl (between_iff.mp may)

theorem reads_ledger (stepped : store.history.step op = some history)
    (reads : (∃ oid predicate, op = .scan id oid predicate) ∨ (∃ rid, op = .read id rid) ∨
      op = .fetch id) :
    history.ledger = store.history.ledger ∧ op.within = some id := by
  obtain ⟨mgr, ran, rfl⟩ := Option.map_eq_some_iff.mp stepped
  rcases reads with ⟨oid, predicate, rfl⟩ | ⟨rid, rfl⟩ | rfl
  · exact ⟨rfl, rfl⟩
  · exact ⟨rfl, rfl⟩
  · exact ⟨rfl, rfl⟩

/-- Between the writes of its statements a transaction leaves no row outside the index. -/
theorem txn_loose (inv : KeyBook table store) (stepped : store.history.step op = some history)
    (may : store.mayTake table op = true) (acts : op.actor = some id)
    (ours : Ours table history rid) (fresh : ¬ store.Indexed rid)
    (written : (history.ledger.pending id rid).isSome) :
    Tainted history id := by
  have ours' := ours_before inv.inv stepped ours
  rcases pending_own stepped written with old | ⟨oid, tuple, rfl⟩ | ⟨target, requireDeleted, rfl⟩
  · rcases inv.loose rid ours' fresh id old with tainted | ⟨tuple, rest, stage⟩
    · refine tainted_step inv.inv stepped tainted ?_
      rintro rfl
      obtain ⟨_, aborted⟩ := aborted_step inv.inv stepped
      rw [aborted.nothing rid] at old
      cases old
    · rcases may_take_between may acts with between | ⟨⟨_, _, gathering⟩, _⟩
      · cases between.symm.trans stage
      · cases gathering.symm.trans stage
  · obtain ⟨_, slot, found, same⟩ := inserted_slot stepped
    have elsewhere : oid ≠ table.oid := of_decide_eq_true (Bool.and_eq_true_iff.mp may).1
    exact absurd (same.symm.trans (ours slot found)) elsewhere
  · obtain ⟨slot, found, elsewhere⟩ := (Option.any_eq_true _ _).mp (Bool.and_eq_true_iff.mp may).1
    exact absurd (ours' slot found) (of_decide_eq_true elsewhere)

theorem txn_inv (inv : KeyBook table store) (stepped : store.history.step op = some history)
    (may : store.mayTake table op = true) : KeyBook table { store with history := history } := by
  refine acted_inv inv stepped (fun _ _ => rfl) (fun rid tuple key =>
    foreign_rows inv stepped may) ?_ ?_
  · rintro rid ours fresh id rfl
    exact publisher_tidy inv stepped (between_iff.mp may) ours fresh
  · intro id acts
    refine ⟨fun rid ours fresh written =>
      Or.inl (txn_loose inv stepped may acts ours fresh written), ?_, ?_⟩
    · intro busy
      rcases may_take_between may acts with between | ⟨_, reads⟩
      · exact absurd between busy
      · obtain ⟨_, _, _, live, _⟩ :=
          (within_moved inv.inv stepped (reads_ledger stepped reads).2).own
        exact ⟨_, live⟩
    · have now := inv.statements id
      rcases may_take_between may acts with between | ⟨⟨target, rows, stage⟩, reads⟩
      · rw [between]
        trivial
      · rw [stage] at now ⊢
        intro row member
        obtain ⟨known, right⟩ := now row member
        refine ⟨?_, right⟩
        dsimp only
        rw [(reads_ledger stepped reads).1]
        exact known

theorem statement_set (now : Statement) : (store.setStatement id now).statement id = now :=
  Function.update_self _ _ _

theorem statement_set_other {other : TxnId} (different : other ≠ id) :
    (store.setStatement id now).statement other = store.statement other :=
  Function.update_of_ne different _ _

/-- A statement goes on and nothing else happens. -/
theorem statement_inv (inv : KeyBook table store)
    (leaves : ∀ rid tuple rest, store.statement id ≠ .indexing rid tuple rest)
    (live : now ≠ .none → ∃ txn, store.history.Live id txn)
    (next : StatementInv table store id now) :
    KeyBook table (store.setStatement id now) := by
  refine ⟨inv.inv, inv.indexed, inv.unique, inv.uncommitted, ?_, ?_, ?_⟩
  · intro rid ours fresh other written
    rcases inv.loose rid ours fresh other written with tainted | ⟨tuple, rest, stage⟩
    · exact Or.inl tainted
    · have different : other ≠ id := by
        rintro rfl
        exact leaves rid tuple rest stage
      exact Or.inr ⟨tuple, rest, (Function.update_of_ne different _ _).trans stage⟩
  · intro other busy
    by_cases same : other = id
    · subst same
      refine live ?_
      rwa [statement_set] at busy
    · refine inv.live other ?_
      rwa [statement_set_other same] at busy
  · intro other
    by_cases same : other = id
    · subst same
      rw [statement_set]
      exact next
    · rw [statement_set_other same]
      exact inv.statements other

theorem next_busy (tuples : List Tuple) : StatementInv table store id (.next tuples) := by
  cases tuples <;> trivial

theorem act_some (acted : store.act op id now = some after) :
    ∃ history, store.history.step op = some history ∧
      after = { store with history := history, statement := update store.statement id now } := by
  obtain ⟨history, stepped, rfl⟩ := Option.map_eq_some_iff.mp acted
  exact ⟨history, stepped, rfl⟩

/-- A refused statement ends, and its transaction is tainted. -/
theorem refused_inv (inv : KeyBook table store)
    (acted : store.act (.throwWriteConflict id) id .none = some after) : KeyBook table after := by
  obtain ⟨history, stepped, rfl⟩ := act_some acted
  have tainted : Tainted history id := by
    obtain ⟨mgr, ran, rfl⟩ := Option.map_eq_some_iff.mp stepped
    exact throw_tainted ran
  refine acted_inv inv stepped ?_ ?_ (by rintro rid _ _ other ⟨⟩) ?_
  · intro other different
    exact Function.update_of_ne (fun same => different (congrArg some same.symm)) _ _
  · rintro rid tuple key (⟨_, _, ⟨⟩⟩ | ⟨_, _, ⟨⟩⟩)
  · rintro other ⟨⟩
    refine ⟨fun rid ours fresh written => Or.inl tainted, fun busy => ?_, ?_⟩
    · exact absurd (Function.update_self _ _ _) busy
    · rw [Function.update_self]
      trivial

/-- A call of `ModifyTuple` on a row that has the right key. -/
theorem modify_inv {target : Option Tuple} {requireDeleted : Bool} {next : Statement}
    (inv : KeyBook table store) (right : RightKey table store id rid target)
    (stage : ∀ rid tuple rest, store.statement id ≠ .indexing rid tuple rest)
    (modified : store.modify id rid target requireDeleted next = some after)
    (later : ∀ history statement, store.history.step (.modify id rid target requireDeleted) =
      some history →
        StatementInv table { store with history := history, statement := statement } id next) :
    KeyBook table after := by
  obtain ⟨⟨result, mgr⟩, _, acted⟩ := Option.bind_eq_some_iff.mp modified
  obtain ⟨history, stepped, rfl⟩ := act_some acted
  have live : ∃ txn, history.Live id txn := by
    obtain ⟨_, _, _, live, _⟩ := (within_moved inv.inv stepped rfl).own
    exact ⟨_, live⟩
  refine acted_inv inv stepped ?_ ?_ (by rintro rid _ _ other ⟨⟩) ?_
  · intro other different
    exact Function.update_of_ne (fun same => different (congrArg some same.symm)) _ _
  · rintro place tuple key (⟨_, _, ⟨⟩⟩ | ⟨_, _, ⟨⟩⟩) found
    exact right.2 key tuple found rfl
  · rintro other ⟨⟩
    refine ⟨?_, fun _ => live, ?_⟩
    · intro place ours fresh written
      -- only a tainted transaction has written outside the index before
      have old : (store.history.ledger.pending id place).isSome := by
        rcases pending_own stepped written with old | ⟨_, _, ⟨⟩⟩ | ⟨_, _, ⟨⟩⟩
        · exact old
        · exact right.1.resolve_left fresh
      rcases inv.loose place (ours_before inv.inv stepped ours) fresh id old with tainted |
        ⟨tuple, rest, now⟩
      · exact Or.inl (tainted_step inv.inv stepped tainted (by rintro ⟨⟩))
      · exact absurd now (stage place tuple rest)
    · rw [Function.update_self]
      split
      · exact later history _ stepped
      · trivial

/-- The tuple goes into the table heap; its key comes next. -/
theorem place_inv (inv : KeyBook table store) (stage : store.statement id = .placing tuple rest)
    (acted : store.act (.insert id table.oid rid tuple) id (.indexing rid tuple rest) =
      some after) :
    KeyBook table after := by
  obtain ⟨history, stepped, rfl⟩ := act_some acted
  obtain ⟨vacant, slot, found, sameTable⟩ := inserted_slot stepped
  have fresh : ¬ store.Indexed rid := by
    rintro ⟨key, entry⟩
    obtain ⟨⟨slot, here, _⟩, _⟩ := inv.indexed key rid entry
    cases vacant.symm.trans here
  have moved := within_moved inv.inv stepped rfl
  obtain ⟨txn, txn', was, live, readTs, _⟩ := moved.own
  have ledger : history.ledger = store.history.ledger.write id rid (some tuple) := by
    obtain ⟨mgr, _, rfl⟩ := Option.map_eq_some_iff.mp stepped
    rfl
  refine acted_inv inv stepped ?_ ?_ (by rintro rid _ _ other ⟨⟩) ?_
  · intro other different
    exact Function.update_of_ne (fun same => different (congrArg some same.symm)) _ _
  · rintro place new key (⟨_, _, ⟨⟩⟩ | ⟨_, _, ⟨⟩⟩) entry
    exact absurd ⟨key, entry⟩ fresh
  · rintro other ⟨⟩
    refine ⟨?_, fun _ => ⟨txn', live⟩, ?_⟩
    · intro place ours unindexed written
      rcases pending_own stepped written with old | ⟨_, _, ⟨⟩⟩ | ⟨_, _, ⟨⟩⟩
      · rcases inv.loose place (ours_before inv.inv stepped ours) unindexed id old with tainted |
          ⟨_, _, now⟩
        · exact Or.inl (tainted_step inv.inv stepped tainted (by rintro ⟨⟩))
        · cases stage.symm.trans now
      · exact Or.inr ⟨tuple, rest, Function.update_self _ _ _⟩
    · rw [Function.update_self]
      have absent := inv.statements id
      rw [stage] at absent
      refine ⟨?_, fresh, ?_, slot, found, sameTable⟩
      · intro place entry record live'
        obtain rfl : txn' = record := Option.some.inj (live.1.symm.trans live'.1)
        have elsewhere : place ≠ rid := by
          rintro rfl
          exact fresh ⟨_, entry⟩
        have nothing := absent place entry txn was
        dsimp only
        rw [readTs, Ledger.sees, ledger, pending_write_other (Or.inr elsewhere)]
        exact nothing
      · dsimp only
        rw [ledger]
        exact pending_write_self

/-- The key goes into the index; the row written there is the only one. -/
theorem entered_inv (inv : KeyBook table store)
    (stage : store.statement id = .indexing rid tuple rest)
    (absent : store.index.lookup (keyFromTuple table.keyAttrs tuple) = none) :
    KeyBook table
      ({ store with
        index := store.index.insert (keyFromTuple table.keyAttrs tuple) rid }.setStatement id
      (.next rest)) := by
  obtain ⟨_, fresh, written, slot, found, sameTable⟩ := stage ▸ inv.statements id
  have alone (other : TxnId) (different : other ≠ id) : store.history.ledger.pending other rid =
      none := by
    cases inv.inv.store.slot rid slot found with
    | settled _ _ free => exact free other
    | owned owner _ _ _ _ owned alone =>
        have same : id = owner := by
          by_contra apart
          cases (alone id apart).symm.trans written
        exact alone other (same ▸ different)
  have empty : store.history.ledger.committed rid = [] := by
    refine inv.uncommitted rid (fun slot' here => ?_) fresh
    obtain rfl := Option.some.inj (found.symm.trans here)
    exact sameTable
  -- an entry is the new one or an old one at another RID
  have entry {key : Tuple} {place : RID}
    (here : (store.index.insert (keyFromTuple table.keyAttrs tuple) rid).lookup key =
      some place) :
    (key = keyFromTuple table.keyAttrs tuple ∧ place = rid) ∨
      store.index.lookup key = some place := by
    by_cases same : key = keyFromTuple table.keyAttrs tuple
    · subst same
      rw [AList.lookup_insert] at here
      exact Or.inl ⟨rfl, (Option.some.inj here).symm⟩
    · rw [AList.lookup_insert_ne same] at here
      exact Or.inr here
  have kept {key : Tuple} {place : RID} (here : store.index.lookup key = some place) :
      (store.index.insert (keyFromTuple table.keyAttrs tuple) rid).lookup key = some place := by
    rw [AList.lookup_insert_ne]
    · exact here
    · rintro rfl
      cases absent.symm.trans here
  have unindexed {place : RID}
    (loose :
      ¬ ({ store with
        index := store.index.insert (keyFromTuple table.keyAttrs tuple) rid }.setStatement id
      (.next rest)).Indexed place) : ¬ store.Indexed place ∧ place ≠ rid := by
    constructor
    · rintro ⟨key, here⟩
      exact loose ⟨key, kept here⟩
    · rintro rfl
      exact loose ⟨_, AList.lookup_insert _⟩
  have right {other : TxnId} (apart : ∀ rid tuple rest,
      store.statement other ≠ .indexing rid tuple rest)
      {place : RID} {target : Option Tuple} (was : RightKey table store other place target) :
      RightKey table
        ({ store with
          index := store.index.insert (keyFromTuple table.keyAttrs tuple) rid }.setStatement id
        (.next rest)) other place target := by
    refine ⟨was.1.imp_left fun ⟨key, here⟩ => ⟨key, kept here⟩, fun key new here same => ?_⟩
    rcases entry here with ⟨_, rfl⟩ | old
    · -- nobody else knows the RID
      exfalso
      have different : other ≠ id := by
        rintro rfl
        exact apart _ _ _ stage
      rcases was.1 with indexed | wrote
      · exact fresh indexed
      · rw [alone other different] at wrote
        cases wrote
    · exact was.2 key new old same
  have hidden {other : TxnId} (different : other ≠ id) {key : Tuple}
    (was : Absent store other key) :
    Absent ({ store with
      index := store.index.insert (keyFromTuple table.keyAttrs tuple) rid }.setStatement id
      (.next rest)) other key := by
    intro place here txn live
    rcases entry here with ⟨_, rfl⟩ | old
    · change store.history.ledger.sees other txn.readTs place = none
      rw [Ledger.sees, alone other different, Option.getD_none, Ledger.committedAt, empty]
      rfl
    · exact was place old txn live
  refine ⟨inv.inv, ?_, ?_, ?_, ?_, ?_, ?_⟩
  · intro key place here
    rcases entry here with ⟨rfl, rfl⟩ | old
    · refine ⟨⟨slot, found, sameTable⟩, ?_⟩
      rintro new (⟨version, member, _⟩ | ⟨other, pending⟩)
      · change version ∈ store.history.ledger.committed place at member
        rw [empty] at member
        cases member
      · by_cases same : other = id
        · subst same
          obtain rfl : tuple = new := Option.some.inj (Option.some.inj (written.symm.trans pending))
          rfl
        · cases (alone other same).symm.trans pending
    · exact inv.indexed key place old
  · intro key other place here there
    rcases entry here with ⟨rfl, rfl⟩ | old
    · rcases entry there with ⟨rfl, _⟩ | old'
      · rfl
      · exact absurd ⟨other, old'⟩ fresh
    · rcases entry there with ⟨_, rfl⟩ | old'
      · exact absurd ⟨key, old⟩ fresh
      · exact inv.unique key other place old old'
  · intro place ours loose
    exact inv.uncommitted place ours (unindexed loose).1
  · intro place ours loose other pending
    rcases inv.loose place ours (unindexed loose).1 other pending with tainted | ⟨new, others, now⟩
    · exact Or.inl tainted
    · have different : other ≠ id := by
        rintro rfl
        cases stage.symm.trans now
        exact (unindexed loose).2 rfl
      exact Or.inr ⟨new, others, (statement_set_other different).trans now⟩
  · intro other busy
    by_cases same : other = id
    · subst same
      exact inv.live other (by rw [stage]; rintro ⟨⟩)
    · refine inv.live other ?_
      rwa [statement_set_other same] at busy
  · intro other
    by_cases same : other = id
    · subst same
      rw [statement_set]
      exact next_busy rest
    · rw [statement_set_other same]
      have now := inv.statements other
      dsimp only
      cases waits : store.statement other with
      | none => trivial
      | inserting tuples => trivial
      | gathering target rows =>
          rw [waits] at now
          exact fun row member => right (by simp [waits]) (now row member)
      | modifying updates inserts =>
          rw [waits] at now
          exact fun update member => right (by simp [waits]) (now update member)
      | reviving place new others =>
          rw [waits] at now
          exact kept now
      | placing new others =>
          rw [waits] at now
          exact hidden same now
      | indexing place new others =>
          rw [waits] at now
          obtain ⟨was, loose, pending, there⟩ := now
          refine ⟨hidden same was, ?_, pending, there⟩
          rintro ⟨key, here⟩
          rcases entry here with ⟨_, rfl⟩ | old
          · cases (alone other same).symm.trans pending
          · exact loose ⟨key, old⟩

/-- A row that the child yields has the key of its entry, or the transaction wrote it itself. -/
theorem gathered_right (inv : KeyBook table store)
    (returned : store.history.mgr.control id = .returned rid (some tuple))
    (here : (store.history.mgr.heap.lookup rid).any (fun slot => slot.oid = table.oid) = true) :
    RightKey table store id rid (some tuple) := by
  have call := inv.inv.calls id
  rw [returned] at call
  obtain ⟨txn, live, sees⟩ := call
  refine ⟨?_, ?_⟩
  · by_cases indexed : store.Indexed rid
    · exact Or.inl indexed
    · refine Or.inr ?_
      obtain ⟨slot, found, sameTable⟩ := (Option.any_eq_true _ _).mp here
      have empty : store.history.ledger.committed rid = [] := by
        refine inv.uncommitted rid (fun slot' there => ?_) indexed
        obtain rfl := Option.some.inj (found.symm.trans there)
        exact of_decide_eq_true sameTable
      cases written : store.history.ledger.pending id rid with
      | some row => rfl
      | none =>
          rw [Ledger.sees, written, Option.getD_none, Ledger.committedAt, empty] at sees
          cases sees
  · rintro key new entry ⟨⟩
    exact (inv.indexed key rid entry).2 tuple (sees_row sees.symm)

theorem moved_mem {target : Tuple → Tuple} {row : RID × Tuple} (member : row ∈ rows)
    (stays : KeyedStore.moved table target rows row.1 = false) :
    keyFromTuple table.keyAttrs row.2 = keyFromTuple table.keyAttrs (target row.2) := by
  have each := List.any_eq_false.mp stays row member
  simpa using each

/-- The new rows of an UPDATE keep their keys where they keep their RIDs. -/
theorem writes_right {target : Option (Tuple → Tuple)}
    (right : ∀ row ∈ rows, RightKey table store id row.1 (some row.2)) :
    StatementInv table store id (KeyedStore.writes table target rows) := by
  cases target with
  | none =>
      intro update member
      obtain ⟨row, inside, rfl⟩ := List.mem_map.mp member
      exact ⟨(right row inside).1, by rintro key tuple _ ⟨⟩⟩
  | some target =>
      intro update member
      obtain ⟨row, inside, rfl⟩ := List.mem_map.mp member
      refine ⟨(right row inside).1, fun key tuple entry same => ?_⟩
      dsimp only at same entry
      split at same
      · cases same
      · rename_i stays
        obtain rfl := Option.some.inj same
        rw [← moved_mem inside (Bool.eq_false_iff.mpr stays)]
        exact (right row inside).2 key row.2 entry rfl

theorem step_key_book (inv : KeyBook table store)
    (stepped : store.step table label = some after) : KeyBook table after := by
  have ready {id : TxnId} {now : Statement} (begins : (store.history.mgr.ready id).map
      (fun _ => store.setStatement id now) = some after) :
      (∃ txn, store.history.Live id txn) ∧ after = store.setStatement id now := by
    obtain ⟨txn, ready, rfl⟩ := Option.map_eq_some_iff.mp begins
    obtain ⟨found, live, _⟩ := TransactionManager.ready_iff.mp ready
    exact ⟨⟨txn, found, live⟩, rfl⟩
  cases label with
  | txn op =>
      simp only [KeyedStore.step] at stepped
      split at stepped
      · rename_i may
        obtain ⟨history, moved, rfl⟩ := Option.map_eq_some_iff.mp stepped
        exact txn_inv inv moved may
      · cases stepped
  | insertRows id tuples =>
      simp only [KeyedStore.step] at stepped
      split at stepped
      · rename_i none
        obtain ⟨live, rfl⟩ := ready stepped
        exact statement_inv inv (by simp [none]) (fun _ => live) (next_busy tuples)
      · cases stepped
  | updateRows id target =>
      simp only [KeyedStore.step] at stepped
      split at stepped
      · rename_i none
        obtain ⟨live, rfl⟩ := ready stepped
        exact statement_inv inv (by simp [none]) (fun _ => live) (by rintro row ⟨⟩)
      · cases stepped
  | deleteRows id =>
      simp only [KeyedStore.step] at stepped
      split at stepped
      · rename_i none
        obtain ⟨live, rfl⟩ := ready stepped
        exact statement_inv inv (by simp [none]) (fun _ => live) (by rintro row ⟨⟩)
      · cases stepped
  | gather id =>
      simp only [KeyedStore.step] at stepped
      split at stepped
      · rename_i target rows rid tuple stage returned
        split at stepped
        · rename_i here
          obtain rfl := Option.some.inj stepped
          refine statement_inv inv (by simp [stage]) (fun _ => inv.live id (by simp [stage])) ?_
          have now := inv.statements id
          rw [stage] at now
          intro row member
          rcases List.mem_append.mp member with old | new
          · exact now row old
          · obtain rfl := List.mem_singleton.mp new
            exact gathered_right inv returned here
        · cases stepped
      · cases stepped
  | gathered id =>
      simp only [KeyedStore.step] at stepped
      split at stepped
      · rename_i target rows stage
        obtain rfl := Option.some.inj stepped
        have now := inv.statements id
        rw [stage] at now
        exact statement_inv inv (by simp [stage]) (fun _ => inv.live id (by simp [stage]))
          (writes_right now)
      · cases stepped
  | modifyNext id =>
      simp only [KeyedStore.step] at stepped
      split at stepped
      · rename_i inserts stage
        obtain rfl := Option.some.inj stepped
        exact statement_inv inv (by simp [stage]) (fun _ => inv.live id (by simp [stage]))
          (next_busy inserts)
      · rename_i rid target rest inserts stage
        have now := inv.statements id
        rw [stage] at now
        refine modify_inv inv (now (rid, target) List.mem_cons_self) (by simp [stage]) stepped ?_
        intro history statement moved update member
        obtain ⟨known, right⟩ := now update (List.mem_cons_of_mem _ member)
        refine ⟨known.imp_right fun written => ?_, right⟩
        have kept : history.ledger.pending id update.1 ≠ none := by
          intro lost
          rcases pending_lost moved written lost with ⟨_, same⟩ | same
          · cases same
          · cases same
        exact Option.isSome_iff_ne_none.mpr kept
      · cases stepped
  | scanKey id =>
      simp only [KeyedStore.step] at stepped
      split at stepped
      · rename_i tuple rest stage
        obtain rfl := Option.some.inj stepped
        refine statement_inv inv (by simp [stage]) (fun _ => inv.live id (by simp [stage])) ?_
        cases entry : store.index.lookup (keyFromTuple table.keyAttrs tuple) with
        | some rid => exact entry
        | none =>
            intro rid found
            cases entry.symm.trans found
      · cases stepped
  | revive id =>
      simp only [KeyedStore.step] at stepped
      split at stepped
      · rename_i rid tuple rest stage
        have now := inv.statements id
        rw [stage] at now
        refine modify_inv inv ⟨Or.inl ⟨_, now⟩, ?_⟩ (by simp [stage]) stepped fun _ _ _ =>
          next_busy rest
        rintro key new entry ⟨⟩
        exact inv.unique _ _ rid now entry
      · cases stepped
  | place id rid =>
      simp only [KeyedStore.step] at stepped
      split at stepped
      · rename_i stage
        exact place_inv inv stage stepped
      · cases stepped
  | noRoom id =>
      simp only [KeyedStore.step] at stepped
      split at stepped
      · exact refused_inv inv stepped
      · cases stepped
  | insertEntry id =>
      simp only [KeyedStore.step] at stepped
      split at stepped
      · rename_i stage
        split at stepped
        · exact refused_inv inv stepped
        · rename_i absent
          obtain rfl := Option.some.inj stepped
          exact entered_inv inv stage (by simpa using absent)
      · cases stepped

/-- A collection changes no row, no entry and no statement. -/
theorem collected_book (inv : KeyBook table store)
    (stepped : store.history.step .garbageCollection = some history) :
    KeyBook table { store with history := history } := by
  refine acted_inv inv stepped (fun _ _ => rfl) ?_ (by rintro rid _ _ other ⟨⟩) (by rintro id ⟨⟩)
  rintro rid tuple key (⟨_, _, impossible⟩ | ⟨_, _, impossible⟩) <;> cases impossible

/-- A step is one of the transaction manager, and no collection, or one that leaves the store
alone. -/
theorem keyed_history (stepped : store.step table label = some after) :
    after.history = store.history ∨ ∃ op, op ≠ .garbageCollection ∧
      store.history.step op = some after.history := by
  have acts {op : TxnOp} {id : TxnId} {now : Statement} (keeps : op ≠ .garbageCollection)
    (acted : store.act op id now = some after) :
    ∃ op, op ≠ .garbageCollection ∧ store.history.step op = some after.history := by
    obtain ⟨history, moved, rfl⟩ := act_some acted
    exact ⟨op, keeps, moved⟩
  have modifies {id : TxnId} {place : RID} {target : Option Tuple} {requireDeleted : Bool}
    {next : Statement}
    (modified : store.modify id place target requireDeleted next = some after) :
    ∃ op, op ≠ .garbageCollection ∧ store.history.step op = some after.history := by
    obtain ⟨_, _, acted⟩ := Option.bind_eq_some_iff.mp modified
    exact acts (by rintro ⟨⟩) acted
  have sets {id : TxnId} {now : Statement} (same : store.setStatement id now = after) :
      after.history = store.history := by
    rw [← same]
    rfl
  cases label with
  | txn op =>
      simp only [KeyedStore.step, Option.ite_none_right_eq_some] at stepped
      obtain ⟨history, moved, rfl⟩ := Option.map_eq_some_iff.mp stepped.2
      refine Or.inr ⟨op, ?_, moved⟩
      rintro rfl
      cases stepped.1
  | insertEntry id =>
      simp only [KeyedStore.step] at stepped
      split at stepped
      · split at stepped
        · exact Or.inr (acts (by rintro ⟨⟩) stepped)
        · obtain rfl := Option.some.inj stepped
          exact Or.inl rfl
      · cases stepped
  | insertRows id tuples | updateRows id target | deleteRows id =>
      simp only [KeyedStore.step] at stepped
      split at stepped
      · obtain ⟨_, _, same⟩ := Option.map_eq_some_iff.mp stepped
        exact Or.inl (sets same)
      · cases stepped
  | gather id =>
      simp only [KeyedStore.step] at stepped
      split at stepped
      · split at stepped
        · exact Or.inl (sets (Option.some.inj stepped))
        · cases stepped
      · cases stepped
  | gathered id | scanKey id =>
      simp only [KeyedStore.step] at stepped
      split at stepped
      · exact Or.inl (sets (Option.some.inj stepped))
      · cases stepped
  | modifyNext id =>
      simp only [KeyedStore.step] at stepped
      split at stepped
      · exact Or.inl (sets (Option.some.inj stepped))
      · exact Or.inr (modifies stepped)
      · cases stepped
  | revive id =>
      simp only [KeyedStore.step] at stepped
      split at stepped
      · exact Or.inr (modifies stepped)
      · cases stepped
  | place id place | noRoom id =>
      simp only [KeyedStore.step] at stepped
      split at stepped
      · exact Or.inr (acts (by rintro ⟨⟩) stepped)
      · cases stepped

theorem step_key_inv (inv : KeyInv table store)
    (stepped : store.step table label = some after) : KeyInv table after := by
  refine ⟨step_key_book inv.toKeyBook stepped, ?_⟩
  rcases keyed_history stepped with same | ⟨op, keeps, moved⟩
  · rw [same]
    exact inv.young
  · exact (horizon_step moved keeps).trans inv.young

theorem start_key_inv (catalog : TableOid → Schema) : KeyInv table (KeyedStore.start catalog) := by
  refine ⟨⟨start_inv catalog, ?_, ?_, ?_, ?_, ?_, fun id => trivial⟩, rfl⟩
  · rintro key rid ⟨⟩
  · rintro key other rid ⟨⟩
  · exact fun rid _ _ => rfl
  · rintro rid _ _ id ⟨⟩
  · exact fun id busy => absurd rfl busy

theorem reached_key_inv {catalog : TableOid → Schema} (reached : KeyedReached catalog table store) :
    KeyInv table store := by
  apply TransitionSystem.reachable_preserves (KeyInv table) _ _ reached
  · rintro _ rfl
    exact start_key_inv catalog
  · exact fun _ _ _ inv stepped => step_key_inv inv stepped

end Steps

end BusTub
