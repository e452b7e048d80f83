import BusTub.SnapshotReads

/-!
The first updater wins: of two committed transactions that wrote the same RID
one had committed before the snapshot of the other. A refused write changes
nothing but the state of its transaction.
-/

namespace BusTub

section Writers
variable {history before after : History} {op : TxnOp} {id : TxnId} {txn : Transaction} {rid : RID}
  {catalog : TableOid → Schema} {target : Option Tuple} {requireDeleted : Bool}
  {mgr refused : TransactionManager}

def WrittenInv (history : History) : Prop :=
  ∀ id txn, history.mgr.txnMap.lookup id = some txn → txn.state = .committed →
    ∀ oid rid, (oid, rid) ∈ txn.writeSet → ∃ version ∈ history.ledger.committed rid,
      version.writer = id ∧ version.readTs = txn.readTs ∧ version.commitTs = txn.commitTs

theorem committed_dead (live : history.Live id txn) : txn.state ≠ .committed := by
  intro committed
  have alive := live.2
  simp [Transaction.live, committed] at alive

theorem moved_written (moved : Moved before after id) (written : WrittenInv before) :
    WrittenInv after := by
  intro other record found committed oid rid member
  have different : other ≠ id := by
    rintro rfl
    obtain ⟨_, _, _, live, _⟩ := moved.own
    obtain rfl := Option.some.inj (found.symm.trans live.1)
    exact committed_dead live committed
  rw [moved.committed]
  exact written other record ((moved.others other different).symm.trans found) committed
    oid rid member

theorem published_written {txn' : Transaction} {commitTs : Timestamp} (inv : Inv before)
    (published : Published before after id txn txn' commitTs) (written : WrittenInv before) :
    WrittenInv after := by
  intro other record found committed oid rid member
  rw [published.ledger]
  by_cases same : other = id
  · subst same
    obtain rfl : txn' = record := Option.some.inj (published.here.symm.trans found)
    rw [published.record] at member ⊢
    have owed := ((inv.writes.owes other txn published.was).2 oid rid).mp (published.owned ▸ member)
    obtain ⟨row, pending⟩ := Option.isSome_iff_exists.mp owed.1
    rw [committed_publish pending]
    exact ⟨_, List.mem_cons_self .., rfl, rfl, rfl⟩
  · obtain ⟨version, old, facts⟩ :=
      written other record ((published.others other same).symm.trans found) committed oid rid member
    refine ⟨version, ?_, facts⟩
    cases pending : before.ledger.pending id rid with
    | none =>
        rw [committed_publish_none pending]
        exact old
    | some row =>
        rw [committed_publish pending]
        exact List.mem_cons_of_mem _ old

theorem step_written (inv : Inv before) (written : WrittenInv before)
    (stepped : before.step op = some after) :
    WrittenInv after := by
  cases inside : op.within with
  | some id => exact moved_written (within_moved inv stepped inside) written
  | none =>
      cases op with
      | begin isolationLevel =>
          obtain ⟨running, begun⟩ := begun_step stepped
          intro other record found committed
          have ledger : after.ledger = before.ledger := by rw [begun.rest]
          rw [ledger]
          by_cases same : other = before.mgr.nextTxnId
          · subst same
            obtain rfl := Option.some.inj (found.symm.trans (begun_here begun))
            cases committed
          · exact written other record ((begun_others begun same).symm.trans found) committed
      | publish id =>
          obtain ⟨_, _, _, published⟩ := published_step inv stepped
          exact published_written inv published written
      | aborted id =>
          obtain ⟨_, aborted⟩ := aborted_step inv stepped
          intro other record found committed
          rw [aborted.ledger]
          by_cases same : other = id
          · subst same
            obtain rfl := Option.some.inj (found.symm.trans aborted.here)
            cases committed
          · exact written other record ((aborted.others other same).symm.trans found) committed
      | garbageCollection =>
          obtain ⟨rfl, _⟩ := collected_step stepped
          exact fun id txn found => written id txn (lookup_keep_some.mp found).1
      | _ => cases inside

theorem reached_written (reached : Reached catalog history) : WrittenInv history := by
  have both : Inv history ∧ WrittenInv history := by
    refine TransitionSystem.reachable_preserves (fun history => Inv history ∧
      WrittenInv history) ?_ ?_ reached
    · rintro _ rfl
      refine ⟨start_inv catalog, fun id txn found => ?_⟩
      cases found
    · rintro before label after ⟨inv, written⟩ stepped
      exact ⟨step_inv inv stepped, step_written inv written stepped⟩
  exact both.2

/-- Of two versions of a RID one was committed before the snapshot of the other. -/
theorem versions_ordered (store : StoreInv history) {first second : Version}
    (one : first ∈ history.ledger.committed rid) (two : second ∈ history.ledger.committed rid)
    (different : first.writer ≠ second.writer) :
    first.commitTs ≤ second.readTs ∨ second.commitTs ≤ first.readTs := by
  have either : (history.ledger.committed rid).Pairwise fun left right =>
      left.commitTs ≤ right.readTs ∨ right.commitTs ≤ left.readTs :=
    (store.sorted rid).imp fun ordered => Or.inr ordered
  have symmetric : Std.Symm fun left right : Version =>
      left.commitTs ≤ right.readTs ∨ right.commitTs ≤ left.readTs :=
        ⟨fun _ _ ordered => ordered.symm⟩
  refine either.forall one two ?_
  rintro rfl
  exact different rfl

/-- A refused write leaves its transaction tainted and everything else as it was. -/
structure Refused (mgr after : TransactionManager) (id : TxnId) : Prop where
  tainted : ∃ txn, mgr.txnMap.lookup id = some txn ∧
    after.txnMap.lookup id = some { txn with state := .tainted }
  others : ∀ other, other ≠ id → after.txnMap.lookup other = mgr.txnMap.lookup other
  heap : after.heap = mgr.heap
  versionInfo : after.versionInfo = mgr.versionInfo
  undoLogs : after.getUndoLogOptional = mgr.getUndoLogOptional

theorem throw_refuses (thrown : mgr.throwWriteConflict id = some refused) :
    Refused mgr refused id := by
  obtain ⟨txn, ready, same⟩ := Option.bind_eq_some_iff.mp thrown
  have found := (TransactionManager.ready_iff.mp ready).1
  split at same
  · obtain rfl := Option.some.inj same
    have others (other : TxnId) (different : other ≠ id) :
        (mgr.setTxn id { txn with state := .tainted }).txnMap.lookup other =
          mgr.txnMap.lookup other :=
      TransactionManager.lookup_set_txn_other different
    refine ⟨⟨txn, found, TransactionManager.lookup_set_txn⟩, others, rfl, rfl, ?_⟩
    refine TransactionManager.logs_of_lookup fun other => ?_
    by_cases own : other = id
    · rw [own, found]
      have here : ((mgr.setTxn id { txn with state := .tainted }).setControl id .idle).txnMap.lookup
          id =
          some { txn with state := .tainted } := TransactionManager.lookup_set_txn
      rw [here]
      rfl
    · exact congrArg (Option.map Transaction.undoLogs) (others other own)
  · cases same

theorem modify_refuses
    (modified : mgr.modifyTuple id rid target requireDeleted = some (.writeConflict, refused)) :
    Refused mgr refused id := by
  obtain ⟨txn, slot, _, _, _, outcome⟩ := modify_cases modified
  rcases outcome with ⟨_, thrown⟩ | ⟨_, _, _, _, ⟨done, _⟩ | ⟨done, _⟩⟩
  · exact throw_refuses thrown
  · cases done
  · cases done

/-- No update is lost. `recorded` speaks of the transactions that the manager
still knows, `versions` of all that ever committed. -/
structure FirstUpdaterWins (history : History) : Prop where
  recorded : ∀ id other txn record, id ≠ other → history.mgr.txnMap.lookup id = some txn →
    history.mgr.txnMap.lookup other = some record → txn.state = .committed →
      record.state = .committed →
    ∀ oid place rid, (oid, rid) ∈ txn.writeSet → (place, rid) ∈ record.writeSet →
      txn.commitTs ≤ record.readTs ∨ record.commitTs ≤ txn.readTs
  versions : ∀ rid, ∀ first ∈ history.ledger.committed rid, ∀ second ∈ history.ledger.committed rid,
    first.writer ≠ second.writer → first.commitTs ≤ second.readTs ∨ second.commitTs ≤ first.readTs
  refused : ∀ id rid target requireDeleted refused,
    history.mgr.modifyTuple id rid target requireDeleted = some (.writeConflict, refused) →
    Refused history.mgr refused id

theorem first_updater_wins (reached : Reached catalog history) : FirstUpdaterWins history := by
  have inv := reached_inv reached
  have written := reached_written reached
  refine ⟨?_, fun rid first one second two => versions_ordered inv.store one two,
    fun _ _ _ _ _ modified => modify_refuses modified⟩
  intro id other txn record different found found' committed committed' oid place rid member member'
  obtain ⟨first, one, rfl, readTs, commitTs⟩ := written id txn found committed oid rid member
  obtain ⟨second, two, rfl, readTs', commitTs'⟩ :=
    written other record found' committed' place rid member'
  have ordered := versions_ordered inv.store one two different
  rwa [readTs, readTs', commitTs, commitTs'] at ordered

end Writers

/-- Two transactions have written the row, one after the other. -/
theorem overwritten_first_updater_wins : FirstUpdaterWins overwritten :=
  first_updater_wins (reached_run overwritten_run_returns)

end BusTub
