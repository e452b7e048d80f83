import BusTub.SnapshotReads

/-!
What `VerifyTxn` is for: a serializable transaction that commits would have read
the same rows at its snapshot as just before its commit, in every table and for
every predicate that its scans have recorded.
-/

namespace BusTub

open TransactionManager (matchesAny)

/-- The rows of a table that a predicate accepts, as committed by `ts`. -/
def History.accepted (history : History) (ts : Timestamp) (oid : TableOid) (predicate : Predicate) :
    Set (RID × Tuple) :=
  { entry | (∃ slot, history.mgr.heap.lookup entry.1 = some slot ∧ slot.oid = oid) ∧
    history.ledger.committedAt ts entry.1 = some entry.2 ∧ predicate.accepts entry.2 = true }

/-- Every recorded scan would return the same just before the commit, at whatever
RID, its own ones included. -/
def NoStaleReads (history : History) (txn : Transaction) : Prop :=
  ∀ oid predicates, txn.scanPredicates.lookup oid = some predicates → ∀ predicate ∈ predicates,
    history.accepted txn.readTs oid predicate = history.accepted (txn.commitTs - 1) oid predicate

section Scans
variable {before after : History} {id : TxnId} {txn : Transaction} {rid : RID} {oid : TableOid}
  {catalog : TableOid → Schema} {ts : Timestamp} {predicates : List Predicate}
  {predicate : Predicate}

theorem committed_at_unchanged {later : Timestamp} (order : ts ≤ later)
    (old : ∀ version ∈ before.ledger.committed rid, version.commitTs ≤ ts) :
    before.ledger.committedAt ts rid = before.ledger.committedAt later rid := by
  unfold Ledger.committedAt
  cases versions : before.ledger.committed rid with
  | nil => rfl
  | cons newest _ =>
      have early := old newest (versions ▸ List.mem_cons_self ..)
      rw [List.find?_cons_of_pos (by simpa using early), List.find?_cons_of_pos (by simp; lia)]

/-- A predicate on record accepts no row that the validation has refused. -/
theorem not_accepted (kept : txn.scanPredicates.lookup oid = some predicates)
    (member : predicate ∈ predicates) {row : Option Tuple}
    (refused : matchesAny txn oid row = false) {tuple : Tuple} (here : row = some tuple) :
    predicate.accepts tuple = false := by
  subst here
  simp only [matchesAny, kept, Option.getD_some, List.any_eq_false] at refused
  simpa using refused predicate member

/-- What the validation has cleared is not accepted as the newest version either. -/
theorem cleared_now (store : StoreInv before) (changed : Changed before txn oid rid)
    (cleared : Cleared before txn oid rid) :
    matchesAny txn oid (before.ledger.committedAt before.mgr.lastCommitTs rid) = false := by
  obtain ⟨_, _, recent, inside, late⟩ := changed
  rcases committed_at_latest store before.mgr.lastCommitTs rid with
    ⟨version, member, _, last, same⟩ | ⟨_, same⟩
  · have newest := last recent inside (store.dated rid recent inside).2.2
    rw [same]
    exact cleared.1 version member (by lia)
  · rw [same]
    rfl

/-- A RID that nobody has changed shows the same row, one that was cleared no
row that counts. -/
theorem accepted_same (inv : Inv before) (validated : ∀ oid rid, Changed before txn oid rid →
    Cleared before txn oid rid)
    (bound : txn.readTs ≤ before.mgr.lastCommitTs)
    (kept : txn.scanPredicates.lookup oid = some predicates)
    (member : predicate ∈ predicates) :
    before.accepted txn.readTs oid predicate =
      before.accepted before.mgr.lastCommitTs oid predicate := by
  ext ⟨rid, tuple⟩
  by_cases here : ∃ slot, before.mgr.heap.lookup rid = some slot ∧ slot.oid = oid
  · by_cases recent : ∃ version ∈ before.ledger.committed rid, txn.readTs < version.commitTs
    · have changed : Changed before txn oid rid := ⟨by rw [kept]; rfl, here, recent⟩
      have cleared := validated oid rid changed
      constructor
      · rintro ⟨_, row, accepts⟩
        have refuses := not_accepted kept member cleared.2 row
        cases accepts.symm.trans refuses
      · rintro ⟨_, row, accepts⟩
        have refuses := not_accepted kept member (cleared_now inv.store changed cleared) row
        cases accepts.symm.trans refuses
    · have old (version : Version) (inside : version ∈ before.ledger.committed rid) :
          version.commitTs ≤ txn.readTs := Int.not_lt.mp fun late => recent ⟨version, inside, late⟩
      have same := committed_at_unchanged bound old
      constructor
      · rintro ⟨_, row, accepts⟩
        exact ⟨here, same ▸ row, accepts⟩
      · rintro ⟨_, row, accepts⟩
        exact ⟨here, same ▸ row, accepts⟩
  · constructor
    · exact fun inside => absurd inside.1 here
    · exact fun inside => absurd inside.1 here

/-- When the commit of a serializable transaction that has written anything goes
through, nothing that its scans could have returned has changed since its
snapshot. -/
theorem validation_rules_out_stale_reads (reached : Reached catalog before)
    (committed : before.step (.publish id) = some after)
    (found : after.mgr.txnMap.lookup id = some txn)
    (serializable : txn.isolationLevel = .serializable) (wrote : txn.writeSet ≠ []) :
    NoStaleReads after txn := by
  have inv := reached_inv reached
  obtain ⟨record, record', commitTs, published⟩ := published_step inv committed
  obtain rfl : record' = txn := Option.some.inj (published.here.symm.trans found)
  have same := published.record
  subst same
  have call := inv.calls id
  rw [published.stage] at call
  obtain ⟨_, next, _, txn, inMap, _, _, validated⟩ := call
  obtain rfl : record = txn := Option.some.inj (published.was.1.symm.trans inMap)
  obtain ⟨ids, clock⟩ := inv.clock
  have snapshot := clock.readTs id record published.was
  intro oid predicates kept predicate member
  have unchanged {ts : Timestamp} (early : ts < commitTs) (predicate : Predicate) :
      after.accepted ts oid predicate = before.accepted ts oid predicate := by
    unfold History.accepted
    rw [published.heap, published.ledger]
    simp only [committed_at_publish early]
  have last : commitTs - 1 = before.mgr.lastCommitTs := by lia
  dsimp only
  rw [unchanged (by lia), last, unchanged (by lia),
    accepted_same inv (validated serializable wrote) snapshot.2.2 kept member]

end Scans

def fives : Predicate := some fun tuple => some (tuple = [number 5])

def validatedRun : List TxnOp :=
  [.begin .snapshotIsolation, .insert TXN_START_ID 0 firstSlot [number 1], .commit TXN_START_ID,
    .stamp TXN_START_ID 0 firstSlot, .publish TXN_START_ID, .begin .serializable,
      .begin .snapshotIsolation,
    .scan (TXN_START_ID + 1) 0 fives, .modify (TXN_START_ID + 2) firstSlot (some [number 2]) false,
    .insert (TXN_START_ID + 1) 0 { pageId := 0, slotNum := 1 } [number 7],
      .commit (TXN_START_ID + 2),
    .stamp (TXN_START_ID + 2) 0 firstSlot, .publish (TXN_START_ID + 2), .commit (TXN_START_ID + 1),
    .verifyRid (TXN_START_ID + 1) 0 firstSlot, .verifyVersion (TXN_START_ID + 1),
    .verifyVersion (TXN_START_ID + 1), .verified (TXN_START_ID + 1),
    .stamp (TXN_START_ID + 1) 0 { pageId := 0, slotNum := 1 }]

theorem validated_run_returns : (runFrom oneColumn validatedRun).isSome = true := by decide

def validated : History := (runFrom oneColumn validatedRun).get validated_run_returns

theorem validated_publishes :
    (validated.step (.publish (TXN_START_ID + 1))).isSome = true := by decide

def validatedAfter : History :=
  (validated.step (.publish (TXN_START_ID + 1))).get validated_publishes

theorem validated_found : (validatedAfter.mgr.txnMap.lookup (TXN_START_ID + 1)).isSome =
    true := by decide

theorem validated_scan_not_stale :
    NoStaleReads validatedAfter
      ((validatedAfter.mgr.txnMap.lookup (TXN_START_ID + 1)).get validated_found) :=
  validation_rules_out_stale_reads (reached_run validated_run_returns)
    (Option.some_get validated_publishes).symm
    (Option.some_get validated_found).symm (by decide) (by decide)

end BusTub
