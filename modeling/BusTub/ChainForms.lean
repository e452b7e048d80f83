import BusTub.Aborts

/-!
Undo chains as the tables of the manager hold them, without the ledger: where a
chain ends, whose logs are on it and what they carry. A chain is a list of links,
each with the log it names. A log that no chain comes to is no version of
anything; `ModifyTuple` leaves one behind when the new tuple has another size.
-/

namespace BusTub

open TransitionSystem (Reachable Run graph guarded run_follows run_of_guarded_fold)

/-! ### What a chain is -/

inductive Chained (mgr : TransactionManager) : UndoLink → List (UndoLink × UndoLog) → Prop where
  | root {link : UndoLink} : link.isValid = false → Chained mgr link []
  | older {link : UndoLink} {log : UndoLog} {rest : List (UndoLink × UndoLog)} :
      link.isValid = true → mgr.getUndoLogOptional link = some log →
        Chained mgr log.prevVersion rest →
      Chained mgr link ((link, log) :: rest)

def Carries (schema : Schema) : Bool → List (UndoLink × UndoLog) → Prop
  | _, [] => True
  | deleted, (_, log) :: rest =>
      (deleted = true → log.isDeleted = false →
        log.modifiedFields = List.replicate schema.length true ∧ log.tuple.Fits schema) ∧
      Carries schema log.isDeleted rest

inductive HeadFormed (mgr : TransactionManager) (ts : Timestamp)
    (versions : List (UndoLink × UndoLog)) : Prop where
  | committed (early : ts < TXN_START_ID) (above : ∀ version ∈ versions, version.2.ts < ts)
  | temporary (late : TXN_START_ID ≤ ts) (txn : Transaction)
      (found : mgr.txnMap.lookup ts = some txn)
      (live : txn.live = true)
        (once : (versions.filter fun version => version.1.prevTxn = ts).length ≤ 1)

structure WellFormed (mgr : TransactionManager) (slot : Slot)
    (versions : List (UndoLink × UndoLog)) : Prop where
  head : HeadFormed mgr slot.metadata.ts versions
  committed : ∀ version ∈ versions, version.2.ts < TXN_START_ID
  falls : versions.Pairwise fun newer older => older.2.ts < newer.2.ts
  columns : Carries (mgr.catalog slot.oid) slot.metadata.isDeleted versions

/-- The chain of a RID ends, and is well formed below the tuple on the page. -/
def ChainFormed (mgr : TransactionManager) (rid : RID) : Prop :=
  ∃ versions, Chained mgr ((mgr.getUndoLink rid).getD {}) versions ∧
    match mgr.heap.lookup rid with
    | some slot => WellFormed mgr slot versions
    | none => versions = []

section Chains
variable {mgr mgr' : TransactionManager} {history : History} {link : UndoLink} {log : UndoLog}
  {versions versions' : List (UndoLink × UndoLog)} {schema : Schema} {row : Option Tuple}

theorem chained_unique (chained : Chained mgr link versions) (second : Chained mgr link versions') :
    versions = versions' := by
  induction chained generalizing versions' with
  | root invalid =>
      cases second with
      | root _ => rfl
      | older valid _ _ => simp [invalid] at valid
  | older valid found _ ih =>
      cases second with
      | root invalid => simp [valid] at invalid
      | older _ found' below =>
          obtain rfl := Option.some.inj (found.symm.trans found')
          exact congrArg (List.cons _) (ih below)

theorem chained_grows {logs : UndoLink → Stage} {logs' : UndoLink → Stage}
    (grows : LogsGrow mgr.getUndoLogOptional logs mgr'.getUndoLogOptional logs')
    (chained : Chained mgr link versions) :
    ∃ versions', Chained mgr' link versions' ∧ versions'.map Prod.fst = versions.map Prod.fst := by
  induction chained with
  | root invalid => exact ⟨[], Chained.root invalid, rfl⟩
  | older valid found _ ih =>
      obtain ⟨log', found', _, samePrev, _⟩ := grows _ _ found
      obtain ⟨rest, below, same⟩ := ih
      exact ⟨_, Chained.older valid found' (samePrev ▸ below), congrArg (List.cons _) same⟩

theorem select_full {mask : List Bool} {original : Tuple} (full : Full mask)
    (sameLength : mask.length = original.length) :
    selectFields mask original = original := by
  induction mask generalizing original with
  | nil =>
      cases original with
      | nil => rfl
      | cons _ _ => cases sameLength
  | cons field mask ih =>
      cases original with
      | nil => cases sameLength
      | cons value original =>
          obtain rfl : field = true := full field (List.mem_cons_self ..)
          have rest :=
            ih (fun field member => full field (List.mem_cons_of_mem _ member))
              (by simpa using sameLength)
          simp [selectFields, rest]

/-- A log that fields of a deleted row are restored from holds the whole older row. -/
theorem covers_columns {original : Option Tuple} (stands : Stands log original)
    (covers : Covers log.modifiedFields row original)
    (fits : ∀ tuple, original = some tuple → tuple.Fits schema) (deleted : row = none)
    (live : log.isDeleted = false) :
    log.modifiedFields = List.replicate schema.length true ∧ log.tuple.Fits schema := by
  cases original with
  | none => simp [stands.1] at live
  | some tuple =>
      subst deleted
      obtain ⟨full, sameLength⟩ := covers
      have fitting := fits tuple rfl
      have columns : log.modifiedFields.length = schema.length :=
        sameLength.trans (Tuple.fits_length fitting)
      refine ⟨List.eq_replicate_iff.mpr ⟨columns, full⟩, ?_⟩
      rw [stands.2.2, select_full full sameLength]
      exact fitting

/-- The chain below a version, as far as no collection has cut it: its logs have
the timestamps and the rows of the older stages. -/
theorem chain_chained {upper : Timestamp} {older : List Stage}
    (chain : Chain history.logs history.image history.horizon upper row link older)
    (above : history.horizon < upper) (uncut : ∀ stage ∈ older, history.horizon < stage.1)
    (stand : LogsStand history.logs history.image)
    (fits : ∀ stage ∈ older, ∀ tuple, stage.2 = some tuple → tuple.Fits schema) :
    ∃ versions, Chained history.mgr link versions ∧
      (versions.map fun version => version.2.ts) = older.map Prod.fst ∧
      (∀ version ∈ versions, version.2.ts < upper) ∧
      (versions.Pairwise fun newer older => older.2.ts < newer.2.ts) ∧
      Carries schema row.isNone versions := by
  induction chain with
  | stale low => exact absurd low (Int.not_le.mpr above)
  | root invalid => exact ⟨[], Chained.root invalid, rfl, by simp, List.Pairwise.nil, trivial⟩
  | @older upper row link log rest valid found before covers _ ih =>
      obtain ⟨sameTs, stands⟩ := stand _ _ found
      obtain ⟨versions, below, stamps, lower, falls, columns⟩ :=
        ih (uncut _ (List.mem_cons_self ..))
          (fun stage member => uncut stage (List.mem_cons_of_mem _ member))
          (fun stage member => fits stage (List.mem_cons_of_mem _ member))
      have flag : log.isDeleted = (history.image link).2.isNone := by
        have shown := (shows_restored stands []).flag
        exact shown
      refine ⟨(link, log) :: versions, Chained.older valid found below, ?_, ?_, ?_, ?_, ?_⟩
      · rw [List.map_cons, List.map_cons, stamps, sameTs]
      · intro version member
        rcases List.mem_cons.mp member with rfl | later
        · rwa [sameTs]
        · exact (lower version later).trans before
      · refine List.pairwise_cons.mpr ⟨fun version member => ?_, falls⟩
        rw [sameTs]
        exact lower version member
      · intro deleted live
        exact covers_columns stands covers (fits _ (List.mem_cons_self ..))
          (Option.isNone_iff_eq_none.mp deleted) live
      · rwa [flag]

end Chains

/-! ### Whose logs are on a chain -/

def Retired (history : History) (link : UndoLink) : Prop :=
  ∃ versions, Chained history.mgr link versions ∧
    ∀ owned ∈ versions.map Prod.fst, Gone history owned.prevTxn

structure OwnersInv (history : History) : Prop where
  settled : ∀ rid, (∀ id, history.ledger.pending id rid = none) → Retired history (history.link rid)
  found : ∀ id rid origin, (history.ledger.pending id rid).isSome →
    history.origin id rid = some origin → Retired history (origin.link.getD {})

def TxnOp.collects : TxnOp → Bool
  | .garbageCollection => true
  | _ => false

section Owners
variable {before after history : History} {op : TxnOp} {id : TxnId} {txn : Transaction} {rid : RID}
  {link : UndoLink}

theorem retired_root : Retired history {} :=
  ⟨[], Chained.root rfl, by simp⟩

theorem logs_step (inv : Inv before) (stepped : before.step op = some after)
    (keeps : op.collects = false) :
    LogsGrow before.logs before.image after.logs after.image := by
  have still {last : History} (same : Still before last) :
      LogsGrow before.logs before.image last.logs last.image := by
    rw [same.logs, same.image]
    exact logs_grow_refl _ _
  obtain ⟨ids, clock⟩ := inv.clock
  cases inside : op.within with
  | some id => exact (within_moved inv stepped inside).logs
  | none =>
      cases op with
      | begin isolationLevel =>
          obtain ⟨running, begun⟩ := begun_step stepped
          exact still (begun_still begun clock)
      | publish id =>
          obtain ⟨_, _, _, published⟩ := published_step inv stepped
          exact still published.toStill
      | aborted id =>
          obtain ⟨_, aborted⟩ := aborted_step inv stepped
          exact still aborted.toStill
      | garbageCollection => cases keeps
      | _ => cases inside

theorem retired_step (inv : Inv before) (stepped : before.step op = some after)
    (keeps : op.collects = false) (retired : Retired before link) : Retired after link := by
  obtain ⟨versions, chained, gone⟩ := retired
  obtain ⟨versions', chained', same⟩ := chained_grows (logs_step inv stepped keeps) chained
  refine ⟨versions', chained', fun owned member => ?_⟩
  rw [same] at member
  exact gone_step inv stepped (gone owned member)

/-- The log of a transaction that has ended can be put above a retired chain. -/
theorem retired_older {log : UndoLog} (valid : link.isValid = true)
    (found : history.logs link = some log) (gone : Gone history link.prevTxn)
    (below : Retired history log.prevVersion) :
    Retired history link := by
  obtain ⟨versions, chained, others⟩ := below
  refine ⟨(link, log) :: versions, Chained.older valid found chained, fun owned member => ?_⟩
  rcases List.mem_cons.mp member with rfl | later
  · exact gone
  · exact others owned later

theorem versions_kept {mgr next : TransactionManager} (stepped : mgr.step op = some next) :
    next.versionInfo = mgr.versionInfo ∨
      (∃ id rid target requireDeleted, op = .modify id rid target requireDeleted) ∨
      ∃ id oid rid, op = .rollback id oid rid := by
  cases op with
  | modify id rid target requireDeleted => exact Or.inr (Or.inl ⟨_, _, _, _, rfl⟩)
  | rollback id oid rid => exact Or.inr (Or.inr ⟨_, _, _, rfl⟩)
  | begin isolationLevel =>
      simp only [TransactionManager.step, TransactionManager.begin] at stepped
      split at stepped
      · cases stepped
      · obtain ⟨running, _, same⟩ := Option.bind_eq_some_iff.mp stepped
        obtain rfl := Option.some.inj same
        exact Or.inl rfl
  | scan id oid predicate =>
      obtain ⟨txn, _, same⟩ := Option.bind_eq_some_iff.mp stepped
      obtain rfl := Option.some.inj same
      exact Or.inl rfl
  | read id rid =>
      obtain ⟨txn, _, same⟩ := Option.bind_eq_some_iff.mp stepped
      obtain ⟨slot, _, same⟩ := Option.bind_eq_some_iff.mp same
      split at same <;> (obtain rfl := Option.some.inj same; exact Or.inl rfl)
  | fetch id =>
      obtain ⟨txn, _, same⟩ := Option.bind_eq_some_iff.mp stepped
      split at same
      · split at same
        · obtain rfl := Option.some.inj same
          exact Or.inl rfl
        · split at same <;> (obtain rfl := Option.some.inj same; exact Or.inl rfl)
      · cases same
  | insert id oid rid tuple =>
      obtain ⟨txn, _, same⟩ := Option.bind_eq_some_iff.mp stepped
      split at same
      · cases same
      · obtain rfl := Option.some.inj same
        exact Or.inl rfl
  | throwWriteConflict id =>
      obtain ⟨txn, _, same⟩ := Option.bind_eq_some_iff.mp stepped
      split at same
      · obtain rfl := Option.some.inj same
        exact Or.inl rfl
      · cases same
  | commit id =>
      obtain ⟨txn, _, same⟩ := Option.bind_eq_some_iff.mp stepped
      split at same
      · cases same
      · split at same <;> (obtain rfl := Option.some.inj same; exact Or.inl rfl)
  | verifyRid id oid rid =>
      simp only [TransactionManager.step, TransactionManager.verifyRid] at stepped
      split at stepped
      · split at stepped
        · obtain ⟨slot, _, same⟩ := Option.bind_eq_some_iff.mp stepped
          obtain rfl := Option.some.inj same
          exact Or.inl rfl
        · cases stepped
      · cases stepped
  | verifyVersion id =>
      obtain ⟨txn, _, same⟩ := Option.bind_eq_some_iff.mp stepped
      split at same
      · split at same
        · obtain rfl := Option.some.inj same
          exact Or.inl rfl
        · split at same <;> (obtain rfl := Option.some.inj same; exact Or.inl rfl)
      · cases same
  | verified id =>
      obtain ⟨txn, _, same⟩ := Option.bind_eq_some_iff.mp stepped
      split at same
      · obtain rfl := Option.some.inj same
        exact Or.inl rfl
      · cases same
  | stamp id oid rid =>
      simp only [TransactionManager.step, TransactionManager.stamp] at stepped
      split at stepped
      · split at stepped
        · obtain ⟨slot, _, same⟩ := Option.bind_eq_some_iff.mp stepped
          split at same
          · obtain ⟨stamped, _, same⟩ := Option.bind_eq_some_iff.mp same
            obtain rfl := Option.some.inj same
            exact Or.inl rfl
          · obtain rfl := Option.some.inj same
            exact Or.inl rfl
        · cases stepped
      · cases stepped
  | publish id =>
      obtain ⟨txn, _, same⟩ := Option.bind_eq_some_iff.mp stepped
      split at same
      · obtain rfl := Option.some.inj same
        exact Or.inl rfl
      · cases same
  | abort id =>
      obtain ⟨txn, _, same⟩ := Option.bind_eq_some_iff.mp stepped
      obtain rfl := Option.some.inj same
      exact Or.inl rfl
  | aborted id =>
      obtain ⟨txn, _, same⟩ := Option.bind_eq_some_iff.mp stepped
      split at same
      · obtain rfl := Option.some.inj same
        exact Or.inl rfl
      · cases same
  | garbageCollection =>
      simp only [TransactionManager.step, TransactionManager.garbageCollection] at stepped
      split at stepped
      · obtain rfl := Option.some.inj stepped
        exact Or.inl rfl
      · cases stepped

/-- Whoever writes a RID for the first time finds a committed row there, or nothing. -/
theorem write_found (inv : Inv before) (stepped : before.step op = some after)
    (fresh : before.ledger.pending id rid = none) (written : (after.ledger.pending id rid).isSome) :
    (∀ other, before.ledger.pending other rid = none) ∧
      after.origin id rid = remembered before rid := by
  have unwritten {record : Transaction} (ready : before.mgr.ready id = some record) :
      ∃ txn, before.Live id txn ∧ ∀ oid, (oid, rid) ∉ txn.writeSet := by
    obtain ⟨inMap, alive, rest⟩ := TransactionManager.ready_iff.mp ready
    refine ⟨record, ⟨inMap, alive⟩, fun oid member => ?_⟩
    have owed :=
      (((inv.writes.owes id record ⟨inMap, alive⟩).2 oid rid).mp (owes_at_rest rest ▸ member)).1
    rw [fresh] at owed
    cases owed
  rcases pending_own stepped written with was | ⟨oid, tuple, rfl⟩ | ⟨target, requireDeleted, rfl⟩
  · rw [fresh] at was
    cases was
  · obtain ⟨mgr, ran, rfl⟩ := Option.map_eq_some_iff.mp stepped
    obtain ⟨record, ready, same⟩ := Option.bind_eq_some_iff.mp ran
    have first : FirstWrite before _ id rid := ⟨unwritten ready, Or.inl ⟨oid, tuple, stepped⟩⟩
    refine ⟨fun other => ?_, (first_write_remembered inv first).1⟩
    split at same
    · cases same
    · rename_i allowed
      exact ((inv.store.empty rid (by simpa using (not_or.mp allowed).1)).2.2 other).1
  · obtain ⟨mgr, ran, rfl⟩ := Option.map_eq_some_iff.mp stepped
    obtain ⟨⟨result, next⟩, modified, _⟩ := Option.map_eq_some_iff.mp ran
    obtain ⟨record, slot, ready, here, _, outcome⟩ := modify_cases modified
    obtain ⟨inMap, alive, _⟩ := TransactionManager.ready_iff.mp ready
    -- a call that did not go through has written nothing
    have done : result = .done := by
      by_contra other
      simp only [History.record, modified, History.recordModify, inMap, here, if_neg other, fresh]
        at written
      cases written
    subst done
    have first : FirstWrite before _ id rid :=
      ⟨unwritten ready, Or.inr ⟨target, requireDeleted, next, modified, stepped⟩⟩
    refine ⟨?_, (first_write_remembered inv first).1⟩
    obtain ⟨ids, clock⟩ := inv.clock
    rcases outcome with ⟨conflict, _⟩ | ⟨clear, _⟩
    · cases conflict
    · have early : slot.metadata.ts = id ∨ slot.metadata.ts ≤ record.readTs := by
        have passed := (Bool.or_eq_false_iff.mp clear).1
        by_cases own : slot.metadata.ts = id
        · exact Or.inl own
        · exact Or.inr (by simpa [own] using passed)
      rcases early with own | early
      · obtain ⟨_, _, pending, _⟩ := slot_owned inv clock ⟨inMap, alive⟩ here own
        cases fresh.symm.trans pending
      · obtain ⟨_, _, free, _⟩ := slot_settled inv clock ⟨inMap, alive⟩ here early
        exact free

/-- A RID that nobody is writing after the step, and that somebody was writing
before it: its writer has taken the row back or has committed it. -/
theorem settled_owners (inv : Inv before) (owners : OwnersInv before)
    (stepped : before.step op = some after) (keeps : op.collects = false)
    (written : (before.ledger.pending id rid).isSome)
    (lost : after.ledger.pending id rid = none) : Retired after (after.link rid) := by
  rcases pending_lost stepped written lost with ⟨oid, rfl⟩ | rfl
  · obtain ⟨txn, rest, slot', live, stage, member, _, here, restored, _⟩ :=
      rollback_step inv stepped
    cases known : before.origin id rid with
    | none =>
        rw [known] at restored
        rw [History.link, restored.2]
        exact retired_root
    | some origin =>
        rw [known] at restored
        rw [History.link, restored.2.2]
        exact retired_step inv stepped keeps (owners.found id rid origin written known)
  · obtain ⟨ids, clock⟩ := inv.clock
    obtain ⟨txn, txn', commitTs, published⟩ := published_step inv stepped
    obtain ⟨slot, here, _⟩ := own_write inv published.was published.owned written
    obtain ⟨row, all, _, _, _, _, _, _, _, origin⟩ := slot_pending inv published.was here written
    have kept : after.link rid = before.link rid := by
      rw [History.link, History.link, still_link published.toStill]
    rw [kept]
    cases origin with
    | created unlinked _ _ =>
        rw [History.link, unlinked]
        exact retired_root
    | logged link log origin linked owner logged known _ prev _ =>
        have current : before.link rid = link := by rw [History.link, linked, Option.getD_some]
        have below := retired_step inv stepped keeps (owners.found id rid origin written known)
        rw [current]
        refine retired_older (inv.store.links rid link linked) ?_ ?_ (prev ▸ below)
        · rw [published.logs]
          exact logged
        · rw [owner]
          exact ended_gone clock published.toEnded

/-- The undo link of a RID that nobody is writing stays, unless somebody begins to. -/
theorem link_kept (inv : Inv before) (stepped : before.step op = some after)
    (settled : ∀ id, before.ledger.pending id rid = none)
    (free : ∀ id, after.ledger.pending id rid = none) :
    after.mgr.getUndoLink rid = before.mgr.getUndoLink rid := by
  have ran : before.mgr.step op = some after.mgr := by
    obtain ⟨mgr, ran, rfl⟩ := Option.map_eq_some_iff.mp stepped
    exact ran
  rcases versions_kept ran with same | ⟨id, place, target, requireDeleted, rfl⟩ |
    ⟨id, oid, place, rfl⟩
  · exact congrArg (AList.lookup rid) same
  · obtain ⟨⟨result, next⟩, modified, same⟩ := Option.map_eq_some_iff.mp ran
    obtain rfl : next = after.mgr := same
    obtain ⟨txn, slot, ready, here, _, outcome⟩ := modify_cases modified
    rcases outcome with ⟨_, thrown⟩ | ⟨_, recorded, link, _, ⟨_, same⟩ | ⟨rfl, _, same⟩⟩
    · have call : before.mgr.step (.throwWriteConflict id) = some after.mgr := thrown
      rcases versions_kept call with same | ⟨_, _, _, _, other⟩ | ⟨_, _, _, other⟩
      · exact congrArg (AList.lookup rid) same
      · cases other
      · cases other
    · rw [same]
      rfl
    · have elsewhere : rid ≠ place := by
        rintro rfl
        have written := free id
        obtain ⟨mgr, ran, rfl⟩ := Option.map_eq_some_iff.mp stepped
        simp only [History.record, modified, History.recordModify,
          (TransactionManager.ready_iff.mp ready).1, here, if_true] at written
        cases pending_write_self.symm.trans written
      rw [same]
      exact TransactionManager.get_undo_link_update_other elsewhere link
  · obtain ⟨txn, rest, slot', live, stage, member, _, _, _, others, _⟩ := rollback_step inv stepped
    have owed : (oid, place) ∈ before.owes id txn := by
      rw [History.owes, stage]
      exact member
    have written := (((inv.writes.owes id txn live).2 oid place).mp owed).1
    have elsewhere : rid ≠ place := by
      rintro rfl
      rw [settled id] at written
      cases written
    exact (others rid elsewhere).2

theorem owners_start (catalog : TableOid → Schema) : OwnersInv (History.start catalog) where
  settled := fun _ _ => retired_root
  found := fun _ _ _ written => by cases written

theorem owners_step (inv : Inv before) (owners : OwnersInv before)
    (stepped : before.step op = some after) (keeps : op.collects = false) : OwnersInv after where
  settled := by
    intro rid free
    by_cases settled : ∀ id, before.ledger.pending id rid = none
    · have same : after.link rid = before.link rid := by
        rw [History.link, History.link, link_kept inv stepped settled free]
      rw [same]
      exact retired_step inv stepped keeps (owners.settled rid settled)
    · obtain ⟨id, written⟩ := not_forall.mp settled
      exact settled_owners inv owners stepped keeps
        (Option.isSome_iff_ne_none.mpr written) (free id)
  found := by
    intro id rid origin written known
    by_cases before' : (before.ledger.pending id rid).isSome
    · rw [origin_kept inv stepped before'] at known
      exact retired_step inv stepped keeps (owners.found id rid origin before' known)
    · obtain ⟨free, same⟩ :=
        write_found inv stepped (Option.not_isSome_iff_eq_none.mp before') written
      obtain ⟨slot, here, rfl⟩ := Option.map_eq_some_iff.mp (same.symm.trans known)
      exact retired_step inv stepped keeps (owners.settled rid free)

end Owners

/-! ### Every chain of every run -/

structure Uncut (history : History) : Prop where
  inv : Inv history
  owners : OwnersInv history
  horizon : history.horizon = -1

section Forms
variable {before after history : History} {op : TxnOp} {id : TxnId} {txn : Transaction} {rid : RID}
  {slot : Slot} {row : Option Tuple} {all : List Stage} {versions : List (UndoLink × UndoLog)}

theorem uncut_step (uncut : Uncut before) (stepped : before.step op = some after)
    (keeps : op.collects = false) :
    Uncut after where
  inv := step_inv uncut.inv stepped
  owners := owners_step uncut.inv uncut.owners stepped keeps
  horizon := by
    rw [horizon_step stepped, uncut.horizon]
    rintro rfl
    cases keeps

theorem last_commit_below_ids {ids : List TxnId} (clock : ClockInv history ids) :
    history.mgr.lastCommitTs < TXN_START_ID := by
  have room := clock.room
  have bound := clock.bound
  have start : TXN_START_ID = 4611686018427387904 := rfl
  have max : INT64_MAX = 9223372036854775807 := rfl
  lia

/-- The chain below a tuple, with what the ledger says about its versions. -/
theorem slot_chained (uncut : Uncut history) (found : history.mgr.heap.lookup rid = some slot)
    (whole : StagesOf history.ledger rid all) {older : List Stage} (listed : older ⊆ all)
    (chain : Chain history.logs history.image history.horizon slot.metadata.ts row
      (history.link rid) older)
    (dated : 0 ≤ slot.metadata.ts) :
    ∃ versions, Chained history.mgr (history.link rid) versions ∧
      (∀ version ∈ versions, version.2.ts < slot.metadata.ts) ∧
      (∀ version ∈ versions, version.2.ts < TXN_START_ID) ∧
      (versions.Pairwise fun newer older => older.2.ts < newer.2.ts) ∧
      Carries (history.mgr.catalog slot.oid) row.isNone versions := by
  obtain ⟨ids, clock⟩ := uncut.inv.clock
  have horizon := uncut.horizon
  have dates {stage : Stage} (member : stage ∈ older) :=
    stages_dated uncut.inv.store whole (listed member) clock.last.1
  have cut (stage : Stage) (member : stage ∈ older) : history.horizon < stage.1 := by
    have early := (dates member).1
    lia
  have fits (stage : Stage) (member : stage ∈ older) (tuple : Tuple) (was : stage.2 = some tuple) :
      tuple.Fits (history.mgr.catalog slot.oid) := by
    have shape := stages_shape uncut.inv.store found whole (listed member) was
    exact shape.1.trans (uncut.inv.store.fits rid slot found)
  obtain ⟨versions, chained, stamps, above, falls, columns⟩ :=
    chain_chained chain (by lia) cut uncut.inv.store.logs fits
  refine ⟨versions, chained, above, fun version member => ?_, falls, columns⟩
  have inside : version.2.ts ∈ older.map Prod.fst := stamps ▸ List.mem_map_of_mem member
  obtain ⟨stage, here, same⟩ := List.mem_map.mp inside
  have late := (dates here).2
  have early := last_commit_below_ids clock
  lia

/-- Of the logs below an uncommitted row only the first can be its writer's. -/
theorem owned_once (uncut : Uncut history) (live : history.Live id txn)
    (written : (history.ledger.pending id rid).isSome)
    (origin : OriginInv (history.mgr.getUndoLink rid) history.logs history.image
      (history.origin id rid) id all)
    (chained : Chained history.mgr (history.link rid) versions) :
    (versions.filter fun version => version.1.prevTxn = id).length ≤ 1 := by
  cases origin with
  | created unlinked _ _ =>
      have root : Chained history.mgr (history.link rid) [] :=
        Chained.root (by rw [History.link, unlinked]; rfl)
      simp [chained_unique chained root]
  | logged link log origin linked owner logged known _ prev _ =>
      have current : history.link rid = link := by rw [History.link, linked, Option.getD_some]
      obtain ⟨rest, below, gone⟩ := uncut.owners.found id rid origin written known
      have whole : Chained history.mgr link ((link, log) :: rest) :=
        Chained.older (uncut.inv.store.links rid link linked) logged (prev ▸ below)
      have others : (rest.filter fun version => version.1.prevTxn = id) = [] := by
        refine List.filter_eq_nil_iff.mpr fun version member own => ?_
        have ended := gone version.1 (List.mem_map_of_mem member)
        rw [of_decide_eq_true own] at ended
        exact ended.2 txn live
      rw [current] at chained
      obtain rfl := chained_unique chained whole
      rw [List.filter_cons, others]
      split
      · exact Nat.le_refl 1
      · exact Nat.zero_le 1

theorem chain_formed (uncut : Uncut history) (rid : RID) : ChainFormed history.mgr rid := by
  obtain ⟨ids, clock⟩ := uncut.inv.clock
  unfold ChainFormed
  cases found : history.mgr.heap.lookup rid with
  | none =>
      rw [(uncut.inv.store.empty rid found).1]
      exact ⟨[], Chained.root rfl, rfl⟩
  | some slot =>
      cases uncut.inv.store.slot rid slot found with
      | settled row older free whole shows chain =>
          have dated := stages_dated uncut.inv.store whole (List.mem_cons_self ..) clock.last.1
          obtain ⟨versions, chained, above, committed, falls, columns⟩ :=
            slot_chained uncut found whole (List.subset_cons_self _ _) chain dated.1
          have early : slot.metadata.ts < TXN_START_ID := by
            have latest := dated.2
            have below := last_commit_below_ids clock
            lia
          exact ⟨versions, chained, HeadFormed.committed early above, committed, falls,
            shows.flag ▸ columns⟩
      | owned id txn row all live written alone shows stamped whole chain older origin =>
          have late := stamp_late uncut.inv clock live rid
          have last := clock.last.1
          obtain ⟨versions, chained, above, committed, falls, columns⟩ :=
            slot_chained uncut found whole (fun _ member => member) chain (by lia)
          refine ⟨versions, chained, ?_, committed, falls, shows.flag ▸ columns⟩
          rcases stamp_cases (uncut.inv.calls id) rid with own | next
          · have mine : slot.metadata.ts = id := stamped.trans own
            have once := owned_once uncut live (by rw [written]; rfl) origin chained
            rw [← mine] at once
            exact HeadFormed.temporary (mine ▸ live_id clock live) txn (mine ▸ live.1) live.2 once
          · have small := commit_ts_below_ids clock live
            exact HeadFormed.committed (by lia) above

end Forms

section Runs
variable {catalog : TableOid → Schema} {mgr : TransactionManager}

/-- In every state that transactions reach without a garbage collection, the
undo chain of every RID is well formed. -/
theorem chains_well_formed (reached : Reachable (· = TransactionManager.new catalog)
      (guarded (fun _ op => !op.collects) (graph TransactionManager.step)) mgr) (rid : RID) :
    ChainFormed mgr rid := by
  obtain ⟨_, ops, rfl, run⟩ := reached
  have follows (before : TransactionManager) (op : TxnOp) (after : TransactionManager)
    (history : History)
    (related : history.mgr = before ∧ Uncut history)
    (step : guarded (fun _ op => !op.collects) (graph TransactionManager.step) before op after) :
    ∃ next, True ∧ (next.mgr = after ∧ Uncut next) := by
    obtain ⟨rfl, uncut⟩ := related
    obtain ⟨keeps, ran⟩ := step
    have stepped : history.step op = some { history.record op with mgr := after } :=
      Option.map_eq_some_iff.mpr ⟨after, ran, rfl⟩
    exact ⟨_, trivial, rfl, uncut_step uncut stepped (by simpa using keeps)⟩
  have start : Uncut (History.start catalog) := ⟨start_inv catalog, owners_start catalog, rfl⟩
  obtain ⟨history, _, rfl, uncut⟩ := run_follows follows run ⟨rfl, start⟩
  exact chain_formed uncut rid

end Runs

def revivedRun : List TxnOp :=
  [.begin .snapshotIsolation, .insert TXN_START_ID 0 firstSlot [number 1], .commit TXN_START_ID,
    .stamp TXN_START_ID 0 firstSlot, .publish TXN_START_ID, .begin .snapshotIsolation,
    .modify (TXN_START_ID + 1) firstSlot none false, .commit (TXN_START_ID + 1),
    .stamp (TXN_START_ID + 1) 0 firstSlot, .publish (TXN_START_ID + 1), .begin .snapshotIsolation,
    .modify (TXN_START_ID + 2) firstSlot (some [number 2]) true]

def revivedFrom (mgr : TransactionManager) : Option TransactionManager :=
  revivedRun.foldlM (fun mgr op => if !op.collects then mgr.step op else none) mgr

theorem revived_run_returns : (revivedFrom (TransactionManager.new oneColumn)).isSome =
    true := by decide

def revived : TransactionManager :=
  (revivedFrom (TransactionManager.new oneColumn)).get revived_run_returns

/-- The chain leads from the new row over the deleted one to the first. -/
theorem revived_chain_formed : ChainFormed revived firstSlot := by
  have run := run_of_guarded_fold (Option.some_get revived_run_returns).symm
  exact chains_well_formed ⟨_, revivedRun, rfl, run⟩ firstSlot

end BusTub
