import BusTub.MvccReads

/-!
`Commit` as far as its stamps: the lock and the walk of `VerifyTxn` over the
versions of every RID that was written since the snapshot.
-/

namespace BusTub

open Function (update)
open TransactionManager (matchesAny)

section Validation
variable {before : History} {id : TxnId} {txn : Transaction} {rid : RID} {slot : Slot}
  {ids : List TxnId} {mgr : TransactionManager} {all newer older : List Stage} {walk : VersionWalk}
  {oid : TableOid} {rest : List (TableOid × RID)}

theorem pick_of_mem (ts : Timestamp) (stages : List Stage) :
    pick ts stages = none ∨ ∃ stage ∈ stages, stage.1 ≤ ts ∧ pick ts stages = stage.2 := by
  unfold pick
  cases found : stages.find? fun stage => decide (stage.1 ≤ ts) with
  | none => exact Or.inl rfl
  | some stage =>
      have early := List.find?_some found
      exact Or.inr ⟨stage, List.mem_of_find?_eq_some found, of_decide_eq_true early, rfl⟩

/-- The version a snapshot picks is not below one that it covers. -/
theorem pick_reached {ts : Timestamp} (newer older : List Stage) (stage : Stage)
    (reached : stage.1 ≤ ts) :
    pick ts (newer ++ stage :: older) = stage.2 ∨
      ∃ above ∈ newer, pick ts (newer ++ stage :: older) = above.2 := by
  unfold pick
  rw [List.find?_append]
  cases found : newer.find? fun above => decide (above.1 ≤ ts) with
  | none => exact Or.inl (by simp [reached])
  | some above => exact Or.inr ⟨above, List.mem_of_find?_eq_some found, rfl⟩

/-- A RID is cleared when no version down to the one of the snapshot is accepted. -/
theorem cleared_of_refused (whole : StagesOf before.ledger rid all)
    (late : ∀ stage ∈ all, txn.readTs < stage.1 → matchesAny txn oid stage.2 = false)
    (picked : matchesAny txn oid (pick txn.readTs all) = false) : Cleared before txn oid rid := by
  refine ⟨fun version member after => ?_, ?_⟩
  · exact late (version.commitTs, version.row) (version_listed whole member) after
  · rw [← pick_of_stages whole]
    exact picked

/-- All versions are refused. -/
theorem cleared_of_all (whole : StagesOf before.ledger rid all)
    (refused : ∀ stage ∈ all, matchesAny txn oid stage.2 = false) : Cleared before txn oid rid := by
  refine cleared_of_refused whole (fun stage member _ => refused stage member) ?_
  rcases pick_of_mem txn.readTs all with none | ⟨stage, member, _, same⟩
  · rw [none]
    rfl
  · rw [same]
    exact refused stage member

/-- The walk has come to the version of the snapshot. -/
theorem walk_reached (inv : Inv before) (clock : ClockInv before ids) (live : before.Live id txn)
    (walks : WalkInv before txn rid walk newer older) (reached : walk.metadata.ts ≤ txn.readTs)
    (sameTable : oid = walk.oid) (changed : Changed before txn oid rid) :
    Cleared before txn oid rid := by
  subst sameTable
  have snapshot := clock.readTs id txn live
  have small := commit_ts_below_ids clock live
  rcases walks.position with ⟨_, whole⟩ | ⟨late, _⟩
  · have falling := stages_fall inv.store clock.last.1 whole
    have early (stage : Stage) (member : stage ∈ (walk.metadata.ts, walk.current) :: older) :
        stage.1 ≤ txn.readTs := by
      rcases List.mem_cons.mp member with rfl | below
      · exact reached
      · have under := (List.pairwise_cons.mp (List.pairwise_append.mp falling).2.1).1 stage below
        dsimp only at under
        lia
    refine cleared_of_refused whole ?_ ?_
    · intro stage member after
      rcases List.mem_append.mp member with above | below
      · exact walks.refused stage above
      · have before' := early stage below
        lia
    · have passed : newer ≠ [] := by
        rintro rfl
        obtain ⟨_, _, version, member, after⟩ := changed
        have before' : version.commitTs ≤ txn.readTs :=
          early (version.commitTs, version.row) (version_listed whole member)
        lia
      rcases pick_reached newer older (walk.metadata.ts, walk.current) reached with same |
        ⟨above, member, same⟩
      · rw [same]
        exact walks.below passed
      · rw [same]
        exact walks.refused above member
  · lia

/-- A version that is refused: neither it nor the row before it is accepted. -/
theorem walk_refuses (refuses : before.mgr.walkMatches txn walk = false)
    (committed : walk.metadata.ts < TXN_START_ID) :
    matchesAny txn walk.oid walk.current = false ∧
      matchesAny txn walk.oid (before.mgr.rowBehind walk) = false := by
  simpa [TransactionManager.walkMatches, committed] using refuses

/-- There is no older version: every version has been refused. -/
theorem walk_ended (walks : WalkInv before txn rid walk newer [])
    (refuses : before.mgr.walkMatches txn walk = false) : Cleared before txn walk.oid rid := by
  rcases walks.position with ⟨committed, whole⟩ | ⟨_, _, whole⟩
  · refine cleared_of_all whole fun stage member => ?_
    rcases List.mem_append.mp member with above | here
    · exact walks.refused stage above
    · rw [List.mem_singleton.mp here]
      exact (walk_refuses refuses committed).1
  · exact cleared_of_all whole fun stage member => by cases member

/-- One log back. -/
theorem walk_back_spec (inv : Inv before) (clock : ClockInv before ids) (live : before.Live id txn)
    (walks : WalkInv before txn rid walk newer older) (late : txn.readTs < walk.metadata.ts)
    (refuses : before.mgr.walkMatches txn walk = false) :
    (before.mgr.walkBack walk = none ∧ older = []) ∨
      ∃ walk' newer' older', before.mgr.walkBack walk = some walk' ∧ walk'.oid = walk.oid ∧
        WalkInv before txn rid walk' newer' older' := by
  have snapshot := clock.readTs id txn live
  cases valid : walk.link.isValid with
  | false =>
      refine Or.inl ⟨?_, chain_root (by lia) valid walks.chain⟩
      simp [TransactionManager.walkBack, TransactionManager.logBehind, valid]
  | true =>
      obtain ⟨log, rest, found, rfl, earlier, covers, below⟩ :=
        chain_link (by lia) valid walks.chain
      obtain ⟨ts, stands⟩ := inv.store.logs walk.link log found
      have sameLength (tuple : Tuple) (was : (before.image walk.link).2 = some tuple) :=
        walks.lengths _ (List.mem_cons_self ..) tuple was
      have restored := (apply_log walks.shows stands covers sameLength).1
      have behind : before.mgr.logBehind walk = some log := by
        simp only [TransactionManager.logBehind, valid, if_true]
        exact found
      have row : before.mgr.rowBehind walk = (before.image walk.link).2 := by
        rw [TransactionManager.rowBehind, behind]
        exact (shows_iff.mp restored).symm
      have back : before.mgr.walkBack walk = some { walk with
          metadata := { ts := log.ts, isDeleted := log.isDeleted }
          base := (before.image walk.link).2.getD walk.base
          link := log.prevVersion
          current := (before.image walk.link).2 } := by
        rw [TransactionManager.walkBack, behind, row]
        rfl
      have lengths (stage : Stage) (member : stage ∈ rest) (tuple : Tuple)
        (same : stage.2 = some tuple) :
        ((before.image walk.link).2.getD walk.base).length = tuple.length := by
        have whole := walks.lengths stage (List.mem_cons_of_mem _ member) tuple same
        cases was : (before.image walk.link).2 with
        | none => exact whole
        | some values => exact (sameLength values was).symm.trans whole
      have shows : Shows ((before.image walk.link).2.getD walk.base) log.isDeleted
        (before.image walk.link).2 :=
        shows_restored stands walk.base
      rcases walks.position with ⟨committed, whole⟩ | ⟨temporary, none, whole⟩
      · obtain ⟨refused, refused'⟩ := walk_refuses refuses committed
        rw [row] at refused'
        refine Or.inr ⟨_, newer ++ [(walk.metadata.ts, walk.current)], rest, back, rfl, shows,
            ts ▸ below, lengths, Or.inl ⟨by dsimp only; lia, ?_⟩, ?_, fun _ => refused'⟩
        · rw [List.append_assoc]
          exact ts ▸ whole
        · intro stage member
          rcases List.mem_append.mp member with above | here
          · exact walks.refused stage above
          · rw [List.mem_singleton.mp here]
            exact refused
      · have dated := stages_dated inv.store whole (List.mem_cons_self ..) clock.last.1
        have small := commit_ts_below_ids clock live
        refine Or.inr ⟨_, [], rest, back, rfl, shows, ts ▸ below, lengths,
            Or.inl ⟨by dsimp only; lia, ts ▸ whole⟩, by simp, fun above => absurd rfl above⟩

/-- Nobody stamps while another transaction is inside `VerifyTxn`. -/
theorem stamp_unlocked (inv : Inv before) (mutex : before.mgr.commitMutex = some id)
    {walk : Option VersionWalk}
    (stage : before.mgr.control id = .verifying rest walk) (writer : TxnId) (rid : RID) :
    before.stampOf writer rid = writer := by
  have call := inv.calls writer
  unfold History.stampOf
  cases stage' : before.mgr.control writer with
  | stamping commitTs rest =>
      rw [stage'] at call
      obtain rfl : id = writer := Option.some.inj (mutex.symm.trans call.1)
      cases stage.symm.trans stage'
  | _ => rfl

/-- The walk begins at what the slot shows. -/
theorem walk_start (inv : Inv before) (clock : ClockInv before ids) (live : before.Live id txn)
    (mutex : before.mgr.commitMutex = some id) {walk : Option VersionWalk}
    (stage : before.mgr.control id = .verifying rest walk)
    (found : before.mgr.heap.lookup rid = some slot) (oid : TableOid) :
    ∃ older, WalkInv before txn rid
      { oid := oid, metadata := slot.metadata, base := slot.tuple, link := before.link rid,
        current := reconstructTuple slot.tuple slot.metadata [] } [] older := by
  have small := commit_ts_below_ids clock live
  have refused (stage : Stage) (member : stage ∈ ([] : List Stage)) :
      matchesAny txn oid stage.2 = false := by cases member
  cases inv.store.slot rid slot found with
  | settled row older free whole shows chain =>
      have current : reconstructTuple slot.tuple slot.metadata [] = row := (shows_iff.mp shows).symm
      have dated := stages_dated inv.store whole (List.mem_cons_self ..) clock.last.1
      dsimp only at dated
      refine ⟨older, current ▸ shows, current ▸ chain, ?_, Or.inl ⟨by dsimp only; lia, ?_⟩, refused,
        fun above => absurd rfl above⟩
      · intro stage member tuple same
        exact same_shape_length
          (stages_shape inv.store found whole (List.mem_cons_of_mem _ member) same)
      · exact current ▸ whole
  | owned writer record row all liveWriter written alone shows stamped whole chain early origin =>
      have current : reconstructTuple slot.tuple slot.metadata [] = row := (shows_iff.mp shows).symm
      have start := live_id clock liveWriter
      have own := stamped.trans (stamp_unlocked inv mutex stage writer rid)
      refine ⟨all, current ▸ shows, current ▸ chain, ?_,
          Or.inr ⟨by dsimp only; lia, rfl, whole⟩, refused, fun above => absurd rfl above⟩
      intro stage member tuple same
      exact same_shape_length (stages_shape inv.store found whole member same)

end Validation

section Steps
variable {before : History} {id : TxnId} {txn : Transaction} {mgr : TransactionManager} {rid : RID}
  {oid : TableOid} {rest : List (TableOid × RID)}

/-- A transaction about to stamp its write set has stamped nothing. -/
theorem stamping_none (inv : Inv before) (live : before.Live id txn)
    (owes : before.owes id txn = txn.writeSet) (commitTs : Timestamp)
    (written : (before.ledger.pending id rid).isSome) :
    (Control.stamping commitTs txn.writeSet).stampOf id rid = id := by
  cases found : before.mgr.heap.lookup rid with
  | none =>
      have empty := (inv.store.empty rid found).2.2 id
      rw [empty.1] at written
      cases written
  | some slot =>
      have member := ((inv.writes.owes id txn live).2 slot.oid rid).mpr ⟨written, slot, found, rfl⟩
      rw [owes] at member
      have any : txn.writeSet.any (fun write => write.2 = rid) = true :=
        List.any_eq_true.mpr ⟨(slot.oid, rid), member, by simp⟩
      simp [Control.stampOf, any]

theorem write_set_nodup (inv : Inv before) (live : before.Live id txn)
    (owes : before.owes id txn = txn.writeSet) : txn.writeSet.Nodup :=
  owes ▸ (inv.writes.owes id txn live).1

/-- What `VerifyTxn` sets out to look at. -/
theorem mem_changed :
    (oid, rid) ∈ before.mgr.changed txn ↔ (txn.scanPredicates.lookup oid).isSome ∧
      ∃ id other, before.mgr.txnMap.lookup id = some other ∧ other.state = .committed ∧
        txn.readTs < other.commitTs ∧ (oid, rid) ∈ other.writeSet := by
  unfold TransactionManager.changed
  rw [List.mem_dedup, List.mem_flatMap]
  constructor
  · rintro ⟨⟨other, record⟩, entry, member⟩
    split at member
    · rename_i recent
      obtain ⟨wrote, kept⟩ := List.mem_filter.mp member
      exact ⟨kept, other, record, AList.mem_lookup_iff.mpr entry, recent.1, recent.2, wrote⟩
    · cases member
  · rintro ⟨kept, other, record, found, committed, late, wrote⟩
    refine ⟨⟨other, record⟩, AList.mem_lookup_iff.mp found, ?_⟩
    rw [if_pos ⟨committed, late⟩]
    exact List.mem_filter.mpr ⟨wrote, kept⟩

/-- Everything that was written since the snapshot is on the list. -/
theorem changed_listed (inv : Inv before) (live : before.Live id txn)
    (serializable : txn.isolationLevel = .serializable)
    (changed : Changed before txn oid rid) : (oid, rid) ∈ before.mgr.changed txn := by
  obtain ⟨kept, ⟨slot, here, rfl⟩, version, member, late⟩ := changed
  obtain ⟨writer, slot', found, committed, commitTs, here', wrote⟩ :=
    inv.recorded id txn live serializable rid version member late
  obtain rfl : slot = slot' := Option.some.inj (here.symm.trans here')
  exact mem_changed.mpr ⟨kept, version.writer, writer, found, committed, commitTs ▸ late, wrote⟩

/-- A transaction that goes into `VerifyTxn` or starts to stamp holds the commit mutex. -/
theorem commit_moved (inv : Inv before) (stepped : before.mgr.commit id = some mgr) :
    Moved before { before with mgr := mgr } id := by
  obtain ⟨txn, ready, same⟩ := Option.bind_eq_some_iff.mp stepped
  obtain ⟨inMap, live, rest⟩ := TransactionManager.ready_iff.mp ready
  have owes : before.owes id txn = txn.writeSet := owes_at_rest rest
  split at same
  · cases same
  · rename_i allowed
    obtain ⟨running, free⟩ := not_or.mp allowed
    have running := Decidable.not_not.mp running
    have free : before.mgr.commitMutex = none := by simpa using free
    have holds (other : TxnId) (_ : other ≠ id) (held : before.mgr.commitMutex = some other) :
        some id = some other := by
      rw [free] at held
      cases held
    split at same
    · rename_i checked
      obtain rfl := Option.some.inj same
      exact quiet_locked inv ⟨inMap, live⟩ (fun place _ => (stamp_at_rest rest).symm)
        owes.symm holds
        ⟨rfl, txn, inMap, running,
          VerifyInv.between fun _ _ changed =>
            Or.inl (changed_listed inv ⟨inMap, live⟩ checked.1 changed)⟩
    · rename_i unchecked
      obtain rfl := Option.some.inj same
      refine quiet_locked inv ⟨inMap, live⟩ ?_ owes.symm holds
        ⟨rfl, rfl, write_set_nodup inv ⟨inMap, live⟩ owes, txn, inMap, running, List.Subset.refl _,
          fun serializable wrote => absurd ⟨serializable, wrote⟩ unchecked⟩
      intro place written
      rw [stamp_at_rest rest]
      exact stamping_none inv ⟨inMap, live⟩ owes _ written

/-- What is known of a transaction inside `VerifyTxn`. -/
theorem verifying_facts (inv : Inv before) {walk : Option VersionWalk}
    (stage : before.mgr.control id = .verifying rest walk) :
    before.mgr.commitMutex = some id ∧ ∃ txn, before.mgr.txnMap.lookup id = some txn ∧
      txn.state = .running ∧ before.Live id txn ∧ before.owes id txn = txn.writeSet ∧
      (∀ rid, before.stampOf id rid = id) ∧ VerifyInv before txn rest walk := by
  have call := inv.calls id
  rw [stage] at call
  obtain ⟨mutex, txn, found, running, verify⟩ := call
  refine ⟨mutex, txn, found, running, ⟨found, by simp [Transaction.live, running]⟩, ?_, ?_, verify⟩
  · rw [History.owes, stage]
    rfl
  · intro rid
    rw [History.stampOf, stage]
    rfl

/-- A round of `VerifyTxn` that goes on. -/
theorem verifying_moved (inv : Inv before) {rest rest' : List (TableOid × RID)}
    {walk walk' : Option VersionWalk} (stage : before.mgr.control id = .verifying rest walk)
    (verify : ∀ txn, before.mgr.txnMap.lookup id = some txn → VerifyInv before txn rest' walk') :
    Moved before { before with mgr := before.mgr.setControl id (.verifying rest' walk') } id := by
  obtain ⟨mutex, txn, found, running, live, owes, stamp, _⟩ := verifying_facts inv stage
  have tables : SameTables before { before with
      mgr := before.mgr.setControl id (.verifying rest' walk') } :=
    fun _ slot here => ⟨slot, here, rfl⟩
  exact quiet_control inv live (fun place _ => (stamp place).symm) owes.symm ⟨mutex, txn,
      found, running, verify_frame inv.store tables (logs_grow_refl _ _) rfl rfl (verify txn found)⟩

theorem verify_rid_moved (inv : Inv before) (stepped : before.mgr.verifyRid id oid rid = some mgr) :
    Moved before { before with mgr := mgr } id := by
  unfold TransactionManager.verifyRid at stepped
  split at stepped
  · rename_i rest stage
    split at stepped
    · obtain ⟨slot, found, same⟩ := Option.bind_eq_some_iff.mp stepped
      obtain rfl := Option.some.inj same
      refine verifying_moved inv stage fun txn inMap => ?_
      obtain ⟨mutex, record, inMap', running, live, _, _, verify⟩ := verifying_facts inv stage
      obtain rfl : txn = record := Option.some.inj (inMap.symm.trans inMap')
      obtain ⟨ids, clock⟩ := inv.clock
      obtain ⟨older, walks⟩ := walk_start inv clock live mutex stage found oid
      cases verify with
      | between left =>
          refine VerifyInv.walking _ rid [] older walks fun oid' place changed => ?_
          rcases left oid' place changed with ahead | cleared
          · by_cases here : (oid', place) = (oid, rid)
            · exact Or.inr (Or.inr (Prod.mk.inj here))
            · exact Or.inl ((List.mem_erase_of_ne here).mpr ahead)
          · exact Or.inr (Or.inl cleared)
    · cases stepped
  · cases stepped

/-- The loop over one RID has ended without a match. -/
theorem verify_next {walk : VersionWalk} (left : ∀ oid place, Changed before txn oid place →
      (oid, place) ∈ rest ∨ Cleared before txn oid place ∨ (oid = walk.oid ∧ place = rid))
    (cleared : Changed before txn walk.oid rid → Cleared before txn walk.oid rid) :
    VerifyInv before txn rest none := by
  refine VerifyInv.between fun oid place changed => ?_
  rcases left oid place changed with ahead | done | ⟨rfl, rfl⟩
  · exact Or.inl ahead
  · exact Or.inr done
  · exact Or.inr (cleared changed)

theorem verify_version_moved (inv : Inv before) (stepped : before.mgr.verifyVersion id = some mgr) :
    Moved before { before with mgr := mgr } id := by
  obtain ⟨txn, inMap, same⟩ := Option.bind_eq_some_iff.mp stepped
  split at same
  · rename_i rest walk stage
    obtain ⟨mutex, record, found, running, live, owes, stamp, verify⟩ := verifying_facts inv stage
    obtain rfl : txn = record := Option.some.inj (inMap.symm.trans found)
    obtain ⟨ids, clock⟩ := inv.clock
    cases verify with
    | walking _ rid newer older walks left =>
        split at same
        · rename_i reached
          obtain rfl := Option.some.inj same
          refine verifying_moved inv stage fun record inMap' => ?_
          obtain rfl : txn = record := Option.some.inj (inMap.symm.trans inMap')
          exact verify_next left (walk_reached inv clock live walks reached rfl)
        · rename_i late
          split at same
          · obtain rfl := Option.some.inj same
            refine quiet_locked inv live (fun place _ => (stamp place).symm) owes.symm
              ?_ ⟨txn, live⟩
            intro other different held
            rw [mutex, Option.some.injEq] at held
            exact absurd held.symm different
          · rename_i refuses
            obtain rfl := Option.some.inj same
            refine verifying_moved inv stage fun record inMap' => ?_
            obtain rfl : txn = record := Option.some.inj (inMap.symm.trans inMap')
            rcases walk_back_spec inv clock live walks (Int.not_le.mp late)
              (by simpa using refuses) with
              ⟨ended, rfl⟩ | ⟨walk', newer', older', back, sameOid, walks'⟩
            · rw [ended]
              exact verify_next left fun _ => walk_ended walks (by simpa using refuses)
            · rw [back]
              exact VerifyInv.walking walk' rid newer' older' walks' (sameOid ▸ left)
  · cases same

theorem verified_moved (inv : Inv before) (stepped : before.mgr.verified id = some mgr) :
    Moved before { before with mgr := mgr } id := by
  obtain ⟨txn, inMap, same⟩ := Option.bind_eq_some_iff.mp stepped
  split at same
  · rename_i stage
    obtain rfl := Option.some.inj same
    obtain ⟨mutex, record, found, running, live, owes, stamp, verify⟩ := verifying_facts inv stage
    obtain rfl : txn = record := Option.some.inj (inMap.symm.trans found)
    have validated : Validated before txn := by
      intro _ _ oid rid changed
      cases verify with
      | between left =>
          rcases left oid rid changed with ahead | cleared
          · cases ahead
          · exact cleared
    refine quiet_control inv live ?_ owes.symm
      ⟨mutex, rfl, write_set_nodup inv live owes, txn, found, running, List.Subset.refl _,
        validated_frame inv.store (fun _ slot found => ⟨slot, found, rfl⟩) rfl validated⟩
    intro place written
    rw [stamp]
    exact stamping_none inv live owes _ written
  · cases same

theorem abort_moved (inv : Inv before) (stepped : before.mgr.abort id = some mgr) :
    Moved before { before with mgr := mgr } id := by
  obtain ⟨txn, ready, same⟩ := Option.bind_eq_some_iff.mp stepped
  obtain ⟨inMap, live, rest⟩ := TransactionManager.ready_iff.mp ready
  obtain rfl := Option.some.inj same
  exact quiet_control inv ⟨inMap, live⟩ (fun place _ => (stamp_at_rest rest).symm)
    (owes_at_rest rest).symm ⟨txn, inMap, live⟩

end Steps

end BusTub
