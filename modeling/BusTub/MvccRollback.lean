import BusTub.MvccWrites

/-!
The loops over a write set: the stamps of a commit and the rollback of an abort.
-/

namespace BusTub

open Function (update)

section Stamps
variable {before after : History} {id : TxnId} {txn : Transaction} {rid : RID} {slot slot' : Slot}
  {ids : List TxnId} {mgr next : TransactionManager} {oid : TableOid} {rest : List (TableOid × RID)}
  {info : UnorderedMap RID UndoLink} {log : UndoLog}

/-- What a writer knows of a slot it has written. -/
theorem slot_pending (inv : Inv before) (live : before.Live id txn)
    (found : before.mgr.heap.lookup rid = some slot)
    (written : (before.ledger.pending id rid).isSome) :
    ∃ row all, before.ledger.pending id rid = some row ∧
      (∀ other, other ≠ id → before.ledger.pending other rid = none) ∧
      Shows slot.tuple slot.metadata.isDeleted row ∧ slot.metadata.ts = before.stampOf id rid ∧
      StagesOf before.ledger rid all ∧
      Chain before.logs before.image before.horizon slot.metadata.ts row (before.link rid) all ∧
      (∀ stage ∈ all, stage.1 ≤ txn.readTs) ∧
      OriginInv (before.mgr.getUndoLink rid) before.logs before.image
        (before.origin id rid) id all := by
  cases inv.store.slot rid slot found with
  | settled row older free whole shows chain =>
      rw [free id] at written
      cases written
  | owned writer record row all liveWriter pending alone shows stamped whole chain older origin =>
      by_cases same : id = writer
      · subst same
        obtain rfl : record = txn := Option.some.inj (liveWriter.1.symm.trans live.1)
        exact ⟨row, all, pending, alone, shows, stamped, whole, chain, older, origin⟩
      · rw [alone id same] at written
        cases written

/-- A step that leaves the record of its transaction alone and grows no log. -/
theorem touch_slot {control : Control} {ledger : Ledger} (inv : Inv before)
    (live : before.Live id txn)
    (sameTable : ∀ old, before.mgr.heap.lookup rid = some old → old.oid = slot'.oid)
    (links : ∀ place, place ≠ rid → info.lookup place = before.mgr.versionInfo.lookup place)
    (committed : ledger.committed = before.ledger.committed)
    (pending : ∀ other place, other ≠ id ∨ place ≠ rid →
      ledger.pending other place = before.ledger.pending other place)
    (stamp : ∀ place, place ≠ rid → (before.ledger.pending id place).isSome →
      control.stampOf id place = before.stampOf id place) :
    Touch before { before with
      mgr := { before.mgr with
        heap := before.mgr.heap.insert rid slot', versionInfo := info,
        control := update before.mgr.control id control }
      ledger := ledger } id rid := by
  have sameLogs : logsWith before.logs id txn.undoLogs = before.logs := logs_with_same live
  refine touch_of live live.1 live.2 ⟨rfl, rfl⟩ sameTable (fun _ _ => rfl) links committed pending
    (fun _ _ _ => rfl) ?_ ?_ stamp
  · rw [sameLogs]
    exact logs_grow_refl _ _
  · rw [sameLogs]
    exact inv.store.logs

/-- A slot stays in its table. -/
theorem same_tables (touch : Touch before after id rid)
    (found : before.mgr.heap.lookup rid = some slot) (now : after.mgr.heap.lookup rid = some slot')
    (sameTable : slot.oid = slot'.oid) (oid : TableOid) (place : RID) :
    (∃ slot, after.mgr.heap.lookup place = some slot ∧ slot.oid = oid) ↔
      ∃ slot, before.mgr.heap.lookup place = some slot ∧ slot.oid = oid := by
  by_cases here : place = rid
  · subst here
    simp [found, now, sameTable]
  · rw [touch.heap place here]

theorem erase_elsewhere {place : RID} (different : place ≠ rid) :
    ((rest.erase (oid, rid)).any fun write => write.2 = place) = rest.any fun write =>
      write.2 = place := by
  rw [Bool.eq_iff_iff, List.any_eq_true, List.any_eq_true]
  constructor
  · rintro ⟨write, member, same⟩
    exact ⟨write, List.mem_of_mem_erase member, same⟩
  · rintro ⟨write, member, same⟩
    refine ⟨write, (List.mem_erase_of_ne ?_).mpr member, same⟩
    rintro rfl
    exact different (of_decide_eq_true same).symm

theorem stamp_moved (inv : Inv before) (stepped : before.mgr.stamp id oid rid = some mgr) :
    Moved before { before with mgr := mgr } id := by
  unfold TransactionManager.stamp at stepped
  split at stepped
  · rename_i commitTs rest stage
    split at stepped
    · rename_i member
      obtain ⟨slot, found, same⟩ := Option.bind_eq_some_iff.mp stepped
      have call := inv.calls id
      rw [stage] at call
      obtain ⟨mutex, next, unique, txn, inMap, running, inside, validated⟩ := call
      obtain ⟨ids, clock⟩ := inv.clock
      have live : before.Live id txn := ⟨inMap, by simp [Transaction.live, running]⟩
      have owes : before.owes id txn = txn.writeSet := by
        rw [History.owes, stage]
        rfl
      have exact' := (inv.writes.owes id txn live).2
      rw [owes] at exact'
      obtain ⟨written, here, found', sameOid⟩ := (exact' oid rid).mp (inside member)
      obtain rfl : slot = here := Option.some.inj (found.symm.trans found')
      obtain ⟨row, all, pending, alone, shows, stamped, whole, chain, older, origin⟩ :=
        slot_pending inv live found written
      have unstamped : slot.metadata.ts = id := by
        have any : rest.any (fun write => write.2 = rid) = true :=
          List.any_eq_true.mpr ⟨(oid, rid), member, by simp⟩
        rw [stamped, History.stampOf, stage]
        simp [Control.stampOf, any]
      have done : (rest.erase (oid, rid)).any (fun write => write.2 = rid) = false := by
        rw [List.any_eq_false]
        rintro ⟨oid', place⟩ left same
        obtain rfl : place = rid := by simpa using same
        obtain ⟨_, other, foundOther, sameOther⟩ :=
          (exact' oid' place).mp (inside (List.mem_of_mem_erase left))
        obtain rfl : slot = other := Option.some.inj (found.symm.trans foundOther)
        obtain rfl : oid = oid' := sameOid.symm.trans sameOther
        exact unique.not_mem_erase left
      simp only [unstamped, if_true, Slot.updateTupleInPlace, ne_eq, not_true, if_false] at same
      obtain rfl := Option.some.inj same
      have sameTable (old : Slot) (was : before.mgr.heap.lookup rid = some old) : old.oid =
          slot.oid := by
        rw [Option.some.inj (was.symm.trans found)]
      have touch : Touch before { before with
          mgr := (before.mgr.setControl id (.stamping commitTs (rest.erase (oid, rid)))).setSlot rid
            { slot with metadata := { ts := commitTs, isDeleted := slot.metadata.isDeleted } } } id
              rid := by
        refine touch_slot inv live sameTable (fun _ _ => rfl) rfl (fun _ _ _ => rfl) ?_
        intro place different _
        rw [History.stampOf, stage, Control.stampOf, Control.stampOf, erase_elsewhere different]
      have late := stamp_late inv clock live rid
      have snapshot := clock.readTs id txn live
      refine touch_moved touch inv ?_ ?_ ?_
      · refine touch_store touch inv.store (AList.lookup_insert _) ?_
          (inv.store.fits rid slot found)
          (fun other tuple => inv.store.pendingShape other rid slot tuple found)
          (fun version member tuple => inv.store.committedShape rid slot version tuple found member)
          (inv.store.links rid)
        refine SlotInv.owned id txn row all live pending alone shows ?_ whole ?_ older origin
        · simp [History.stampOf, Control.stampOf, TransactionManager.setSlot,
            TransactionManager.setControl, done]
        · refine chain_restamp ?_ ?_ chain
          · rw [stamped]
            lia
          · intro stage member
            have early := older stage member
            dsimp only
            lia
      · refine touch_writes touch inv.writes (AList.lookup_insert _) sameTable ?_ ?_
        · intro other _ absent
          cases absent.symm.trans found
        · intro record now
          obtain rfl : txn = record := Option.some.inj (inMap.symm.trans now.1)
          have still : History.owes { before with
              mgr := (before.mgr.setControl id (.stamping commitTs (rest.erase (oid, rid)))).setSlot
                rid
                { slot with metadata := { ts := commitTs, isDeleted := slot.metadata.isDeleted } } }
                  id txn =
              txn.writeSet := by
            simp [History.owes, Control.owes, TransactionManager.setSlot,
              TransactionManager.setControl]
          rw [still, ← owes]
          refine ⟨(inv.writes.owes id txn live).1, fun oid' place => ?_⟩
          rw [same_tables touch found (AList.lookup_insert _) rfl]
          exact (inv.writes.owes id txn live).2 oid' place
      · exact (congrArg (CallInv _ id) (TransactionManager.control_set_control _)).mpr
          ⟨mutex, next, unique.erase _, txn, inMap, running,
            fun _ left => inside (List.mem_of_mem_erase left),
            validated_frame inv.store touch.tables rfl validated⟩
    · cases stepped
  · cases stepped

/-- A RID of the write set is free again, with some committed row on top. -/
theorem rolled_back_moved {row : Option Tuple} {older : List Stage} (inv : Inv before)
    (live : before.Live id txn) (stage : before.mgr.control id = .rollingBack rest)
    (member : (slot.oid, rid) ∈ rest) (found : before.mgr.heap.lookup rid = some slot)
    (alone : ∀ other, other ≠ id → before.ledger.pending other rid = none)
    (links : ∀ place, place ≠ rid → info.lookup place = before.mgr.versionInfo.lookup place)
    (valid : ∀ link, info.lookup rid = some link → link.isValid = true)
    (sameOid : slot'.oid = slot.oid) (shape : SameShape slot.tuple slot'.tuple)
    (whole : StagesOf before.ledger rid ((slot'.metadata.ts, row) :: older))
    (shows : Shows slot'.tuple slot'.metadata.isDeleted row)
    (chain : Chain before.logs before.image before.horizon slot'.metadata.ts row
      ((info.lookup rid).getD {}) older) :
    Moved before { before with
      mgr := { before.mgr with
        heap := before.mgr.heap.insert rid slot', versionInfo := info,
        control := update before.mgr.control id (.rollingBack (rest.erase (slot.oid, rid))) }
      ledger := before.ledger.undo id rid } id := by
  have owes : before.owes id txn = rest := by
    rw [History.owes, stage]
    rfl
  obtain ⟨unique, exact'⟩ := inv.writes.owes id txn live
  rw [owes] at unique exact'
  have sameTable (old : Slot) (was : before.mgr.heap.lookup rid = some old) : old.oid =
      slot'.oid := by
    rw [Option.some.inj (was.symm.trans found), sameOid]
  have touch : Touch before { before with
      mgr := { before.mgr with
        heap := before.mgr.heap.insert rid slot', versionInfo := info,
        control := update before.mgr.control id (.rollingBack (rest.erase (slot.oid, rid))) }
      ledger := before.ledger.undo id rid } id rid := by
    refine touch_slot inv live sameTable links rfl (fun other place different =>
      pending_undo_other different) ?_
    intro place _ _
    rw [History.stampOf, stage]
    rfl
  have free (other : TxnId) : (before.ledger.undo id rid).pending other rid = none := by
    by_cases same : other = id
    · rw [same]
      exact pending_undo_self
    · rw [pending_undo_other (Or.inl same)]
      exact alone other same
  have now : (before.mgr.heap.insert rid slot').lookup rid = some slot' := AList.lookup_insert _
  refine touch_moved touch inv (touch_store touch inv.store now ?_ ?_ ?_ ?_ valid) ?_ ?_
  · exact SlotInv.settled row older free whole shows chain
  · have fits := inv.store.fits rid slot found
    change slot'.tuple.Fits (before.mgr.catalog slot'.oid)
    rw [sameOid]
    exact shape.1.symm.trans fits
  · intro other tuple written
    cases (free other).symm.trans written
  · intro version inside tuple same
    have before' := inv.store.committedShape rid slot version tuple found inside same
    exact ⟨before'.1.trans shape.1, before'.2.trans shape.2⟩
  · refine touch_writes touch inv.writes now sameTable ?_ ?_
    · intro other _ absent
      cases absent.symm.trans found
    · intro record here
      obtain rfl : txn = record := Option.some.inj (live.1.symm.trans here.1)
      have left : History.owes { before with
          mgr := { before.mgr with
            heap := before.mgr.heap.insert rid slot', versionInfo := info,
            control := update before.mgr.control id (.rollingBack (rest.erase (slot.oid, rid))) }
          ledger := before.ledger.undo id rid } id txn = rest.erase (slot.oid, rid) := by
        simp [History.owes, Control.owes]
      rw [left]
      refine ⟨unique.erase _, fun oid place => ?_⟩
      rw [same_tables touch found now sameOid.symm, unique.mem_erase_iff, exact']
      by_cases same : place = rid
      · subst same
        simp only [ne_eq, Prod.mk.injEq, and_true, free id, Option.isSome_none,
          Bool.false_eq_true, false_and, iff_false, not_and]
        rintro apart _ ⟨other, here, sameTable⟩
        obtain rfl : slot = other := Option.some.inj (found.symm.trans here)
        exact apart sameTable.symm
      · rw [pending_undo_other (Or.inr same)]
        simp [same]
  · have control :=
      Function.update_self id (Control.rollingBack (rest.erase (slot.oid, rid))) before.mgr.control
    exact (congrArg (CallInv _ id) control).mpr ⟨txn, live⟩

/-- The slot is as its writer found it; one that the writer created is deleted for good. -/
def Restored (remembered : Option Origin) (slot : Slot) (link : Option UndoLink) : Prop :=
  match remembered with
  | some origin => slot.metadata = origin.metadata ∧
      (origin.metadata.isDeleted = false → slot.tuple = origin.tuple) ∧ link = origin.link
  | none => slot.metadata = { ts := 0, isDeleted := true } ∧ link = none

/-- The log of a first write remembers all of what stood there. -/
theorem origin_restored {origin : Origin} {stage : Stage} (same : stage =
      (origin.metadata.ts, if origin.metadata.isDeleted then none else some origin.tuple))
    (ts : log.ts = stage.1) (stands : Stands log stage.2)
    (prev : log.prevVersion = origin.link.getD {})
    (valid : ∀ older, origin.link = some older → older.isValid = true) (oid : TableOid)
    (values : Tuple) :
    Restored (some origin)
      { oid := oid
        metadata := { ts := log.ts, isDeleted := log.isDeleted }
        tuple := stage.2.getD values }
      (if log.prevVersion.isValid then some log.prevVersion else none) := by
  obtain ⟨⟨time, deleted⟩, tuple, link⟩ := origin
  subst same
  have relinked : (if log.prevVersion.isValid then some log.prevVersion else none) = link := by
    rw [prev]
    cases link with
    | none => rfl
    | some older => simp [valid older rfl]
  cases deleted with
  | true => exact ⟨by rw [ts, stands.1], fun live => (Bool.noConfusion live), relinked⟩
  | false => exact ⟨by rw [ts, stands.1], fun _ => rfl, relinked⟩

theorem update_undo_link_none (unlinked : mgr.getUndoLink rid = none) :
    mgr.updateUndoLink rid none = mgr := by
  have absent : rid ∉ mgr.versionInfo := AList.lookup_eq_none.mp unlinked
  have same : mgr.versionInfo.erase rid = mgr.versionInfo :=
    AList.ext (List.kerase_of_notMem_keys absent)
  simp [TransactionManager.updateUndoLink, same]

theorem rollback_created (inMap : mgr.txnMap.lookup id = some txn)
    (stage : mgr.control id = .rollingBack rest) (member : (oid, rid) ∈ rest)
    (found : mgr.heap.lookup rid = some slot) (own : slot.metadata.ts = id)
    (unlinked : mgr.getUndoLink rid = none) :
    mgr.rollback id oid rid =
      some ((mgr.setControl id (.rollingBack (rest.erase (oid, rid)))).setSlot rid
        { slot with metadata := { ts := 0, isDeleted := true } }) := by
  simp [TransactionManager.rollback, inMap, stage, member, found, own, unlinked,
    Slot.updateTupleInPlace]

theorem rollback_logged {link : UndoLink} (inMap : mgr.txnMap.lookup id = some txn)
    (stage : mgr.control id = .rollingBack rest) (member : (oid, rid) ∈ rest)
    (found : mgr.heap.lookup rid = some slot) (own : slot.metadata.ts = id)
    (linked : mgr.getUndoLink rid = some link) (owner : link.prevTxn = id)
    (logged : txn.undoLogs[link.prevLogIdx]? = some log) (sized : slot.tuple.getLength =
      ((reconstructTuple slot.tuple slot.metadata [log]).getD slot.tuple).getLength) :
    mgr.rollback id oid rid =
      some (((mgr.setControl id (.rollingBack (rest.erase (oid, rid)))).setSlot rid
        { slot with
          metadata := { ts := log.ts, isDeleted := log.isDeleted }
          tuple :=
            (reconstructTuple slot.tuple slot.metadata [log]).getD slot.tuple }).updateUndoLink rid
        (if log.prevVersion.isValid then some log.prevVersion else none)) := by
  have mine : (some link).filter (fun link => decide (link.prevTxn = id)) = some link := by
    simp [Option.filter, owner]
  simp [TransactionManager.rollback, inMap, stage, member, found, own, linked, mine, logged,
    Slot.updateTupleInPlace, ← sized]

/-- One step of the loop of `Abort`. -/
theorem rollback_spec (inv : Inv before) (stage : before.mgr.control id = .rollingBack rest)
    (member : (oid, rid) ∈ rest) :
    ∃ txn slot slot' link row older, before.Live id txn ∧ before.mgr.heap.lookup rid = some slot ∧
      slot.oid = oid ∧ slot'.oid = oid ∧ SameShape slot.tuple slot'.tuple ∧
      before.mgr.rollback id oid rid =
        some (((before.mgr.setControl id (.rollingBack (rest.erase (oid, rid)))).setSlot rid
          slot').updateUndoLink rid link) ∧
      (∀ other, other ≠ id → before.ledger.pending other rid = none) ∧
      StagesOf before.ledger rid ((slot'.metadata.ts, row) :: older) ∧
      Shows slot'.tuple slot'.metadata.isDeleted row ∧
      Chain before.logs before.image before.horizon slot'.metadata.ts row (link.getD {}) older ∧
      (∀ older, link = some older → older.isValid = true) ∧
      Restored (before.origin id rid) slot' link := by
  have call := inv.calls id
  rw [stage] at call
  obtain ⟨txn, live⟩ := call
  obtain ⟨ids, clock⟩ := inv.clock
  have owes : before.owes id txn = rest := by
    rw [History.owes, stage]
    rfl
  obtain ⟨written, slot, found, sameOid⟩ :=
    ((inv.writes.owes id txn live).2 oid rid).mp (owes ▸ member)
  obtain ⟨row, all, pending, alone, shows, stamped, whole, chain, older, origin⟩ :=
    slot_pending inv live found written
  have own : slot.metadata.ts = id := by
    rw [stamped, History.stampOf, stage]
    rfl
  cases origin with
  | created unlinked noOrigin fresh =>
      subst fresh
      refine ⟨txn, slot, { slot with metadata := { ts := 0, isDeleted := true } }, none, none,
          [], live, found, sameOid, sameOid, ⟨rfl, rfl⟩, ?_, alone, ?_, shows_deleted _,
            Chain.root rfl, by rintro _ ⟨⟩, ?_⟩
      · rw [rollback_created live.1 stage member found own unlinked, update_undo_link_none]
        exact unlinked
      · rcases whole with empty | vacant
        · exact Or.inr (by rw [← empty]; rfl)
        · simp at vacant
      · rw [noOrigin]
        exact ⟨rfl, rfl⟩
  | logged link log origin linked owner here known same prev valid =>
      have late := stamp_late inv clock live rid
      have last := clock.last.2
      have current : before.link rid = link := by rw [History.link, linked, Option.getD_some]
      rw [current] at chain
      obtain ⟨log', rest', here', rfl, below, covers, chainBelow⟩ :=
        chain_link (by lia) (inv.store.links rid link linked) chain
      obtain rfl : log = log' := Option.some.inj (here.symm.trans here')
      obtain ⟨ts, stands⟩ := inv.store.logs link log here
      have shape (tuple : Tuple) (was : (before.image link).2 = some tuple) : SameShape
        tuple slot.tuple :=
        stages_shape inv.store found whole (List.mem_cons_self ..) was
      obtain ⟨restored, _⟩ :=
        apply_log shows stands covers (fun tuple was => same_shape_length (shape tuple was))
      have row' : reconstructTuple slot.tuple slot.metadata [log] = (before.image link).2 :=
        (shows_iff.mp restored).symm
      have sized : SameShape slot.tuple ((before.image link).2.getD slot.tuple) := by
        cases was : (before.image link).2 with
        | none => exact ⟨rfl, rfl⟩
        | some tuple =>
            have fits := shape tuple was
            exact ⟨fits.1.symm, fits.2.symm⟩
      have logged := here
      rw [logs_own live owner] at logged
      refine ⟨txn, slot, { slot with
          metadata := { ts := log.ts, isDeleted := log.isDeleted }
          tuple := (before.image link).2.getD slot.tuple },
        if log.prevVersion.isValid then some log.prevVersion
        else none, (before.image link).2, rest', live, found,
        sameOid, sameOid, sized, ?_, alone, ts ▸ whole, ?_, ?_, ?_, ?_⟩
      · rw [← row']
        exact rollback_logged live.1 stage member found own linked owner logged (row' ▸ sized.2)
      · exact shows_restored stands slot.tuple
      · dsimp only
        rw [ts]
        split
        · exact chainBelow
        · rename_i invalid
          exact chain_unlinked (by simpa using invalid) rfl chainBelow
      · intro older becomes
        split at becomes
        · rename_i valid
          exact Option.some.inj becomes ▸ valid
        · cases becomes
      · rw [known]
        exact origin_restored same ts stands prev valid slot.oid slot.tuple

theorem rollback_stage (stepped : mgr.rollback id oid rid = some next) :
    ∃ rest, mgr.control id = .rollingBack rest ∧ (oid, rid) ∈ rest := by
  obtain ⟨txn, _, same⟩ := Option.bind_eq_some_iff.mp stepped
  split at same
  · rename_i rest stage
    split at same
    · rename_i member
      exact ⟨rest, stage, member⟩
    · cases same
  · cases same

theorem rollback_moved (inv : Inv before) (stepped : before.mgr.rollback id oid rid = some mgr) :
    Moved before { before with mgr := mgr, ledger := before.ledger.undo id rid } id := by
  obtain ⟨rest, stage, member⟩ := rollback_stage stepped
  obtain ⟨txn, slot, slot', link, row, older, live, found, rfl, sameOid, shape, rolled, alone,
      whole, shows, chain, valid, _⟩ := rollback_spec inv stage member
  obtain rfl := Option.some.inj (rolled.symm.trans stepped)
  obtain ⟨info, same, linked, links⟩ := update_undo_link_shape
    ((before.mgr.setControl id (.rollingBack (rest.erase (slot.oid, rid)))).setSlot rid slot') rid
      link
  rw [same]
  subst linked
  exact rolled_back_moved inv live stage member found alone links valid sameOid shape
    whole shows chain

end Stamps

end BusTub
