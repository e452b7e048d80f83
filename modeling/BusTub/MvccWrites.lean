import BusTub.MvccReads

/-!
The steps that write a slot: an insert, a `ModifyTuple`, the stamp of a commit
and the rollback of an abort.
-/

namespace BusTub

open Function (update)

section Logs
variable {before : History} {id : TxnId} {txn : Transaction} {undoLogs : List UndoLog}
  {link : UndoLink}

/-- The undo logs when one transaction's own ones are others. -/
def logsWith (logs : UndoLink → Option UndoLog) (id : TxnId) (undoLogs : List UndoLog) :
    UndoLink → Option UndoLog :=
  fun link => if link.prevTxn = id then undoLogs[link.prevLogIdx]? else logs link

theorem logs_with (mgr after : TransactionManager) {txn' : Transaction}
    (found : after.txnMap.lookup id = some txn')
    (others : ∀ other, other ≠ id → after.txnMap.lookup other = mgr.txnMap.lookup other) :
    after.getUndoLogOptional = logsWith mgr.getUndoLogOptional id txn'.undoLogs := by
  funext link
  unfold logsWith TransactionManager.getUndoLogOptional
  split
  · rename_i own
    rw [own, found]
    rfl
  · rename_i foreign
    rw [others _ foreign]

theorem logs_own (live : before.Live id txn) (own : link.prevTxn = id) :
    before.logs link = txn.undoLogs[link.prevLogIdx]? := by
  unfold History.logs TransactionManager.getUndoLogOptional
  rw [own, live.1]
  rfl

theorem logs_with_same (live : before.Live id txn) :
    logsWith before.logs id txn.undoLogs = before.logs := by
  funext link
  unfold logsWith
  split
  · rename_i own
    exact (logs_own live own).symm
  · rfl

/-- A new log at the end of the buffer, with the row it was made from. -/
theorem append_log (live : before.Live id txn) (stand : LogsStand before.logs before.image)
    {log : UndoLog} {row : Option Tuple} (stands : Stands log row) :
    let link : UndoLink := { prevTxn := id, prevLogIdx := txn.undoLogs.length }
    let logs := logsWith before.logs id (txn.undoLogs ++ [log])
    let image := update before.image link (log.ts, row)
    LogsGrow before.logs before.image logs image ∧ LogsStand logs image ∧ logs link = some log := by
  intro link logs image
  have fresh : before.logs link = none := by
    rw [logs_own live rfl]
    exact List.getElem?_eq_none (Nat.le_refl _)
  have own : logs link = some log := by simp [logs, logsWith, link]
  have others (place : UndoLink) (different : place ≠ link) (old : UndoLog) :
      logs place = some old ↔ before.logs place = some old := by
    by_cases mine : place.prevTxn = id
    · have index : place.prevLogIdx ≠ txn.undoLogs.length := by
        intro same
        apply different
        cases place
        simp_all [link]
      rw [logs_own live mine]
      simp only [logs, logsWith, mine, if_true]
      rcases Nat.lt_or_ge place.prevLogIdx txn.undoLogs.length with inside | beyond
      · rw [List.getElem?_append_left inside]
      · rw [List.getElem?_eq_none beyond, List.getElem?_eq_none (by simp; omega)]
    · simp [logs, logsWith, mine]
  refine ⟨?_, ?_, own⟩
  · intro place old found
    have different : place ≠ link := by
      rintro rfl
      rw [fresh] at found
      cases found
    exact ⟨old, (others place different old).mpr found, Function.update_of_ne different _ _, rfl,
      wider_refl _⟩
  · intro place old found
    by_cases same : place = link
    · subst same
      obtain rfl : log = old := Option.some.inj (own.symm.trans found)
      simp only [image, Function.update_self]
      exact ⟨trivial, stands⟩
    · simp only [image, Function.update_of_ne same]
      exact stand place old ((others place same old).mp found)

/-- A log rewritten in its place, with more fields of the same row. -/
theorem modify_log (live : before.Live id txn) (stand : LogsStand before.logs before.image)
    (own : link.prevTxn = id) {log updated : UndoLog}
    (found : before.logs link = some log) (stands : Stands updated (before.image link).2)
    (sameTs : updated.ts = log.ts) (samePrev : updated.prevVersion = log.prevVersion)
    (wider : Wider log.modifiedFields updated.modifiedFields) :
    let logs := logsWith before.logs id (txn.undoLogs.set link.prevLogIdx updated)
    LogsGrow before.logs before.image logs before.image ∧ LogsStand logs before.image ∧
      logs link = some updated := by
  intro logs
  have index := found
  rw [logs_own live own] at index
  have inside : link.prevLogIdx < txn.undoLogs.length := (List.getElem?_eq_some_iff.mp index).1
  have self : logs link = some updated := by simp [logs, logsWith, own, inside]
  have others (place : UndoLink) (different : place ≠ link) : logs place = before.logs place := by
    by_cases mine : place.prevTxn = id
    · have apart : link.prevLogIdx ≠ place.prevLogIdx := by
        intro same
        apply different
        cases place
        cases link
        simp_all
      rw [logs_own live mine]
      simp [logs, logsWith, mine, List.getElem?_set_ne apart]
    · simp [logs, logsWith, mine]
  refine ⟨?_, ?_, self⟩
  · intro place old here
    by_cases same : place = link
    · subst same
      obtain rfl : log = old := Option.some.inj (found.symm.trans here)
      exact ⟨updated, self, rfl, samePrev, wider⟩
    · exact ⟨old, (others place same).trans here, rfl, rfl, wider_refl _⟩
  · intro place old here
    by_cases same : place = link
    · subst same
      obtain rfl : updated = old := Option.some.inj (self.symm.trans here)
      exact ⟨sameTs.trans (stand place log found).1, stands⟩
    · rw [others place same] at here
      exact stand place old here

end Logs

section Writes
variable {before : History} {id : TxnId} {txn txn' : Transaction} {rid : RID} {slot slot' : Slot}
  {all : List Stage} {ids : List TxnId} {after : History}

/-- A slot with a timestamp that a snapshot covers is nobody's. -/
theorem slot_settled (inv : Inv before) (clock : ClockInv before ids) (live : before.Live id txn)
    (found : before.mgr.heap.lookup rid = some slot) (early : slot.metadata.ts ≤ txn.readTs) :
    ∃ row older, (∀ id, before.ledger.pending id rid = none) ∧
      StagesOf before.ledger rid ((slot.metadata.ts, row) :: older) ∧
      Shows slot.tuple slot.metadata.isDeleted row ∧
      Chain before.logs before.image before.horizon slot.metadata.ts row
        (before.link rid) older := by
  cases inv.store.slot rid slot found with
  | settled row older free whole shows chain => exact ⟨row, older, free, whole, shows, chain⟩
  | owned writer record row all liveWriter written alone shows stamped whole chain older origin =>
      have late := stamp_late inv clock liveWriter rid
      have snapshot := clock.readTs id txn live
      lia

/-- A slot with the id of a transaction at rest is the one that transaction writes. -/
theorem slot_owned (inv : Inv before) (clock : ClockInv before ids) (live : before.Live id txn)
    (found : before.mgr.heap.lookup rid = some slot) (own : slot.metadata.ts = id) :
    ∃ row all, before.ledger.pending id rid = some row ∧
      (∀ other, other ≠ id → before.ledger.pending other rid = none) ∧
      Shows slot.tuple slot.metadata.isDeleted row ∧ StagesOf before.ledger rid all ∧
      Chain before.logs before.image before.horizon id row (before.link rid) all ∧
      (∀ stage ∈ all, stage.1 ≤ txn.readTs) ∧
      OriginInv (before.mgr.getUndoLink rid) before.logs before.image
        (before.origin id rid) id all := by
  have small := commit_ts_below_ids clock live
  have start := live_id clock live
  cases inv.store.slot rid slot found with
  | settled row older free whole shows chain =>
      have dated := stages_dated inv.store whole (List.mem_cons_self ..) clock.last.1
      dsimp only at dated
      lia
  | owned writer record row all liveWriter written alone shows stamped whole chain older origin =>
      by_cases same : writer = id
      · subst same
        obtain rfl : record = txn := Option.some.inj (liveWriter.1.symm.trans live.1)
        exact ⟨row, all, written, alone, shows, whole, own ▸ chain, older, origin⟩
      · have foreign := stamp_foreign inv clock liveWriter live (Ne.symm same) rid
        exact absurd (stamped.symm.trans own) foreign

/-- The actor's record, its place in a call, one slot and the link there change. -/
theorem touch_of {map : UnorderedMap TxnId Transaction} {info : UnorderedMap RID UndoLink}
    {control : Control} {ledger : Ledger} {image : UndoLink → Stage}
    {origin : TxnId → RID → Option Origin} (live : before.Live id txn)
    (found : map.lookup id = some txn') (live' : txn'.live = true)
    (snapshot : txn'.readTs = txn.readTs ∧ txn'.isolationLevel = txn.isolationLevel)
    (sameTable : ∀ old, before.mgr.heap.lookup rid = some old → old.oid = slot'.oid)
    (others : ∀ other, other ≠ id → map.lookup other = before.mgr.txnMap.lookup other)
    (links : ∀ place, place ≠ rid → info.lookup place = before.mgr.versionInfo.lookup place)
    (committed : ledger.committed = before.ledger.committed)
    (pending : ∀ other place, other ≠ id ∨ place ≠ rid →
      ledger.pending other place = before.ledger.pending other place)
    (origins : ∀ other place, other ≠ id ∨ place ≠ rid →
      origin other place = before.origin other place)
    (grows : LogsGrow before.logs before.image (logsWith before.logs id txn'.undoLogs) image)
    (stand : LogsStand (logsWith before.logs id txn'.undoLogs) image)
    (stamp : ∀ place, place ≠ rid → (before.ledger.pending id place).isSome →
      control.stampOf id place = before.stampOf id place) :
    Touch before { before with
      mgr := { before.mgr with
        txnMap := map, heap := before.mgr.heap.insert rid slot', versionInfo := info,
        control := update before.mgr.control id control }
      ledger := ledger, image := image, origin := origin } id rid := by
  refine ⟨⟨rfl, rfl, rfl, rfl, rfl, ?_, ?_, others, ⟨txn, txn', live, ⟨found, live'⟩, snapshot⟩, ?_,
    fun _ _ held => held, committed, ?_⟩, ?_, links, pending, origins, ?_⟩
  · exact (congrArg (LogsGrow before.logs before.image · image) (logs_with _ _ found others)).mpr
      grows
  · exact (congrArg (LogsStand · image) (logs_with _ _ found others)).mpr stand
  · exact fun other different => Function.update_of_ne different _ _
  · intro place slot was
    by_cases here : place = rid
    · subst here
      exact ⟨slot', AList.lookup_insert _, (sameTable slot was).symm⟩
    · exact ⟨slot, (AList.lookup_insert_ne here).trans was, rfl⟩
  · exact fun place different => AList.lookup_insert_ne different
  · intro place different written
    simpa [History.stampOf] using stamp place different written

/-- The write set after a write. -/
theorem written_owes (touch : Touch before after id rid) (writes : WriteInv before)
    (live : before.Live id txn) (found : after.mgr.heap.lookup rid = some slot')
    (sameTable : ∀ old, before.mgr.heap.lookup rid = some old → old.oid = slot'.oid)
    (known : before.mgr.heap.lookup rid = none → before.ledger.pending id rid = none)
    (written : (after.ledger.pending id rid).isSome) (owes : ∀ txn', after.Live id txn' →
      after.owes id txn' = (before.owes id txn).insert (slot'.oid, rid))
    (now : after.Live id txn') : (after.owes id txn').Nodup ∧ ∀ oid place,
      (oid, place) ∈ after.owes id txn' ↔ (after.ledger.pending id place).isSome ∧
        ∃ slot, after.mgr.heap.lookup place = some slot ∧ slot.oid = oid := by
  obtain ⟨unique, exact'⟩ := writes.owes id txn live
  rw [owes txn' now]
  refine ⟨unique.insert, fun oid place => ?_⟩
  rw [List.mem_insert_iff, exact', Prod.mk.injEq]
  by_cases here : place = rid
  · subst here
    constructor
    · rintro (⟨rfl, _⟩ | ⟨_, old, was, rfl⟩)
      · exact ⟨written, slot', found, rfl⟩
      · exact ⟨written, slot', found, (sameTable old was).symm⟩
    · rintro ⟨_, now, here, rfl⟩
      obtain rfl : slot' = now := Option.some.inj (found.symm.trans here)
      exact Or.inl ⟨rfl, rfl⟩
  · rw [touch.pending id place (Or.inr here), touch.heap place here]
    simp [here]

/-- A write that has gone through: what is left to show is the chain below the new row. -/
theorem written_moved {target : Option Tuple} (touch : Touch before after id rid) (inv : Inv before)
    (live : before.Live id txn) (rest : (before.mgr.control id).atRest = true)
    (now : after.Live id txn') (writeSet : txn'.writeSet = txn.writeSet.insert (slot'.oid, rid))
    (idle : after.mgr.control id = .idle) (found : after.mgr.heap.lookup rid = some slot')
    (sameTable : ∀ old, before.mgr.heap.lookup rid = some old → old.oid = slot'.oid)
    (metadata : slot'.metadata = { ts := id, isDeleted := target.isNone })
    (tuple : ∀ values, target = some values → slot'.tuple = values)
    (fits : slot'.tuple.Fits (after.mgr.catalog slot'.oid))
    (written : after.ledger.pending id rid = some target)
    (alone : ∀ other, other ≠ id → before.ledger.pending other rid = none)
    (shapes : ∀ version ∈ before.ledger.committed rid, ∀ values, version.row = some values →
      SameShape values slot'.tuple)
    (valid : ∀ link, after.mgr.getUndoLink rid = some link → link.isValid = true)
    (whole : StagesOf before.ledger rid all) (older : ∀ stage ∈ all, stage.1 ≤ txn.readTs)
    (chain : Chain after.logs after.image before.horizon id target (after.link rid) all)
    (origin : OriginInv (after.mgr.getUndoLink rid) after.logs after.image
      (after.origin id rid) id all) :
    Moved before after id := by
  have shows : Shows slot'.tuple slot'.metadata.isDeleted target := ⟨by rw [metadata], tuple⟩
  have readTs : txn'.readTs = txn.readTs := by
    obtain ⟨old, new, was, is, same, _⟩ := touch.own
    obtain rfl : txn = old := Option.some.inj (live.1.symm.trans was.1)
    obtain rfl : txn' = new := Option.some.inj (now.1.symm.trans is.1)
    exact same
  have alone' (other : TxnId) (different : other ≠ id) : after.ledger.pending other rid = none :=
    (touch.pending other rid (Or.inl different)).trans (alone other different)
  have owned : SlotInv after rid slot' := by
    refine SlotInv.owned id txn' target all now written alone' shows ?_
      ((stages_of_same (congrFun touch.committed rid)).mpr whole) ?_ (readTs ▸ older) origin
    · rw [metadata, History.stampOf, idle]
      rfl
    · rw [metadata, touch.horizon]
      exact chain
  have owes (record : Transaction) (here : after.Live id record) :
      after.owes id record = (before.owes id txn).insert (slot'.oid, rid) := by
    obtain rfl : txn' = record := Option.some.inj (now.1.symm.trans here.1)
    rw [owes_at_rest rest, History.owes, idle, ← writeSet]
    rfl
  have pendingShape (other : TxnId) (values : Tuple)
    (row : after.ledger.pending other rid = some (some values)) : SameShape values
      slot'.tuple := by
    by_cases same : other = id
    · subst same
      rw [tuple values (Option.some.inj (written.symm.trans row))]
      exact ⟨rfl, rfl⟩
    · rw [alone' other same] at row
      cases row
  have isWritten : (after.ledger.pending id rid).isSome := by
    rw [written]
    rfl
  have empty (absent : before.mgr.heap.lookup rid = none) (other : TxnId) :=
    ((inv.store.empty rid absent).2.2 other).1
  refine touch_moved touch inv (touch_store touch inv.store found owned fits pendingShape ?_ valid)
    (touch_writes touch inv.writes found sameTable (fun other _ absent => empty absent other) ?_) ?_
  · rw [touch.committed]
    exact shapes
  · intro record here
    exact written_owes touch inv.writes live found sameTable
      (fun absent => empty absent id) isWritten
      owes here
  · rw [idle]
    trivial

theorem insert_moved {mgr : TransactionManager} {oid : TableOid} {tuple : Tuple} (inv : Inv before)
    (stepped : before.mgr.insertTuple id oid rid tuple = some mgr) :
    Moved before { before with mgr := mgr, ledger := before.ledger.write id rid (some tuple) }
      id := by
  obtain ⟨txn, ready, same⟩ := Option.bind_eq_some_iff.mp stepped
  obtain ⟨inMap, live, rest⟩ := TransactionManager.ready_iff.mp ready
  split at same
  · cases same
  · rename_i allowed
    obtain ⟨vacant, fits⟩ := not_or.mp allowed
    have vacant : before.mgr.heap.lookup rid = none := by simpa using vacant
    have fits := Decidable.not_not.mp fits
    obtain rfl := Option.some.inj same
    obtain ⟨unlinked, uncommitted, unwritten⟩ := inv.store.empty rid vacant
    have sameLogs : logsWith before.logs id txn.undoLogs = before.logs :=
      logs_with_same ⟨inMap, live⟩
    have newSlot (old : Slot) (was : before.mgr.heap.lookup rid = some old) : old.oid = oid := by
      rw [vacant] at was
      cases was
    have touch : Touch before { before with
        mgr := ((before.mgr.setTxn id (txn.appendWriteSet oid rid)).setControl id .idle).setSlot rid
          { oid := oid, metadata := { ts := id, isDeleted := false }, tuple := tuple }
        ledger := before.ledger.write id rid (some tuple) } id rid := by
      refine touch_of ⟨inMap, live⟩ TransactionManager.lookup_set_txn live ⟨rfl, rfl⟩ newSlot
        (fun other different => TransactionManager.lookup_set_txn_other different)
          (fun _ _ => rfl) rfl
        (fun other place different => pending_write_other different) (fun _ _ _ => rfl) ?_ ?_ ?_
      · rw [Transaction.appendWriteSet, sameLogs]
        exact logs_grow_refl _ _
      · rw [Transaction.appendWriteSet, sameLogs]
        exact inv.store.logs
      · exact fun place _ _ => (stamp_at_rest rest).symm
    refine written_moved touch inv ⟨inMap, live⟩ rest ⟨TransactionManager.lookup_set_txn, live⟩ rfl
      (TransactionManager.control_set_control _) (AList.lookup_insert _) newSlot rfl
      (fun _ same => Option.some.inj same) fits pending_write_self
        (fun other _ => (unwritten other).1) ?_ ?_
      (Or.inl (by rw [Ledger.stages, uncommitted]; rfl)) ?_ (Chain.root ?_) ?_
    · rw [uncommitted]
      simp
    · intro link linked
      cases unlinked.symm.trans linked
    · simp
    · change ((before.mgr.getUndoLink rid).getD {}).isValid = false
      rw [unlinked]
      rfl
    · exact OriginInv.created unlinked (unwritten id).2 rfl

end Writes

section Modify
variable {before : History} {id : TxnId} {txn : Transaction} {rid : RID} {slot : Slot}
  {target : Option Tuple} {requireDeleted : Bool} {result : ModifyResult}
  {mgr after : TransactionManager} {ids : List TxnId}

theorem update_undo_link_shape (mgr : TransactionManager) (rid : RID) (link : Option UndoLink) :
    ∃ info, mgr.updateUndoLink rid link = { mgr with versionInfo := info } ∧
      info.lookup rid = link ∧ ∀ place, place ≠ rid →
      info.lookup place = mgr.versionInfo.lookup place := by
  have here : (mgr.updateUndoLink rid link).getUndoLink rid = link :=
    TransactionManager.get_undo_link_update link
  cases link with
  | none => exact ⟨_, rfl, here, fun place different => AList.lookup_erase_ne different⟩
  | some link => exact ⟨_, rfl, here, fun place different => AList.lookup_insert_ne different⟩

/-- How a call of `ModifyTuple` ends. -/
theorem modify_cases
    (stepped : mgr.modifyTuple id rid target requireDeleted = some (result, after)) :
    ∃ txn slot, mgr.ready id = some txn ∧ mgr.heap.lookup rid = some slot ∧
      (∀ tuple, target = some tuple → tuple.Fits (mgr.catalog slot.oid)) ∧
      ((result = .writeConflict ∧ mgr.throwWriteConflict id = some after) ∨
      (TransactionManager.conflicts id txn slot requireDeleted = false ∧
        ∃ recorded link, mgr.recordUndo id txn slot (mgr.getUndoLink rid) target =
          (recorded, link) ∧
            ((result = .sizeMismatch ∧ after = (mgr.setTxn id recorded).setControl id .idle) ∨
        (result = .done ∧ slot.tuple.getLength = (target.getD slot.tuple).getLength ∧
          after =
            (((mgr.setTxn id (recorded.appendWriteSet slot.oid rid)).setControl id .idle).setSlot
            rid
            { slot with
              metadata := { ts := id, isDeleted := target.isNone }
              tuple := target.getD slot.tuple }).updateUndoLink rid link)))) := by
  obtain ⟨txn, ready, same⟩ := Option.bind_eq_some_iff.mp stepped
  obtain ⟨slot, found, same⟩ := Option.bind_eq_some_iff.mp same
  refine ⟨txn, slot, ready, found, ?_⟩
  split at same
  · cases same
  · rename_i fitting
    refine ⟨fun tuple wanted => by_contra fun misfit => fitting ⟨tuple, wanted, misfit⟩, ?_⟩
    split at same
    · obtain ⟨tainted, thrown, pair⟩ := Option.map_eq_some_iff.mp same
      obtain ⟨rfl, rfl⟩ := Prod.mk.inj pair
      exact Or.inl ⟨rfl, thrown⟩
    · rename_i clear
      obtain ⟨-, same⟩ := Option.ite_none_left_eq_some.mp same
      refine Or.inr ⟨by simpa using clear, _, _, rfl, ?_⟩
      dsimp only at same
      unfold Slot.updateTupleInPlace at same
      by_cases sized : slot.tuple.getLength = (target.getD slot.tuple).getLength
      · rw [if_neg (not_not.mpr sized)] at same
        obtain ⟨rfl, rfl⟩ := Prod.mk.inj (Option.some.inj same)
        exact Or.inr ⟨rfl, sized, rfl⟩
      · rw [if_pos sized] at same
        obtain ⟨rfl, rfl⟩ := Prod.mk.inj (Option.some.inj same)
        exact Or.inl ⟨rfl, rfl⟩

end Modify

/-- What `recordUndo` has prepared for a write of `target`: the logs and the
chain the new row will hang on. -/
structure Recorded (before : History) (id : TxnId) (txn recorded : Transaction) (rid : RID)
    (target : Option Tuple) (link : Option UndoLink) (image : UndoLink → Stage)
    (origin : Option Origin) : Prop where
  same : ∃ undoLogs, recorded = { txn with undoLogs := undoLogs }
  grows : LogsGrow before.logs before.image (logsWith before.logs id recorded.undoLogs) image
  stand : LogsStand (logsWith before.logs id recorded.undoLogs) image
  alone : ∀ other, other ≠ id → before.ledger.pending other rid = none
  valid : ∀ older, link = some older → older.isValid = true
  chain : ∃ all, StagesOf before.ledger rid all ∧ (∀ stage ∈ all, stage.1 ≤ txn.readTs) ∧
    Chain (logsWith before.logs id recorded.undoLogs) image before.horizon id target
      (link.getD {}) all ∧
    OriginInv link (logsWith before.logs id recorded.undoLogs) image origin id all

section Recording
variable {before : History} {id : TxnId} {txn recorded : Transaction} {rid : RID} {slot : Slot}
  {target : Option Tuple} {ids : List TxnId} {link : Option UndoLink}

theorem id_valid (clock : ClockInv before ids) (live : before.Live id txn) (index : Nat) :
    ({ prevTxn := id, prevLogIdx := index } : UndoLink).isValid = true := by
  have start := live_id clock live
  have positive : (0 : Int) < TXN_START_ID := by decide
  have apart : id ≠ INVALID_TXN_ID := by
    rintro rfl
    unfold INVALID_TXN_ID at start
    lia
  simp [UndoLink.isValid, apart]

theorem same_types {schema : Schema} {row : Option Tuple} {values : Tuple} {deleted : Bool}
    (shows : Shows values deleted row) (fits : values.Fits schema)
    (fitting : ∀ tuple, target = some tuple → tuple.Fits schema) (old new : Tuple)
    (was : row = some old) (becomes : target = some new) :
    old.map Value.typeId = new.map Value.typeId := by
  rw [← shows.same old was]
  exact fits.trans (fitting new becomes).symm

/-- The first write of a transaction to a RID appends a log. -/
theorem recorded_first (inv : Inv before) (clock : ClockInv before ids) (live : before.Live id txn)
    (found : before.mgr.heap.lookup rid = some slot)
    (fitting : ∀ tuple, target = some tuple → tuple.Fits (before.mgr.catalog slot.oid))
    (foreign : slot.metadata.ts ≠ id) (early : slot.metadata.ts ≤ txn.readTs)
    (recording : before.mgr.recordUndo id txn slot (before.mgr.getUndoLink rid) target =
      (recorded, link)) :
    Recorded before id txn recorded rid target link
      (update before.image { prevTxn := id, prevLogIdx := txn.undoLogs.length }
        (slot.metadata.ts, History.rowOf slot))
      (some
        { metadata := slot.metadata, tuple := slot.tuple
          link := before.mgr.getUndoLink rid }) := by
  obtain ⟨row, older, free, whole, shows, chain⟩ := slot_settled inv clock live found early
  have rowHere : (if slot.metadata.isDeleted then none else some slot.tuple) = row :=
    (shows_iff.mp shows).symm
  unfold TransactionManager.recordUndo at recording
  rw [if_neg foreign, rowHere] at recording
  obtain ⟨rfl, rfl⟩ := Prod.mk.inj recording
  have types := same_types shows (inv.store.fits rid slot found) fitting
  obtain ⟨stands, covers⟩ := new_log_stands (before.mgr.catalog slot.oid) slot.metadata.ts
    ((before.mgr.getUndoLink rid).getD {}) types
  obtain ⟨grows, stand, own⟩ := append_log live inv.store.logs stands
  have snapshot := clock.readTs id txn live
  have small := commit_ts_below_ids clock live
  have start := live_id clock live
  have falling := stages_fall inv.store clock.last.1 whole
  refine ⟨⟨_, rfl⟩, ?_, ?_, fun other _ => free other, ?_, (slot.metadata.ts, row) :: older,
    whole, ?_, ?_, ?_⟩
  · rw [History.rowOf, rowHere]
    exact grows
  · rw [History.rowOf, rowHere]
    exact stand
  · rintro older ⟨⟩
    exact id_valid clock live _
  · intro stage member
    rcases List.mem_cons.mp member with rfl | later
    · exact early
    · have below := (List.pairwise_cons.mp falling).1 stage later
      dsimp only at below
      lia
  · rw [History.rowOf, rowHere]
    refine chain_older (id_valid clock live _) own (Function.update_self ..)
      (by dsimp only; lia) covers ?_
    exact chain_grows grows chain
  · rw [History.rowOf, rowHere]
    refine OriginInv.logged _ _ _ rfl rfl own rfl ?_ rfl ?_
    · rw [rowHere]
      exact Function.update_self ..
    · exact fun older linked => inv.store.links rid older linked

/-- A later write rewrites the log of the first one, if there is one. -/
theorem recorded_again (inv : Inv before) (clock : ClockInv before ids) (live : before.Live id txn)
    (found : before.mgr.heap.lookup rid = some slot)
    (fitting : ∀ tuple, target = some tuple → tuple.Fits (before.mgr.catalog slot.oid))
    (own : slot.metadata.ts = id)
    (recording : before.mgr.recordUndo id txn slot (before.mgr.getUndoLink rid) target =
      (recorded, link)) :
    Recorded before id txn recorded rid target link before.image (before.origin id rid) := by
  obtain ⟨row, all, written, alone, shows, whole, chain, older, origin⟩ :=
    slot_owned inv clock live found own
  have rowHere : (if slot.metadata.isDeleted then none else some slot.tuple) = row :=
    (shows_iff.mp shows).symm
  unfold TransactionManager.recordUndo at recording
  rw [if_pos own, rowHere] at recording
  cases origin with
  | created unlinked noOrigin fresh =>
      rw [unlinked] at recording
      obtain ⟨rfl, rfl⟩ := Prod.mk.inj recording
      subst fresh
      have sameLogs := logs_with_same live
      refine ⟨⟨_, rfl⟩, ?_, ?_, alone, by rintro _ ⟨⟩, [], whole, older, Chain.root rfl,
        OriginInv.created rfl noOrigin rfl⟩
      · rw [sameLogs]
        exact logs_grow_refl _ _
      · rw [sameLogs]
        exact inv.store.logs
  | logged link' log origin linked owner here known same prev valid =>
      have index := here
      rw [logs_own live owner] at index
      rw [linked] at recording
      simp only [owner, if_true, index] at recording
      obtain ⟨rfl, rfl⟩ := Prod.mk.inj recording
      have current : before.link rid = link' := by rw [History.link, linked, Option.getD_some]
      rw [current] at chain
      have snapshot := clock.readTs id txn live
      have small := commit_ts_below_ids clock live
      have start := live_id clock live
      have linkValid := inv.store.links rid link' linked
      obtain ⟨log', rest, here', rfl, below, covers, chainBelow⟩ :=
        chain_link (by lia) linkValid chain
      obtain rfl : log = log' := Option.some.inj (here.symm.trans here')
      have types := same_types shows (inv.store.fits rid slot found) fitting
      have stands := (inv.store.logs link' log here).2
      have lengths (old new : Tuple) (was : (before.image link').2 = some old)
        (becomes : target = some new) :
        new.length = old.length := by
        have shape :=
          same_shape_length (stages_shape inv.store found whole (List.mem_cons_self ..) was)
        have fits := Tuple.fits_length (inv.store.fits rid slot found)
        have fits' := Tuple.fits_length (fitting new becomes)
        lia
      obtain ⟨stands', wider, covers'⟩ := updated_log_stands stands covers types lengths
      obtain ⟨sameTs, samePrev⟩ := updated_log_same row target log
      obtain ⟨grows, stand, own'⟩ :=
        modify_log live inv.store.logs owner here stands' sameTs samePrev wider
      refine ⟨⟨_, rfl⟩, grows, stand, alone, ?_, _, whole, older, ?_, ?_⟩
      · rintro _ ⟨⟩
        exact linkValid
      · exact chain_older linkValid own' rfl below covers' (samePrev ▸ chain_grows grows chainBelow)
      · exact OriginInv.logged link' _ origin rfl owner own' known same (samePrev.trans prev) valid

end Recording

section ModifySteps
variable {before : History} {id : TxnId} {txn recorded : Transaction} {rid : RID} {slot : Slot}
  {target : Option Tuple} {requireDeleted : Bool} {result : ModifyResult} {mgr : TransactionManager}
  {image : UndoLink → Stage} {remembered : Option Origin} {link : Option UndoLink}

/-- The new tuple did not fit: only the undo log has been recorded. -/
theorem size_mismatch_moved (inv : Inv before) (ready : before.mgr.ready id = some txn)
    (undo : Recorded before id txn recorded rid target link image remembered) :
    Moved before { before with
      mgr := (before.mgr.setTxn id recorded).setControl id .idle, image := image } id := by
  obtain ⟨inMap, live, rest⟩ := TransactionManager.ready_iff.mp ready
  obtain ⟨undoLogs, rfl⟩ := undo.same
  have logs :=
    logs_with before.mgr
      ((before.mgr.setTxn id { txn with undoLogs := undoLogs }).setControl id .idle)
      TransactionManager.lookup_set_txn (fun other different =>
        TransactionManager.lookup_set_txn_other different)
  have acts : Acts before { before with
      mgr := (before.mgr.setTxn id { txn with undoLogs := undoLogs }).setControl id .idle
      image := image } id := by
    refine ⟨rfl, rfl, rfl, rfl, rfl, ?_, ?_,
      fun other different => TransactionManager.lookup_set_txn_other different,
      ⟨txn, _, ⟨inMap, live⟩, ⟨TransactionManager.lookup_set_txn, live⟩, rfl, rfl⟩,
      fun other different => TransactionManager.control_set_control_other different _,
      fun _ _ held => held, rfl, fun _ slot found => ⟨slot, found, rfl⟩⟩
    · exact (congrArg (LogsGrow before.logs before.image · image) logs).mpr undo.grows
    · exact (congrArg (LogsStand · image) logs).mpr undo.stand
  refine quiet_moved ⟨acts, rfl, rfl, rfl, rfl, ?_, ?_⟩ inv ?_
  · intro place _
    rw [stamp_at_rest rest]
    simp [History.stampOf, Control.stampOf]
  · intro old new was now
    obtain rfl : txn = old := Option.some.inj (inMap.symm.trans was.1)
    obtain rfl := Option.some.inj (TransactionManager.lookup_set_txn.symm.trans now.1)
    rw [owes_at_rest rest]
    simp [History.owes, Control.owes]
  · simp [CallInv]

/-- The tuple, its timestamp and the undo link are in place. -/
theorem modify_done_moved (slot' : Slot) (origin : TxnId → RID → Option Origin) (inv : Inv before)
    (ready : before.mgr.ready id = some txn) (found : before.mgr.heap.lookup rid = some slot)
    (fitting : ∀ tuple, target = some tuple → tuple.Fits (before.mgr.catalog slot.oid))
    (sized : slot.tuple.getLength = (target.getD slot.tuple).getLength) (oid : slot'.oid = slot.oid)
    (metadata : slot'.metadata = { ts := id, isDeleted := target.isNone })
    (tuple : slot'.tuple = target.getD slot.tuple)
    (undo : Recorded before id txn recorded rid target link image remembered)
    (here : origin id rid = remembered) (elsewhere : ∀ other place, other ≠ id ∨ place ≠ rid →
      origin other place = before.origin other place) :
    Moved before { before with
      mgr := (((before.mgr.setTxn id (recorded.appendWriteSet slot'.oid rid)).setControl id
        .idle).setSlot
        rid slot').updateUndoLink rid link
      ledger := before.ledger.write id rid target
      image := image
      origin := origin } id := by
  obtain ⟨inMap, live, rest⟩ := TransactionManager.ready_iff.mp ready
  obtain ⟨undoLogs, rfl⟩ := undo.same
  have fits : slot'.tuple.Fits (before.mgr.catalog slot'.oid) := by
    rw [tuple, oid]
    cases wanted : target with
    | none => exact inv.store.fits rid slot found
    | some values => exact fitting values wanted
  have sameShape : SameShape slot.tuple slot'.tuple := by
    refine ⟨?_, by rw [tuple]; exact sized⟩
    rw [oid] at fits
    exact (inv.store.fits rid slot found).trans fits.symm
  have sameTable (old : Slot) (was : before.mgr.heap.lookup rid = some old) : old.oid =
      slot'.oid := by
    obtain rfl : slot = old := Option.some.inj (found.symm.trans was)
    exact oid.symm
  obtain ⟨info, shape, linked, links⟩ := update_undo_link_shape
    (((before.mgr.setTxn id (Transaction.appendWriteSet { txn with undoLogs := undoLogs } slot'.oid
      rid)).setControl id .idle).setSlot rid slot') rid link
  rw [shape]
  have touch : Touch before { before with
      mgr := {
        ((before.mgr.setTxn id
        (Transaction.appendWriteSet { txn with undoLogs := undoLogs } slot'.oid
        rid)).setControl id .idle).setSlot rid slot' with versionInfo := info }
      ledger := before.ledger.write id rid target
      image := image
      origin := origin } id rid :=
    touch_of ⟨inMap, live⟩ TransactionManager.lookup_set_txn live ⟨rfl, rfl⟩ sameTable
      (fun other different => TransactionManager.lookup_set_txn_other different) links rfl
      (fun other place different => pending_write_other different) elsewhere undo.grows undo.stand
      (fun place _ _ => (stamp_at_rest rest).symm)
  obtain ⟨all, whole, older, chain, origins⟩ := undo.chain
  have logs : History.logs { before with
      mgr := {
        ((before.mgr.setTxn id
        (Transaction.appendWriteSet { txn with undoLogs := undoLogs } slot'.oid
        rid)).setControl id .idle).setSlot rid slot' with versionInfo := info } } =
      logsWith before.logs id undoLogs :=
    logs_with _ _ TransactionManager.lookup_set_txn
      (fun other different => TransactionManager.lookup_set_txn_other different)
  refine written_moved touch inv ⟨inMap, live⟩ rest ⟨TransactionManager.lookup_set_txn, live⟩ ?_
    (TransactionManager.control_set_control _) (AList.lookup_insert _) sameTable metadata ?_ fits
    pending_write_self undo.alone ?_ ?_ whole older ?_ ?_
  · rfl
  · rintro values rfl
    exact tuple
  · intro version member values row
    have before' := inv.store.committedShape rid slot version values found member row
    exact ⟨before'.1.trans sameShape.1, before'.2.trans sameShape.2⟩
  · intro older here'
    exact undo.valid older (linked.symm.trans here')
  · have current : (info.lookup rid).getD {} = link.getD {} := by rw [linked]
    exact (congrArg₂ (fun logs link => Chain logs image before.horizon id target link all) logs
      current).mpr chain
  · have kept : OriginInv link (logsWith before.logs id undoLogs) image (origin id rid) id all :=
      here.symm ▸ origins
    exact (congrArg₂ (fun linked logs => OriginInv linked logs image (origin id rid) id all) linked
      logs).mpr kept

theorem modify_moved (inv : Inv before)
    (stepped : before.mgr.modifyTuple id rid target requireDeleted = some (result, mgr)) :
    Moved before { before.recordModify id rid target result with mgr := mgr } id := by
  obtain ⟨txn, slot, ready, found, fitting, outcome⟩ := modify_cases stepped
  obtain ⟨inMap, live, rest⟩ := TransactionManager.ready_iff.mp ready
  simp only [History.recordModify, inMap, found]
  rcases outcome with ⟨rfl, thrown⟩ | ⟨clear, recorded, link, recording, outcome⟩
  · simpa using write_conflict_moved inv thrown
  · obtain ⟨ids, clock⟩ := inv.clock
    by_cases own : slot.metadata.ts = id
    · have undo := recorded_again inv clock ⟨inMap, live⟩ found fitting own recording
      rcases outcome with ⟨rfl, rfl⟩ | ⟨rfl, sized, rfl⟩
      · simpa [own] using size_mismatch_moved inv ready undo
      · have done := modify_done_moved { slot with
            metadata := { ts := id, isDeleted := target.isNone }
            tuple := target.getD slot.tuple } before.origin inv ready found fitting sized rfl
              rfl rfl undo rfl
          (fun _ _ _ => rfl)
        simpa [own] using done
    · have early : slot.metadata.ts ≤ txn.readTs := by
        simp [TransactionManager.conflicts, own] at clear
        lia
      have undo := recorded_first inv clock ⟨inMap, live⟩ found fitting own early recording
      rcases outcome with ⟨rfl, rfl⟩ | ⟨rfl, sized, rfl⟩
      · simpa [own] using size_mismatch_moved inv ready undo
      · have done := modify_done_moved { slot with
            metadata := { ts := id, isDeleted := target.isNone }
            tuple := target.getD slot.tuple }
          (update before.origin id (update (before.origin id) rid (some
            { metadata := slot.metadata, tuple := slot.tuple
              link := before.mgr.getUndoLink rid })))
          inv ready found fitting sized rfl rfl rfl undo (by simp)
          (fun _ _ different => update_at_other different)
        simpa [own] using done

end ModifySteps

end BusTub
