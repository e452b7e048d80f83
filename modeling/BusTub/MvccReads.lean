import BusTub.MvccFrames

/-!
The steps that write no slot: recording a predicate, reading log by log, and
moving inside a call.
-/

namespace BusTub

open Function (update)
open TransactionManager (collectFrom)

section Clocks
variable {history : History} {ids : List TxnId} {id other : TxnId} {txn : Transaction} {rid : RID}
  {all : List Stage} {stage : Stage} {slot : Slot}

theorem commit_ts_below_ids (clock : ClockInv history ids) (live : history.Live id txn) :
    history.mgr.lastCommitTs + 1 < TXN_START_ID := by
  have member : id ∈ ids := (clock.exact id).mpr ⟨txn, live⟩
  have positive := List.length_pos_of_mem member
  have room := clock.room
  have bound := clock.bound
  have start : TXN_START_ID = 4611686018427387904 := rfl
  have max : INT64_MAX = 9223372036854775807 := rfl
  lia

theorem live_id (clock : ClockInv history ids) (live : history.Live id txn) : TXN_START_ID ≤ id :=
  (clock.known id txn live.1).1

theorem stamp_at_rest (rest : (history.mgr.control id).atRest = true) :
    history.stampOf id rid = id := by
  unfold History.stampOf
  cases stage : history.mgr.control id with
  | stamping _ _ => simp [stage, Control.atRest] at rest
  | _ => rfl

theorem owes_at_rest (rest : (history.mgr.control id).atRest = true) :
    history.owes id txn = txn.writeSet := by
  unfold History.owes
  cases stage : history.mgr.control id with
  | rollingBack _ => simp [stage, Control.atRest] at rest
  | _ => rfl

/-- A slot that is being written bears its writer's id or the next commit timestamp. -/
theorem stamp_cases (calls : CallInv history id (history.mgr.control id)) (rid : RID) :
    history.stampOf id rid = id ∨ history.stampOf id rid = history.mgr.lastCommitTs + 1 := by
  unfold History.stampOf
  cases stage : history.mgr.control id with
  | stamping commitTs rest =>
      rw [stage] at calls
      simp only [Control.stampOf]
      split
      · exact Or.inl rfl
      · exact Or.inr calls.2.1
  | _ => exact Or.inl rfl

theorem stamp_late (inv : Inv history) (clock : ClockInv history ids) (live : history.Live id txn)
    (rid : RID) : history.mgr.lastCommitTs < history.stampOf id rid := by
  have small := commit_ts_below_ids clock live
  have start := live_id clock live
  rcases stamp_cases (inv.calls id) rid with own | next
  · lia
  · lia

/-- Only its own writer reads its own id on a slot. -/
theorem stamp_foreign (inv : Inv history) (clock : ClockInv history ids)
    (live : history.Live id txn) {reader : Transaction} (liveOther : history.Live other reader)
    (different : other ≠ id) (rid : RID) :
    history.stampOf id rid ≠ other := by
  have small := commit_ts_below_ids clock live
  have start := live_id clock liveOther
  rcases stamp_cases (inv.calls id) rid with own | next
  · rw [own]
    exact Ne.symm different
  · lia

/-- The timestamps of a RID's versions. -/
theorem stages_dated (store : StoreInv history) (whole : StagesOf history.ledger rid all)
    (member : stage ∈ all)
    (last : 0 ≤ history.mgr.lastCommitTs) : 0 ≤ stage.1 ∧ stage.1 ≤ history.mgr.lastCommitTs := by
  have committed (inside : stage ∈ history.ledger.stages rid) :
      0 ≤ stage.1 ∧ stage.1 ≤ history.mgr.lastCommitTs := by
    obtain ⟨version, here, rfl⟩ := List.mem_map.mp inside
    have dated := store.dated rid version here
    exact ⟨by dsimp only; lia, dated.2.2⟩
  rcases whole with rfl | rfl
  · exact committed member
  · rcases List.mem_append.mp member with inside | vacant
    · exact committed inside
    · rw [List.mem_singleton.mp vacant]
      exact ⟨Int.le_refl 0, last⟩

/-- The versions of a RID, from the newest down. -/
theorem stages_fall (store : StoreInv history) (last : 0 ≤ history.mgr.lastCommitTs)
    (whole : StagesOf history.ledger rid all) :
    all.Pairwise fun newer older => older.1 ≤ newer.1 := by
  have committed : (history.ledger.stages rid).Pairwise fun newer older => older.1 ≤ newer.1 := by
    refine List.pairwise_map.mpr ((store.sorted rid).imp_of_mem ?_)
    intro newer older member _ ordered
    have dated := store.dated rid newer member
    dsimp only
    lia
  rcases whole with rfl | rfl
  · exact committed
  · refine List.pairwise_append.mpr ⟨committed, List.pairwise_singleton _ _, ?_⟩
    intro stage member vacant same
    rw [List.mem_singleton.mp same]
    exact (stages_dated store (Or.inl rfl) member last).1

/-- The rows of a RID's versions fit into its slot. -/
theorem stages_shape (store : StoreInv history) (found : history.mgr.heap.lookup rid = some slot)
    (whole : StagesOf history.ledger rid all) (member : stage ∈ all) {tuple : Tuple}
    (row : stage.2 = some tuple) :
    SameShape tuple slot.tuple := by
  have committed (inside : stage ∈ history.ledger.stages rid) : SameShape tuple slot.tuple := by
    obtain ⟨version, here, rfl⟩ := List.mem_map.mp inside
    exact store.committedShape rid slot version tuple found here row
  rcases whole with rfl | rfl
  · exact committed member
  · rcases List.mem_append.mp member with inside | vacant
    · exact committed inside
    · rw [List.mem_singleton.mp vacant] at row
      cases row

theorem same_shape_length {left right : Tuple} (same : SameShape left right) :
    right.length = left.length := by
  have lengths := congrArg List.length same.1
  simpa using lengths.symm

/-- What a reader between two calls finds in a slot. -/
theorem slot_read (inv : Inv history) (clock : ClockInv history ids) (live : history.Live id txn)
    (atRest : (history.mgr.control id).atRest = true)
    (found : history.mgr.heap.lookup rid = some slot) :
    if slot.metadata.ts ≤ txn.readTs ∨ slot.metadata.ts = id then
      reconstructTuple slot.tuple slot.metadata [] = history.ledger.sees id txn.readTs rid
    else
      history.ledger.pending id rid = none ∧ ∃ row older,
        Shows slot.tuple slot.metadata.isDeleted row ∧
        Chain history.logs history.image history.horizon slot.metadata.ts row
          (history.link rid) older ∧
            pick txn.readTs older = history.ledger.committedAt txn.readTs rid ∧
        ∀ stage ∈ older, ∀ tuple, stage.2 = some tuple → slot.tuple.length = tuple.length := by
  have snapshot := clock.readTs id txn live
  cases inv.store.slot rid slot found with
  | settled row older free whole shows chain =>
      have dated := stages_dated inv.store whole (List.mem_cons_self ..) clock.last.1
      have small := commit_ts_below_ids clock live
      have start := live_id clock live
      have notOwn : slot.metadata.ts ≠ id := by
        dsimp only at dated
        lia
      have picked := pick_of_stages whole txn.readTs
      rw [pick_cons] at picked
      split
      · rename_i early
        rw [if_pos (early.resolve_right notOwn)] at picked
        rw [Ledger.sees, free id, Option.getD_none, ← picked]
        exact (shows_iff.mp shows).symm
      · rename_i late
        rw [if_neg fun early => late (Or.inl early)] at picked
        refine ⟨free id, row, older, shows, chain, picked, ?_⟩
        intro stage member tuple same
        exact same_shape_length
          (stages_shape inv.store found whole (List.mem_cons_of_mem _ member) same)
  | owned writer record row all liveWriter written alone shows stamped whole chain older origin =>
      have late := stamp_late inv clock liveWriter rid
      rw [← stamped] at late
      by_cases own : writer = id
      · subst own
        rw [stamp_at_rest atRest] at stamped
        rw [if_pos (Or.inr stamped), Ledger.sees, written, Option.getD_some]
        exact (shows_iff.mp shows).symm
      · have foreign := stamp_foreign inv clock liveWriter live (Ne.symm own) rid
        rw [← stamped] at foreign
        rw [if_neg (by lia)]
        refine ⟨alone id (Ne.symm own), row, all, shows, chain, pick_of_stages whole txn.readTs, ?_⟩
        intro stage member tuple same
        exact same_shape_length (stages_shape inv.store found whole member same)

end Clocks

section QuietCalls
variable {before : History} {id : TxnId} {txn txn' : Transaction} {mgr : TransactionManager}
  {control : Control} {mutex : Option TxnId} {rid : RID}

/-- The actor's record and place in a call change, and perhaps the commit mutex. -/
theorem quiet_own {map : UnorderedMap TxnId Transaction} (store : StoreInv before)
    (live : before.Live id txn) (found : map.lookup id = some txn')
    (others : ∀ other, other ≠ id → map.lookup other = before.mgr.txnMap.lookup other)
    (live' : txn'.live = true)
    (snapshot : txn'.readTs = txn.readTs ∧ txn'.isolationLevel = txn.isolationLevel)
    (undoLogs : txn'.undoLogs = txn.undoLogs)
    (stamp : ∀ rid, (before.ledger.pending id rid).isSome →
      control.stampOf id rid = before.stampOf id rid)
    (owes : control.owes txn'.writeSet = before.owes id txn)
    (holds : ∀ other, other ≠ id → before.mgr.commitMutex = some other → mutex = some other) :
    Quiet before { before with mgr := { before.mgr with
      txnMap := map, commitMutex := mutex, control := update before.mgr.control id control } }
        id := by
  have logs : ({ before.mgr with
      txnMap := map, commitMutex := mutex,
      control := update before.mgr.control id control } : TransactionManager).getUndoLogOptional =
        before.mgr.getUndoLogOptional := by
    refine TransactionManager.logs_of_lookup fun other => ?_
    by_cases same : other = id
    · rw [same, live.1]
      simp [found, undoLogs]
    · exact congrArg _ (others other same)
  refine ⟨⟨rfl, rfl, rfl, rfl, rfl, ?_, ?_, others, ⟨txn, txn', live, ⟨found, live'⟩, snapshot⟩, ?_,
      holds, rfl, fun _ slot found => ⟨slot, found, rfl⟩⟩, rfl, rfl, rfl, rfl, ?_, ?_⟩
  · unfold History.logs
    rw [logs]
    exact logs_grow_refl _ _
  · unfold History.logs
    rw [logs]
    exact store.logs
  · intro other different
    exact Function.update_of_ne different _ _
  · intro rid written
    simp [History.stampOf, stamp rid written]
  · intro old new was now
    obtain rfl : txn = old := Option.some.inj (live.1.symm.trans was.1)
    obtain rfl : txn' = new := Option.some.inj (found.symm.trans now.1)
    simp [History.owes, owes]

/-- A call that changes the record of its transaction and ends. -/
theorem quiet_record (inv : Inv before) (ready : before.mgr.ready id = some txn)
    (live' : txn'.live = true)
    (snapshot : txn'.readTs = txn.readTs ∧ txn'.isolationLevel = txn.isolationLevel)
    (undoLogs : txn'.undoLogs = txn.undoLogs) (writeSet : txn'.writeSet = txn.writeSet) :
    Moved before { before with mgr := (before.mgr.setTxn id txn').setControl id .idle } id := by
  obtain ⟨found, live, rest⟩ := TransactionManager.ready_iff.mp ready
  refine quiet_moved (quiet_own inv.store ⟨found, live⟩ TransactionManager.lookup_set_txn
    (fun other different => TransactionManager.lookup_set_txn_other different) live' snapshot
    undoLogs ?_ ?_ (fun _ _ held => held)) inv ?_
  · intro rid _
    rw [stamp_at_rest rest]
    rfl
  · rw [owes_at_rest rest]
    exact writeSet
  · simp [CallInv]

theorem scan_moved (inv : Inv before) {oid : TableOid} {predicate : Predicate}
    (stepped : before.mgr.appendScanPredicate id oid predicate = some mgr) :
    Moved before { before with mgr := mgr } id := by
  obtain ⟨txn, ready, same⟩ := Option.bind_eq_some_iff.mp stepped
  obtain rfl := Option.some.inj same
  have live := (TransactionManager.ready_iff.mp ready).2.1
  exact quiet_record inv ready live ⟨rfl, rfl⟩ rfl rfl

theorem write_conflict_moved (inv : Inv before)
    (stepped : before.mgr.throwWriteConflict id = some mgr) :
    Moved before { before with mgr := mgr } id := by
  obtain ⟨txn, ready, same⟩ := Option.bind_eq_some_iff.mp stepped
  split at same
  · obtain rfl := Option.some.inj same
    exact quiet_record inv ready rfl ⟨rfl, rfl⟩ rfl rfl
  · cases same

/-- A step that only moves its transaction inside a call. -/
theorem quiet_control (inv : Inv before) (live : before.Live id txn)
    (stamp : ∀ rid, (before.ledger.pending id rid).isSome →
      control.stampOf id rid = before.stampOf id rid)
    (owes : control.owes txn.writeSet = before.owes id txn)
    (call : CallInv { before with mgr := before.mgr.setControl id control } id control) :
    Moved before { before with mgr := before.mgr.setControl id control } id := by
  refine quiet_moved
    (quiet_own inv.store live live.1 (fun _ _ => rfl) live.2 ⟨rfl, rfl⟩ rfl stamp owes
    (fun _ _ held => held)) inv ?_
  simpa [TransactionManager.setControl] using call

/-- The head of the loop of `CollectUndoLogs`: there is a next log, or the chain
has ended and nothing is visible. -/
theorem collect_from_call {base : Tuple} {baseMeta : TupleMeta} {logs : List UndoLog}
    {link : UndoLink} {upper : Timestamp} {values : Tuple} {deleted : Bool} {row : Option Tuple}
    {older : List Stage} (live : before.Live id txn)
    (reached : logs.foldl (fun (values, _) log => (applyUndoLog values log, log.isDeleted))
      (base, baseMeta.isDeleted) = (values, deleted))
    (shows : Shows values deleted row)
    (chain : Chain before.logs before.image before.horizon upper row link older)
    (top : upper = readAt baseMeta logs) (late : txn.readTs < upper)
    (fresh : before.horizon ≤ txn.readTs)
    (lengths : ∀ stage ∈ older, ∀ tuple, stage.2 = some tuple → values.length = tuple.length)
    (rest : pick txn.readTs older = before.ledger.committedAt txn.readTs rid)
    (unwritten : before.ledger.pending id rid = none) :
    CallInv before id (collectFrom rid base baseMeta logs link) := by
  unfold collectFrom
  split
  · rename_i valid
    exact ⟨txn, live,
      ReaderInv.reading upper values deleted row older reached shows chain top late lengths
        rest unwritten valid⟩
  · rename_i invalid
    obtain rfl := chain_root (by lia) (by simpa using invalid) chain
    refine ⟨txn, live, ?_⟩
    rw [Ledger.sees, unwritten, Option.getD_none, ← rest]
    rfl

theorem collect_from_stamp (rid place : RID) (base : Tuple) (baseMeta : TupleMeta)
    (logs : List UndoLog)
    (link : UndoLink) : (collectFrom rid base baseMeta logs link).stampOf id place = id := by
  unfold collectFrom
  split <;> rfl

theorem collect_from_owes (rid : RID) (base : Tuple) (baseMeta : TupleMeta) (logs : List UndoLog)
    (link : UndoLink) (writeSet : List (TableOid × RID)) :
    (collectFrom rid base baseMeta logs link).owes writeSet = writeSet := by
  unfold collectFrom
  split <;> rfl

theorem read_moved (inv : Inv before) (stepped : before.mgr.read id rid = some mgr) :
    Moved before { before with mgr := mgr } id := by
  obtain ⟨txn, ready, slot, found, same⟩ : ∃ txn, before.mgr.ready id = some txn ∧
      ∃ slot, before.mgr.heap.lookup rid = some slot ∧
        (if slot.metadata.ts ≤ txn.readTs ∨ slot.metadata.ts = id then
          some (before.mgr.setControl id
            (.returned rid (reconstructTuple slot.tuple slot.metadata [])))
        else some (before.mgr.setControl id (collectFrom rid slot.tuple slot.metadata []
          ((before.mgr.getUndoLink rid).getD {})))) = some mgr := by
    simpa only [TransactionManager.read, Option.bind_eq_bind, Option.bind_eq_some_iff] using stepped
  obtain ⟨inMap, live, rest⟩ := TransactionManager.ready_iff.mp ready
  obtain ⟨ids, clock⟩ := inv.clock
  have seen := slot_read inv clock ⟨inMap, live⟩ rest found
  split at same
  · rename_i visible
    obtain rfl := Option.some.inj same
    rw [if_pos visible] at seen
    refine quiet_control inv ⟨inMap, live⟩ ?_ (owes_at_rest rest).symm ⟨txn, ⟨inMap, live⟩, seen⟩
    exact fun place _ => (stamp_at_rest rest).symm
  · rename_i hidden
    obtain rfl := Option.some.inj same
    rw [if_neg hidden] at seen
    obtain ⟨unwritten, row, older, shows, chain, picked, lengths⟩ := seen
    refine quiet_control inv ⟨inMap, live⟩ ?_ ?_ ?_
    · intro place _
      rw [stamp_at_rest rest]
      exact collect_from_stamp rid place _ _ _ _
    · rw [owes_at_rest rest]
      exact collect_from_owes rid _ _ _ _ txn.writeSet
    · have still : History.Live { before with
          mgr := before.mgr.setControl id (collectFrom rid slot.tuple
          slot.metadata [] ((before.mgr.getUndoLink rid).getD {})) } id txn := ⟨inMap, live⟩
      exact collect_from_call still rfl shows chain rfl (by lia)
        (clock.readTs id txn ⟨inMap, live⟩).2.1
        lengths picked unwritten

/-- The next log of a read is there and brings back the next older row. -/
theorem fetch_moved (inv : Inv before) (stepped : before.mgr.fetch id = some mgr) :
    Moved before { before with mgr := mgr } id := by
  obtain ⟨record, inMap, same⟩ := Option.bind_eq_some_iff.mp stepped
  have call := inv.calls id
  split at same
  · rename_i rid base baseMeta logs link stage
    rw [stage] at call
    obtain ⟨txn, live, reader⟩ := call
    obtain rfl : record = txn := Option.some.inj (inMap.symm.trans live.1)
    obtain ⟨upper, values, deleted, row, older, reached, shows, chain, top, late, lengths,
        rest, unwritten, valid⟩ := reader
    obtain ⟨ids, clock⟩ := inv.clock
    have fresh := (clock.readTs id record live).2.1
    have stampSame (place : RID) : before.stampOf id place = id := by
      rw [History.stampOf, stage]
      rfl
    have owesSame : before.owes id record = record.writeSet := by
      rw [History.owes, stage]
      rfl
    obtain ⟨log, newer, found, rfl, before', covers, next⟩ := chain_link (by lia) valid chain
    obtain ⟨ts, stands⟩ := inv.store.logs link log found
    have sameLength (tuple : Tuple) (same : (before.image link).2 = some tuple) :=
      lengths _ (List.mem_cons_self ..) tuple same
    obtain ⟨showsNext, keeps⟩ := apply_log shows stands covers sameLength
    have reachedNext : (logs ++ [log]).foldl
      (fun (values, _) log => (applyUndoLog values log, log.isDeleted))
        (base, baseMeta.isDeleted) =
        (applyUndoLog values log, log.isDeleted) := by
      rw [List.foldl_append, reached]
      rfl
    simp only [History.logs] at found
    simp only [found] at same
    rw [pick_cons] at rest
    split at same
    · rename_i early
      obtain rfl := Option.some.inj same
      rw [if_pos (ts ▸ early)] at rest
      refine quiet_control inv live (fun place _ => (stampSame place).symm) owesSame.symm
        ⟨record, live, ?_⟩
      have result : reconstructTuple base baseMeta (logs ++ [log]) = (before.image link).2 := by
        unfold reconstructTuple
        rw [reachedNext]
        exact (shows_iff.mp showsNext).symm
      rw [result, rest, Ledger.sees, unwritten, Option.getD_none]
    · rename_i still
      obtain rfl := Option.some.inj same
      rw [if_neg (ts ▸ still)] at rest
      refine quiet_control inv live ?_ ?_ ?_
      · intro place _
        rw [stampSame]
        exact collect_from_stamp rid place _ _ _ _
      · rw [owesSame]
        exact collect_from_owes rid _ _ _ _ record.writeSet
      · have live' : History.Live { before with
            mgr := before.mgr.setControl id (collectFrom rid base
            baseMeta (logs ++ [log]) log.prevVersion) } id record := live
        have topNext : (before.image link).1 = readAt baseMeta (logs ++ [log]) := by
          rw [readAt, List.getLast?_append, ← ts]
          rfl
        refine collect_from_call live' reachedNext showsNext next topNext (by lia) fresh ?_
          rest unwritten
        intro stage member tuple same
        rw [keeps]
        exact lengths stage (List.mem_cons_of_mem _ member) tuple same
  · cases same

/-- The same when the commit mutex changes hands. -/
theorem quiet_locked (inv : Inv before) (live : before.Live id txn)
    (stamp : ∀ rid, (before.ledger.pending id rid).isSome →
      control.stampOf id rid = before.stampOf id rid)
    (owes : control.owes txn.writeSet = before.owes id txn)
    (holds : ∀ other, other ≠ id → before.mgr.commitMutex = some other → mutex = some other)
    (call : CallInv { before with
      mgr := { before.mgr with commitMutex := mutex }.setControl id control }
      id control) :
    Moved before { before with
      mgr := { before.mgr with commitMutex := mutex }.setControl id control } id := by
  refine quiet_moved
    (quiet_own inv.store live live.1 (fun _ _ => rfl) live.2 ⟨rfl, rfl⟩ rfl stamp owes holds) inv ?_
  simpa [TransactionManager.setControl] using call

end QuietCalls

end BusTub
