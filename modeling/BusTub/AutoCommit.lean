import BusTub.Aborts
import BusTub.ValueComparison

/-!
`BusTubInstance::ExecuteSql` outside of a managed transaction, from `Begin` to
where it returns or throws. What the statements of the text do is any sequence of
steps of their transaction, and any exception may come out of any of them; one of
the steps is what the transaction manager does under one latch. The reads of a
transaction that has ended leave nothing behind and are left out.
-/

namespace BusTub.AutoCommit

open TransitionSystem (Run graph)

/-! ### Exceptions -/

inductive StandardException where
  | invalidArgument
  | outOfRange
  | logicError
  | other
  deriving DecidableEq

inductive Thrown where
  /-- `ExecutionException` -/
  | execution
  /-- any other `bustub::Exception` -/
  | bustub
  | standard (exception : StandardException)
  deriving DecidableEq

def Thrown.isBustub : Thrown → Bool
  | .execution | .bustub => true
  | .standard _ => false

inductive Layer where
  | engine
  | outside
  deriving DecidableEq

def caughtByEngine : Layer → Thrown → Bool
  | .engine, .execution => true
  | _, _ => false

/-- What `std::stoi` throws: a text without a number in front, or one out of range. -/
def stoiThrows (text : List UInt8) : Option StandardException :=
  let (_, digits) := readSign (text.dropWhile isSpace)
  if (readDigits 10 digits 0 0).1.2 = 0 then some .invalidArgument
  else if (stoi text).isNone then some .outOfRange
  else none

/-- `VarlenType::CastAs(value, TypeId::INTEGER)`: only `std::out_of_range` is caught there. -/
def castToIntegerThrows (text : List UInt8) : Option Thrown :=
  match stoiThrows text with
  | some .outOfRange => some .bustub
  | some exception => some (.standard exception)
  | none => if (castToInteger .integer text).isNone then some .bustub else none

theorem stoi_throws (text : List UInt8) : stoiThrows text = none ↔ (stoi text).isSome := by
  unfold stoiThrows
  split
  rename_i negative digits signed
  cases digit : (readDigits 10 digits 0 0).1.2 with
  | zero =>
      have nothing : stoi text = none := by
        have parsed : stoll text = none := by simp [stoll, signed, digit]
        rw [stoi, parsed]
        rfl
      simp [nothing]
  | succ count =>
      cases stoi text <;> simp

/-- The cast throws exactly where it does not come back with a number. -/
theorem cast_to_integer_throws (text : List UInt8) :
    castToIntegerThrows text = none ↔ (castToInteger .integer text).isSome := by
  unfold castToIntegerThrows
  have parsed := stoi_throws text
  cases thrown : stoiThrows text with
  | none => cases castToInteger .integer text <;> simp
  | some exception =>
      have nothing : stoi text = none := by
        rw [thrown] at parsed
        simpa using parsed
      have failed : castToInteger .integer text = none := by rw [castToInteger, nothing]; rfl
      cases exception <;> simp [failed]

/-! ### The call -/

inductive Phase where
  /-- in `ExecuteSqlTxn` -/
  | statements
  /-- in `Commit`, of a COMMIT statement or at the end of `ExecuteSql` -/
  | committing (atEnd : Bool)
  /-- in `Abort`, of an ABORT statement or after an exception was caught -/
  | aborting (caught : Option Thrown)
  | returned (result : Bool)
  | threw (thrown : Thrown)

def Phase.ended : Phase → Bool
  | .returned _ | .threw _ => true
  | _ => false

structure Session where
  mgr : TransactionManager
  phase : Phase
  isSuccessful : Bool

inductive SessionOp where
  /-- a step of the transaction that a statement takes while it is RUNNING or TAINTED -/
  | statement (op : TxnOp)
  /-- BEGIN in managed mode: a transaction besides -/
  | begin (isolationLevel : IsolationLevel)
  /-- `\txn gc` -/
  | garbageCollection
  /-- an insertion after COMMIT or ABORT in the same text -/
  | lateInsert (oid : TableOid) (rid : RID) (tuple : Tuple)
  | lateModify (rid : RID) (target : Option Tuple) (requireDeleted : Bool)
  | raise (layer : Layer) (thrown : Thrown)
  | commitStatement
  | abortStatement
  /-- `ExecuteSqlTxn` returns -/
  | finish
  /-- a step inside of `Commit` or `Abort` -/
  | within (op : TxnOp)

def isStatement (id : TxnId) : TxnOp → Bool
  | .scan actor _ _ | .read actor _ | .fetch actor | .insert actor _ _ _ | .modify actor _ _ _
  | .throwWriteConflict actor => actor = id
  | _ => false

def isWithin (id : TxnId) : TxnOp → Bool
  | .verifyRid actor _ _ | .verifyVersion actor | .verified actor | .stamp actor _ _
  | .rollback actor _ _ =>
    actor = id
  | _ => false

def isLast (id : TxnId) : TxnOp → Option Bool
  | .publish actor => if actor = id then some true else none
  | .aborted actor => if actor = id then some false else none
  | _ => none

def hasEnded (mgr : TransactionManager) (id : TxnId) : Bool :=
  (mgr.txnMap.lookup id).all fun txn => !txn.live

/-- No call looks at the state of its transaction, so one that has ended writes
as if it were running; only a write conflict ends the process then. -/
def lately (mgr : TransactionManager) (id : TxnId)
    (call : TransactionManager → Option (ModifyResult × TransactionManager)) :
    Option (ModifyResult × TransactionManager) := do
  let txn ← mgr.txnMap.lookup id
  if txn.live then none
  else
    let (result, after) ← call (mgr.setTxn id { txn with state := .running })
    let record ← after.txnMap.lookup id
    if result = .writeConflict then none
    else some (result, after.setTxn id { record with state := txn.state })

def lateInsert (mgr : TransactionManager) (id : TxnId) (oid : TableOid) (rid : RID)
    (tuple : Tuple) :
    Option (ModifyResult × TransactionManager) :=
  lately mgr id fun mgr => (mgr.insertTuple id oid rid tuple).map fun after => (.done, after)

def lateModify (mgr : TransactionManager) (id : TxnId) (rid : RID) (target : Option Tuple)
    (requireDeleted : Bool) :
    Option (ModifyResult × TransactionManager) :=
  lately mgr id fun mgr => mgr.modifyTuple id rid target requireDeleted

/-- An exception leaves `ExecuteSqlTxn` or `Commit`. The `Abort` of a transaction that has
ended throws itself. -/
def leave (id : TxnId) (session : Session) (thrown : Thrown) : Option Session :=
  if thrown.isBustub then
    if hasEnded session.mgr id then some { session with phase := .threw .bustub }
    else (session.mgr.abort id).map fun mgr =>
      { session with mgr := mgr, phase := .aborting (some thrown) }
  else some { session with phase := .threw thrown }

def callCommit (id : TxnId) (session : Session) (atEnd : Bool) : Option Session := do
  let txn ← session.mgr.txnMap.lookup id
  if txn.state = .running then
    (session.mgr.commit id).map fun mgr => { session with mgr := mgr, phase := .committing atEnd }
  else leave id session .bustub

def resume (id : TxnId) (session : Session) (committed : Bool) : Option Session :=
  match session.phase with
  | .committing true =>
      if committed then some { session with phase := .returned session.isSuccessful }
      -- "failed to commit txn"
      else leave id session .bustub
  | .committing false | .aborting none => some { session with phase := .statements }
  | .aborting (some thrown) => some { session with phase := .threw thrown }
  | _ => none

def step (id : TxnId) (session : Session) (op : SessionOp) : Option Session :=
  match session.phase, op with
  | .returned _, _ | .threw _, _ => none
  | .statements, .statement op =>
      if isStatement id op then (session.mgr.step op).map fun mgr =>
        { session with mgr := mgr } else none
  | .statements, .begin isolationLevel =>
      (session.mgr.step (.begin isolationLevel)).map fun mgr => { session with mgr := mgr }
  | .statements, .garbageCollection =>
      (session.mgr.step .garbageCollection).map fun mgr => { session with mgr := mgr }
  | .statements, .lateInsert oid rid tuple =>
      (lateInsert session.mgr id oid rid tuple).map fun after => { session with mgr := after.2 }
  | .statements, .lateModify rid target requireDeleted =>
      (lateModify session.mgr id rid target requireDeleted).bind fun after =>
        if after.1 = .done then some { session with mgr := after.2 }
        else leave id { session with mgr := after.2 } .bustub
  | .statements, .raise layer thrown =>
      if caughtByEngine layer thrown then some { session with isSuccessful := false }
      else leave id session thrown
  | .statements, .commitStatement => callCommit id session false
  | .statements, .abortStatement =>
      if hasEnded session.mgr id then leave id session .bustub
      else (session.mgr.abort id).map fun mgr =>
        { session with mgr := mgr, phase := .aborting none }
  | .statements, .finish => callCommit id session true
  | .statements, .within _ => none
  | _, .within op =>
      if isWithin id op then (session.mgr.step op).map fun mgr => { session with mgr := mgr }
      else (isLast id op).bind fun committed =>
        (session.mgr.step op).bind fun mgr => resume id { session with mgr := mgr } committed
  | _, _ => none

def start (mgr : TransactionManager) : Option Session :=
  (mgr.begin .snapshotIsolation).map fun mgr =>
    { mgr := mgr, phase := .statements, isSuccessful := true }

/-- The transaction has ended, no tuple carries its temporary timestamp, and the
watermark follows the read timestamps of other transactions only. -/
structure LeavesNothing (id : TxnId) (mgr : TransactionManager) : Prop where
  ended : ∀ txn, mgr.txnMap.lookup id = some txn → txn.state = .committed ∨ txn.state = .aborted
  tuples : ∀ rid slot, mgr.heap.lookup rid = some slot → slot.metadata.ts ≠ id
  watermark : ∃ ids : List TxnId, id ∉ ids ∧
    (∀ other, other ∈ ids ↔ ∃ txn, mgr.txnMap.lookup other = some txn ∧ txn.live = true) ∧
    mgr.runningTxns.Follows (ids.map fun other =>
      ((mgr.txnMap.lookup other).map Transaction.readTs).getD 0)

/-- The page keeps a tuple of another size, so that the write throws. -/
def refusesSize (mgr : TransactionManager) (rid : RID) (target : Option Tuple) : Prop :=
  ∃ slot, mgr.heap.lookup rid = some slot ∧
    slot.tuple.getLength ≠ (target.getD slot.tuple).getLength

/-- No exception that is not of BusTub comes out while the transaction goes on,
and nothing is written after the text has ended it. -/
def Meets (id : TxnId) (session : Session) : SessionOp → Prop
  | .raise _ thrown => thrown.isBustub ∨ hasEnded session.mgr id
  | .lateInsert _ _ _ => False
  | .lateModify rid target _ => refusesSize session.mgr rid target
  | _ => True

def AllMeet (id : TxnId) : Session → List SessionOp → Prop
  | _, [] => True
  | session, op :: ops =>
      Meets id session op ∧ ∀ next, step id session op = some next → AllMeet id next ops

section Ends
variable {id : TxnId} {history after : History} {mgr : TransactionManager}
  {session next last : Session} {op : SessionOp} {before : TransactionManager} {phase : Phase}
  {rid : RID} {ops : List SessionOp} {successful : Bool} {result : ModifyResult} {txnOp : TxnOp}
  {thrown : Thrown} {target : Option Tuple} {requireDeleted : Bool}

theorem ended_iff : hasEnded mgr id = true ↔ ∀ txn, mgr.txnMap.lookup id = some txn →
    txn.live = false := by
  unfold hasEnded
  cases mgr.txnMap.lookup id <;> simp

/-- A transaction that is not live any more has left nothing in the tables or the watermark. -/
theorem gone_leaves_nothing (inv : Inv history) (given : TXN_START_ID ≤ id)
    (ended : hasEnded history.mgr id = true) :
    LeavesNothing id history.mgr := by
  have dead : ∀ txn, ¬ history.Live id txn := by
    intro txn live
    have off := ended_iff.mp ended txn live.1
    rw [live.2] at off
    exact Bool.noConfusion off
  obtain ⟨ids, clock⟩ := inv.clock
  refine ⟨?_, ?_, ids, fun member => ?_, clock.exact, clock.reads⟩
  · intro txn found
    have off := ended_iff.mp ended txn found
    cases state : txn.state <;> simp [Transaction.live, state] at off ⊢
  · intro rid slot found own
    have room := clock.room
    have bound := clock.bound
    have start : TXN_START_ID = 4611686018427387904 := rfl
    have max : INT64_MAX = 9223372036854775807 := rfl
    cases inv.store.slot rid slot found with
    | settled row older free whole shows chain =>
        have dated := stages_dated inv.store whole List.mem_cons_self clock.last.1
        have below : slot.metadata.ts ≤ history.mgr.lastCommitTs := dated.2
        lia
    | owned other txn row all live written alone shows stamped whole chain older origin =>
        have small := commit_ts_below_ids clock live
        have different : other ≠ id := fun same => dead txn (same ▸ live)
        -- it is stamped with the id of its writer or with a commit timestamp
        have call := inv.calls other
        unfold History.stampOf Control.stampOf at stamped
        split at stamped
        case h_1 commitTs rest stage =>
          rw [stage] at call
          have isNext : commitTs = history.mgr.lastCommitTs + 1 := call.2.1
          split at stamped
          · exact different (stamped.symm.trans own)
          · lia
        case h_2 => exact different (stamped.symm.trans own)
  · obtain ⟨txn, live⟩ := (clock.exact id).mp member
    exact dead txn live

theorem step_history {txnOp : TxnOp} (inv : Inv history)
    (stepped : history.mgr.step txnOp = some mgr) :
    ∃ later : History, later.mgr = mgr ∧ Inv later := by
  have recorded : history.step txnOp = some { history.record txnOp with mgr := mgr } := by
    rw [History.step, stepped]
    rfl
  exact ⟨_, rfl, step_inv inv recorded⟩

theorem last_ends {committed : Bool} (isLast : isLast id txnOp = some committed)
    (stepped : before.step txnOp = some mgr) : hasEnded mgr id = true := by
  rw [ended_iff]
  intro txn found
  cases txnOp with
  | publish actor =>
      obtain rfl : actor = id := by
        by_contra different
        simp [AutoCommit.isLast, different] at isLast
      obtain ⟨record, -, same⟩ := Option.bind_eq_some_iff.mp stepped
      split at same
      · obtain rfl := Option.some.inj same
        obtain rfl := Option.some.inj (TransactionManager.lookup_set_txn.symm.trans found)
        rfl
      · cases same
  | aborted actor =>
      obtain rfl : actor = id := by
        by_contra different
        simp [AutoCommit.isLast, different] at isLast
      obtain ⟨record, -, same⟩ := Option.bind_eq_some_iff.mp stepped
      split at same
      · obtain rfl := Option.some.inj same
        obtain rfl := Option.some.inj (TransactionManager.lookup_set_txn.symm.trans found)
        rfl
      · cases same
  | _ => simp [AutoCommit.isLast] at isLast

def Sound (id : TxnId) (session : Session) : Prop :=
  if session.phase.ended then LeavesNothing id session.mgr else ∃ history :
    History, history.mgr = session.mgr ∧ Inv history

theorem sound_on (goesOn : phase.ended = false) (inv : Inv history) :
    Sound id { mgr := history.mgr, phase := phase, isSuccessful := successful } := by
  rw [Sound, if_neg (by simp [goesOn])]
  exact ⟨history, rfl, inv⟩

theorem sound_closed (closed : phase.ended = true) (inv : Inv history) (given : TXN_START_ID ≤ id)
    (ended : hasEnded history.mgr id = true) :
    Sound id { mgr := history.mgr, phase := phase, isSuccessful := successful } := by
  rw [Sound, if_pos closed]
  exact gone_leaves_nothing inv given ended

theorem leave_sound (inv : Inv history) (given : TXN_START_ID ≤ id)
    (known : thrown.isBustub = true ∨ hasEnded history.mgr id = true)
    (left : leave id { mgr := history.mgr, phase := phase, isSuccessful := successful } thrown =
      some next) :
    Sound id next := by
  unfold leave at left
  split at left
  case isTrue =>
    split at left
    case isTrue ended =>
      obtain rfl := Option.some.inj left
      exact sound_closed rfl inv given ended
    case isFalse =>
      obtain ⟨mgr, aborting, rfl⟩ := Option.map_eq_some_iff.mp left
      obtain ⟨later, rfl, inv⟩ := @step_history history mgr (.abort id) inv aborting
      exact sound_on rfl inv
  case isFalse foreign =>
    obtain rfl := Option.some.inj left
    rcases known with isBustub | ended
    · exact absurd isBustub foreign
    · exact sound_closed rfl inv given ended

theorem commit_sound {successful atEnd : Bool} (inv : Inv history) (given : TXN_START_ID ≤ id)
    (called : callCommit id { mgr := history.mgr, phase := phase, isSuccessful := successful }
      atEnd = some next) :
    Sound id next := by
  obtain ⟨txn, found, called⟩ := Option.bind_eq_some_iff.mp called
  split at called
  · obtain ⟨mgr, committing, rfl⟩ := Option.map_eq_some_iff.mp called
    obtain ⟨later, rfl, inv⟩ := @step_history history mgr (.commit id) inv committing
    exact sound_on rfl inv
  · exact leave_sound inv given (Or.inl rfl) called

theorem resume_sound {successful committed : Bool} (inv : Inv history) (given : TXN_START_ID ≤ id)
    (ended : hasEnded history.mgr id = true)
    (resumed : resume id { mgr := history.mgr, phase := phase, isSuccessful := successful }
      committed = some next) :
    Sound id next := by
  unfold resume at resumed
  split at resumed
  · split at resumed
    · obtain rfl := Option.some.inj resumed
      exact sound_closed rfl inv given ended
    · exact leave_sound inv given (Or.inl rfl) resumed
  · obtain rfl := Option.some.inj resumed
    exact sound_on rfl inv
  · obtain rfl := Option.some.inj resumed
    exact sound_on rfl inv
  · obtain rfl := Option.some.inj resumed
    exact sound_closed rfl inv given ended
  · cases resumed

/-! ### Writing after the end -/

structure Late (id : TxnId) (before after : TransactionManager) : Prop where
  found : ∃ txn, before.txnMap.lookup id = some txn
  ended : hasEnded before id = true
  others : ∀ other, other ≠ id → after.txnMap.lookup other = before.txnMap.lookup other
  state : ∀ txn, after.txnMap.lookup id = some txn → ∃ was, before.txnMap.lookup id = some was ∧
    txn.state = was.state
  runningTxns : after.runningTxns = before.runningTxns
  nextTxnId : after.nextTxnId = before.nextTxnId

theorem late_ended (late : Late id before mgr) :
    hasEnded mgr id = true := by
  rw [ended_iff]
  intro txn found
  obtain ⟨was, there, same⟩ := late.state txn found
  have off := ended_iff.mp late.ended was there
  rwa [Transaction.live, same]

theorem lately_spec {before after : TransactionManager}
    {call : TransactionManager → Option (ModifyResult × TransactionManager)}
    (ran : lately before id call = some (result, after)) :
    ∃ revived middle, revived.heap = before.heap ∧ revived.runningTxns = before.runningTxns ∧
      revived.nextTxnId = before.nextTxnId ∧ call revived = some (result, middle) ∧
      result ≠ .writeConflict ∧ after.heap = middle.heap ∧
      (middle.runningTxns = revived.runningTxns → middle.nextTxnId = revived.nextTxnId →
        (∀ other, other ≠ id → middle.txnMap.lookup other = revived.txnMap.lookup other) →
        Late id before after) := by
  obtain ⟨txn, found, ran⟩ := Option.bind_eq_some_iff.mp ran
  split at ran
  · cases ran
  · rename_i closed
    obtain ⟨⟨result', middle⟩, called, ran⟩ := Option.bind_eq_some_iff.mp ran
    obtain ⟨record, recorded, ran⟩ := Option.bind_eq_some_iff.mp ran
    split at ran
    · cases ran
    · rename_i clear
      obtain ⟨rfl, rfl⟩ := Prod.mk.inj (Option.some.inj ran)
      refine ⟨before.setTxn id { txn with state := .running }, middle, rfl, rfl, rfl,
          called, clear, rfl, fun running nextId others => ?_⟩
      refine ⟨⟨txn, found⟩, ended_iff.mpr fun was there => ?_, fun other different => ?_,
          fun written here =>
        ?_, running, nextId⟩
      · obtain rfl := Option.some.inj (found.symm.trans there)
        simpa using closed
      · rw [TransactionManager.lookup_set_txn_other different, others other different,
          TransactionManager.lookup_set_txn_other different]
      · obtain rfl := Option.some.inj (TransactionManager.lookup_set_txn.symm.trans here)
        exact ⟨txn, found, rfl⟩

theorem late_insert_spec {oid : TableOid} {tuple : Tuple}
    (ran : lateInsert before id oid rid tuple = some (result, mgr)) :
    Late id before mgr ∧ ∃ slot, slot.metadata.ts = id ∧
      mgr.heap = before.heap.insert rid slot := by
  obtain ⟨revived, middle, heap, -, -, called, -, sameHeap, frame⟩ := lately_spec ran
  obtain ⟨inserted, there, pair⟩ := Option.map_eq_some_iff.mp called
  obtain ⟨-, rfl⟩ := Prod.mk.inj pair
  obtain ⟨txn, -, inserting⟩ := Option.bind_eq_some_iff.mp there
  split at inserting
  · cases inserting
  · obtain rfl := Option.some.inj inserting
    refine ⟨frame rfl rfl fun other different => TransactionManager.lookup_set_txn_other different,
      { oid := oid, metadata := { ts := id, isDeleted := false }, tuple := tuple }, rfl, ?_⟩
    rw [sameHeap, ← heap]
    rfl

theorem mismatch_refuses
    (ran : before.modifyTuple id rid target requireDeleted = some (.sizeMismatch, mgr)) :
    refusesSize before rid target := by
  obtain ⟨txn, -, ran⟩ := Option.bind_eq_some_iff.mp ran
  obtain ⟨slot, found, ran⟩ := Option.bind_eq_some_iff.mp ran
  split at ran
  · cases ran
  · split at ran
    · obtain ⟨tainted, -, pair⟩ := Option.map_eq_some_iff.mp ran
      cases pair
    · obtain ⟨-, ran⟩ := Option.ite_none_left_eq_some.mp ran
      refine ⟨slot, found, fun fits => ?_⟩
      simp [Slot.updateTupleInPlace, fits] at ran

theorem late_modify_spec
    (ran : lateModify before id rid target requireDeleted = some (result, mgr)) :
    Late id before mgr ∧
      ((result = .sizeMismatch ∧ refusesSize before rid target ∧ mgr.heap = before.heap) ∨
        (result = .done ∧ ¬ refusesSize before rid target ∧ ∃ slot, slot.metadata.ts = id ∧
        mgr.heap = before.heap.insert rid slot)) := by
  obtain ⟨revived, middle, heap, -, -, called, clear, sameHeap, frame⟩ := lately_spec ran
  obtain ⟨txn, slot, -, found, -, conflict | ⟨-, recorded, link, -, mismatch | done⟩⟩ :=
    modify_cases called
  · exact absurd conflict.1 clear
  · obtain ⟨rfl, rfl⟩ := mismatch
    obtain ⟨there, inHeap, apart⟩ := mismatch_refuses called
    exact ⟨frame rfl rfl fun other different => TransactionManager.lookup_set_txn_other different,
      Or.inl ⟨rfl, ⟨there, heap ▸ inHeap, apart⟩, sameHeap.trans heap⟩⟩
  · obtain ⟨rfl, fits, rfl⟩ := done
    obtain ⟨info, same, -, -⟩ :=
      update_undo_link_shape
        ((((revived.setTxn id (recorded.appendWriteSet slot.oid rid)).setControl
      id .idle).setSlot rid { slot with
        metadata := { ts := id, isDeleted := target.isNone }
        tuple := target.getD slot.tuple })) rid link
    rw [same] at sameHeap frame
    refine ⟨frame rfl rfl fun other different => TransactionManager.lookup_set_txn_other different,
      Or.inr ⟨rfl, ?_, { slot with
        metadata := { ts := id, isDeleted := target.isNone }
        tuple := target.getD slot.tuple }, rfl, by rw [sameHeap, ← heap]; rfl⟩⟩
    rintro ⟨there, inHeap, apart⟩
    rw [← heap] at inHeap
    obtain rfl := Option.some.inj (found.symm.trans inHeap)
    exact apart fits

/-- A late write that was refused leaves nothing more than there was. -/
theorem late_leaves_nothing (late : Late id before mgr) (heap : mgr.heap = before.heap)
    (nothing : LeavesNothing id before) : LeavesNothing id mgr := by
  obtain ⟨ids, outside, live, follows⟩ := nothing.watermark
  refine ⟨?_, ?_, ids, outside, fun other => ?_, ?_⟩
  · intro txn found
    obtain ⟨was, there, same⟩ := late.state txn found
    rw [same]
    exact nothing.ended was there
  · rw [heap]
    exact nothing.tuples
  · by_cases same : other = id
    · subst same
      refine ⟨fun member => absurd member outside, ?_⟩
      rintro ⟨txn, found, alive⟩
      rw [ended_iff.mp (late_ended late) txn found] at alive
      exact Bool.noConfusion alive
    · rw [late.others other same]
      exact live other
  · rw [late.runningTxns]
    have reads : (ids.map fun other => ((mgr.txnMap.lookup other).map Transaction.readTs).getD 0) =
        ids.map fun other => ((before.txnMap.lookup other).map Transaction.readTs).getD 0 := by
      apply List.map_congr_left
      intro other member
      rw [late.others other fun same => outside (same ▸ member)]
    rwa [reads]

theorem sound_step (given : TXN_START_ID ≤ id) (sound : Sound id session)
    (meets : Meets id session op) (stepped : step id session op = some next) : Sound id next := by
  obtain ⟨mgr, phase, successful⟩ := session
  cases closed : phase.ended with
  | true => cases phase <;> simp_all [step, Phase.ended]
  | false =>
      rw [Sound, if_neg (by simp [closed])] at sound
      obtain ⟨history, rfl, inv⟩ := sound
      unfold step at stepped
      split at stepped
      case h_1 => cases stepped
      case h_2 => cases stepped
      case h_3 =>
        split at stepped
        · obtain ⟨mgr, ran, rfl⟩ := Option.map_eq_some_iff.mp stepped
          obtain ⟨later, rfl, inv⟩ := step_history inv ran
          exact sound_on closed inv
        · cases stepped
      case h_4 =>
        obtain ⟨mgr, ran, rfl⟩ := Option.map_eq_some_iff.mp stepped
        obtain ⟨later, rfl, inv⟩ := step_history inv ran
        exact sound_on closed inv
      case h_5 =>
        obtain ⟨mgr, ran, rfl⟩ := Option.map_eq_some_iff.mp stepped
        obtain ⟨later, rfl, inv⟩ := step_history inv ran
        exact sound_on closed inv
      case h_6 => exact meets.elim
      case h_7 =>
        obtain ⟨⟨result, after⟩, ran, left⟩ := Option.bind_eq_some_iff.mp stepped
        obtain ⟨late, mismatch | done⟩ := late_modify_spec ran
        · obtain ⟨rfl, -, heap⟩ := mismatch
          simp only [reduceCtorEq, if_false, leave, Thrown.isBustub, if_true, late_ended late]
            at left
          obtain rfl := Option.some.inj left
          rw [Sound, if_pos (show Phase.ended (.threw .bustub) = true from rfl)]
          exact late_leaves_nothing late heap (gone_leaves_nothing inv given late.ended)
        · exact absurd meets done.2.1
      case h_8 =>
        split at stepped
        · obtain rfl := Option.some.inj stepped
          exact sound_on closed inv
        · exact leave_sound inv given meets stepped
      case h_9 => exact commit_sound inv given stepped
      case h_10 =>
        split at stepped
        · exact leave_sound inv given (Or.inl rfl) stepped
        · obtain ⟨mgr, ran, rfl⟩ := Option.map_eq_some_iff.mp stepped
          obtain ⟨later, rfl, inv⟩ := @step_history history mgr (.abort id) inv ran
          exact sound_on rfl inv
      case h_11 => exact commit_sound inv given stepped
      case h_12 => cases stepped
      case h_13 =>
        split at stepped
        · obtain ⟨mgr, ran, rfl⟩ := Option.map_eq_some_iff.mp stepped
          obtain ⟨later, rfl, inv⟩ := step_history inv ran
          exact sound_on closed inv
        · obtain ⟨committed, isLast, stepped⟩ := Option.bind_eq_some_iff.mp stepped
          obtain ⟨mgr, ran, resumed⟩ := Option.bind_eq_some_iff.mp stepped
          have ended := last_ends isLast ran
          obtain ⟨later, rfl, inv⟩ := step_history inv ran
          exact resume_sound inv given ended resumed
      case h_14 => cases stepped

/-! ### Where it does not -/

structure Stuck (id : TxnId) (mgr : TransactionManager) : Prop where
  tuple : ∃ rid slot, mgr.heap.lookup rid = some slot ∧ slot.metadata.ts = id
  ended : hasEnded mgr id = true
  known : id < mgr.nextTxnId

theorem late_stuck (stuck : Stuck id before) (late : Late id before mgr)
    (heap : mgr.heap = before.heap ∨ ∃ rid slot, slot.metadata.ts = id ∧
      mgr.heap = before.heap.insert rid slot) :
    Stuck id mgr := by
  obtain ⟨rid, slot, found, own⟩ := stuck.tuple
  refine ⟨?_, late_ended late, late.nextTxnId ▸ stuck.known⟩
  rcases heap with same | ⟨place, written, stamped, inserted⟩
  · exact ⟨rid, slot, same ▸ found, own⟩
  · exact ⟨place, written, inserted ▸ AList.lookup_insert _, stamped⟩

theorem late_sticks (late : Late id before mgr) (known : id < before.nextTxnId) {slot : Slot}
    (stamped : slot.metadata.ts = id) (heap : mgr.heap = before.heap.insert rid slot) :
    Stuck id mgr :=
  ⟨⟨rid, slot, heap ▸ AList.lookup_insert _, stamped⟩, late_ended late, late.nextTxnId ▸ known⟩

/-- A transaction that has ended takes no steps of its own but those of a read that goes on. -/
theorem ended_statement (ended : hasEnded before id = true) (own : isStatement id txnOp = true)
    (stepped : before.step txnOp = some mgr) :
    mgr.heap = before.heap ∧ mgr.txnMap = before.txnMap ∧ mgr.nextTxnId = before.nextTxnId := by
  have unready : before.ready id = none := by
    cases ready : before.ready id with
    | none => rfl
    | some txn =>
        obtain ⟨found, alive, -⟩ := TransactionManager.ready_iff.mp ready
        rw [ended_iff.mp ended txn found] at alive
        exact Bool.noConfusion alive
  cases txnOp with
  | fetch actor =>
      obtain ⟨txn, -, ran⟩ := Option.bind_eq_some_iff.mp stepped
      split at ran
      · split at ran
        · obtain rfl := Option.some.inj ran
          exact ⟨rfl, rfl, rfl⟩
        · split at ran <;> obtain rfl := Option.some.inj ran <;> exact ⟨rfl, rfl, rfl⟩
      · cases ran
  | scan actor oid predicate =>
      obtain rfl : actor = id := by simpa [isStatement] using own
      simp [TransactionManager.step, TransactionManager.appendScanPredicate, unready] at stepped
  | read actor rid =>
      obtain rfl : actor = id := by simpa [isStatement] using own
      simp [TransactionManager.step, TransactionManager.read, unready] at stepped
  | insert actor oid rid tuple =>
      obtain rfl : actor = id := by simpa [isStatement] using own
      simp [TransactionManager.step, TransactionManager.insertTuple, unready] at stepped
  | modify actor rid target requireDeleted =>
      obtain rfl : actor = id := by simpa [isStatement] using own
      simp [TransactionManager.step, TransactionManager.modifyTuple, unready] at stepped
  | throwWriteConflict actor =>
      obtain rfl : actor = id := by simpa [isStatement] using own
      simp [TransactionManager.step, TransactionManager.throwWriteConflict, unready] at stepped
  | _ => simp [isStatement] at own

theorem ended_begin {isolationLevel : IsolationLevel} (stuck : Stuck id before)
    (stepped : before.step (.begin isolationLevel) = some mgr) : Stuck id mgr := by
  obtain ⟨rid, slot, found, own⟩ := stuck.tuple
  have known := stuck.known
  simp only [TransactionManager.step, TransactionManager.begin] at stepped
  split at stepped
  · cases stepped
  · obtain ⟨running, -, ran⟩ := Option.bind_eq_some_iff.mp stepped
    obtain rfl := Option.some.inj ran
    refine ⟨⟨rid, slot, found, own⟩, ended_iff.mpr fun txn there => ?_,
      by change id < before.nextTxnId + 1; lia⟩
    have other : id ≠ before.nextTxnId := by lia
    exact ended_iff.mp stuck.ended txn
      ((TransactionManager.lookup_set_txn_other other).symm.trans there)

theorem ended_collection (stuck : Stuck id before)
    (stepped : before.step .garbageCollection = some mgr) : Stuck id mgr := by
  obtain ⟨rid, slot, found, own⟩ := stuck.tuple
  simp only [TransactionManager.step, TransactionManager.garbageCollection] at stepped
  split at stepped
  · obtain rfl := Option.some.inj stepped
    exact ⟨⟨rid, slot, found, own⟩,
      ended_iff.mpr fun txn there =>
        ended_iff.mp stuck.ended txn (lookup_keep_some.mp there).1, stuck.known⟩
  · cases stepped

theorem ended_leave (ended : hasEnded session.mgr id = true)
    (left : leave id session thrown = some next) :
    next.mgr = session.mgr ∧ next.phase.ended = true := by
  unfold leave at left
  rw [if_pos ended] at left
  split at left <;> obtain rfl := Option.some.inj left <;> exact ⟨rfl, rfl⟩

theorem ended_commit {atEnd : Bool} (ended : hasEnded session.mgr id = true)
    (called : callCommit id session atEnd = some next) :
    next.mgr = session.mgr ∧ next.phase.ended = true := by
  obtain ⟨txn, found, called⟩ := Option.bind_eq_some_iff.mp called
  split at called
  case isTrue running =>
    have off := ended_iff.mp ended txn found
    simp [Transaction.live, running] at off
  case isFalse => exact ended_leave ended called

/-- Nothing that the text still does takes the timestamp away. -/
theorem stuck_step (stuck : Stuck id session.mgr)
    (idle : session.phase = .statements ∨ session.phase.ended = true)
    (stepped : step id session op = some next) :
    Stuck id next.mgr ∧ (next.phase = .statements ∨ next.phase.ended = true) := by
  obtain ⟨mgr, phase, successful⟩ := session
  rcases idle with atStatements | closed
  · obtain rfl : phase = .statements := atStatements
    cases op with
    | statement txnOp =>
        simp only [step] at stepped
        split at stepped
        · rename_i own
          obtain ⟨after, ran, rfl⟩ := Option.map_eq_some_iff.mp stepped
          obtain ⟨heap, txnMap, nextId⟩ := ended_statement stuck.ended own ran
          obtain ⟨rid, slot, found, stamped⟩ := stuck.tuple
          refine ⟨⟨⟨rid, slot, heap ▸ found, stamped⟩, ?_, nextId ▸ stuck.known⟩, Or.inl rfl⟩
          rw [ended_iff, txnMap]
          exact ended_iff.mp stuck.ended
        · cases stepped
    | begin isolationLevel =>
        obtain ⟨after, ran, rfl⟩ := Option.map_eq_some_iff.mp stepped
        exact ⟨ended_begin stuck ran, Or.inl rfl⟩
    | garbageCollection =>
        obtain ⟨after, ran, rfl⟩ := Option.map_eq_some_iff.mp stepped
        exact ⟨ended_collection stuck ran, Or.inl rfl⟩
    | lateInsert oid rid tuple =>
        obtain ⟨⟨result, after⟩, ran, rfl⟩ := Option.map_eq_some_iff.mp stepped
        obtain ⟨late, slot, stamped, heap⟩ := late_insert_spec ran
        exact ⟨late_stuck stuck late (Or.inr ⟨rid, slot, stamped, heap⟩), Or.inl rfl⟩
    | lateModify rid target requireDeleted =>
        obtain ⟨⟨result, after⟩, ran, left⟩ := Option.bind_eq_some_iff.mp stepped
        obtain ⟨late, ⟨rfl, -, heap⟩ | ⟨rfl, -, slot, stamped, heap⟩⟩ := late_modify_spec ran
        · simp only [reduceCtorEq, if_false] at left
          obtain ⟨same, closed⟩ := ended_leave (late_ended late) left
          rw [same]
          exact ⟨late_stuck stuck late (Or.inl heap), Or.inr closed⟩
        · simp only [if_true] at left
          obtain rfl := Option.some.inj left
          exact ⟨late_stuck stuck late (Or.inr ⟨rid, slot, stamped, heap⟩), Or.inl rfl⟩
    | raise layer thrown =>
        simp only [step] at stepped
        split at stepped
        · obtain rfl := Option.some.inj stepped
          exact ⟨stuck, Or.inl rfl⟩
        · obtain ⟨same, closed⟩ := ended_leave stuck.ended stepped
          exact ⟨same ▸ stuck, Or.inr closed⟩
    | commitStatement =>
        obtain ⟨same, closed⟩ := ended_commit stuck.ended stepped
        exact ⟨same ▸ stuck, Or.inr closed⟩
    | abortStatement =>
        simp only [step, if_pos stuck.ended] at stepped
        obtain ⟨same, closed⟩ := ended_leave stuck.ended stepped
        exact ⟨same ▸ stuck, Or.inr closed⟩
    | finish =>
        obtain ⟨same, closed⟩ := ended_commit stuck.ended stepped
        exact ⟨same ▸ stuck, Or.inr closed⟩
    | within txnOp => cases stepped
  · cases phase <;> simp_all [step, Phase.ended]

theorem stuck_run (run : Run (graph (step id)) session ops last) (stuck : Stuck id session.mgr)
    (idle : session.phase = .statements ∨ session.phase.ended = true) : Stuck id last.mgr := by
  induction run with
  | refl session => exact stuck
  | next stepped _ ih =>
      obtain ⟨stuck, idle⟩ := stuck_step stuck idle stepped
      exact ih stuck idle

theorem stuck_leaves (stuck : Stuck id mgr) : ¬ LeavesNothing id mgr := by
  obtain ⟨rid, slot, found, own⟩ := stuck.tuple
  exact fun nothing => nothing.tuples rid slot found own

theorem ended_run (run : Run (graph (step id)) session ops last)
    (closed : session.phase.ended = true) :
    last = session := by
  cases run with
  | refl => rfl
  | next stepped _ =>
      obtain ⟨mgr, phase, successful⟩ := session
      have stays : step id ⟨mgr, phase, successful⟩ _ = some _ := stepped
      cases phase <;> simp_all [step, Phase.ended]

/-- A step that does not meet the condition leaves something behind for good. -/
theorem violation_leaves (sound : Sound id session) (violates : ¬ Meets id session op)
    (stepped : step id session op = some next) (run : Run (graph (step id)) next ops last) :
    ¬ LeavesNothing id last.mgr := by
  obtain ⟨mgr, phase, successful⟩ := session
  have known : phase.ended = false → (∃ txn, mgr.txnMap.lookup id = some txn) →
      id < mgr.nextTxnId := by
    rintro goesOn ⟨txn, found⟩
    rw [Sound, if_neg (by simp [goesOn])] at sound
    obtain ⟨history, rfl, inv⟩ := sound
    obtain ⟨ids, clock⟩ := inv.clock
    exact (clock.known id txn found).2
  cases op with
  | raise layer thrown =>
      simp only [Meets, not_or, Bool.not_eq_true] at violates
      obtain ⟨foreign, live⟩ := violates
      have left : next = { mgr := mgr, phase := .threw thrown, isSuccessful := successful } := by
        cases phase <;> simp [step] at stepped
        have passes : caughtByEngine layer thrown = false := by
          cases thrown with
          | standard exception => cases layer <;> rfl
          | _ => simp [Thrown.isBustub] at foreign
        simpa [passes, leave, foreign] using stepped.symm
      subst left
      rw [ended_run run rfl]
      intro nothing
      have dead : hasEnded mgr id = true := by
        rw [ended_iff]
        intro txn found
        rcases nothing.ended txn found with state | state <;> simp [Transaction.live, state]
      rw [live] at dead
      exact Bool.noConfusion dead
  | lateInsert oid rid tuple =>
      cases phase <;> simp only [step, Option.map_eq_some_iff, reduceCtorEq] at stepped
      obtain ⟨⟨result, after⟩, ran, rfl⟩ := stepped
      obtain ⟨late, slot, stamped, heap⟩ := late_insert_spec ran
      exact stuck_leaves
        (stuck_run run (late_sticks late (known rfl late.found) stamped heap) (Or.inl rfl))
  | lateModify rid target requireDeleted =>
      cases phase <;> simp only [step, Option.bind_eq_some_iff, reduceCtorEq] at stepped
      obtain ⟨⟨result, after⟩, ran, left⟩ := stepped
      obtain ⟨late, ⟨rfl, refuses, -⟩ | ⟨rfl, -, slot, stamped, heap⟩⟩ := late_modify_spec ran
      · exact absurd refuses violates
      · simp only [if_true] at left
        obtain rfl := Option.some.inj left
        exact stuck_leaves
          (stuck_run run (late_sticks late (known rfl late.found) stamped heap) (Or.inl rfl))
  | _ => exact absurd trivial violates

/-- In a run that is over, nothing is left behind exactly if every step has met the condition. -/
theorem run_leaves (given : TXN_START_ID ≤ id) (run : Run (graph (step id)) session ops last)
    (sound : Sound id session) (closed : last.phase.ended = true) :
    LeavesNothing id last.mgr ↔ AllMeet id session ops := by
  induction run with
  | refl session =>
      rw [Sound, if_pos closed] at sound
      exact iff_of_true sound trivial
  | @next session middle last op ops stepped run ih =>
      by_cases meets : Meets id session op
      · rw [ih (sound_step given sound meets stepped) closed, AllMeet]
        constructor
        · intro rest
          refine ⟨meets, fun next same => ?_⟩
          obtain rfl := Option.some.inj (stepped.symm.trans same)
          exact rest
        · exact fun all => all.2 middle stepped
      · exact iff_of_false (violation_leaves sound meets stepped run) fun all => meets all.1

end Ends

/-- Auto-commit leaves no transaction behind exactly when no exception that is not of
BusTub comes out of the text while its transaction goes on, and the text writes nothing
after it has ended the transaction itself. -/
theorem auto_commit_leaves_nothing {catalog : TableOid → Schema} {history : History}
    (reached : Reached catalog history) {first last : Session}
    (begun : start history.mgr = some first) {ops : List SessionOp}
    (run : Run (graph (step history.mgr.nextTxnId)) first ops last)
    (closed : last.phase.ended = true) :
    LeavesNothing history.mgr.nextTxnId last.mgr ↔ AllMeet history.mgr.nextTxnId first ops := by
  have inv := reached_inv reached
  obtain ⟨ids, clock⟩ := inv.clock
  have given : TXN_START_ID ≤ history.mgr.nextTxnId := by
    have room := clock.room
    have last := clock.last.1
    lia
  obtain ⟨mgr, began, rfl⟩ := Option.map_eq_some_iff.mp begun
  obtain ⟨later, rfl, inv⟩ := @step_history history mgr (.begin .snapshotIsolation) inv began
  exact run_leaves given run (sound_on rfl inv) closed

/-! ### `SELECT * FROM t WHERE x = 'abc'` -/

def filledRun : List TxnOp :=
  [.begin .snapshotIsolation, .insert TXN_START_ID 0 firstSlot [number 1], .commit TXN_START_ID,
    .stamp TXN_START_ID 0 firstSlot, .publish TXN_START_ID]

theorem filled_run_returns : (runFrom oneColumn filledRun).isSome = true := by decide

def filled : History := (runFrom oneColumn filledRun).get filled_run_returns

theorem filled_starts : (start filled.mgr).isSome = true := by decide

def filledSession : Session := (start filled.mgr).get filled_starts

def readingOps : List SessionOp :=
  [.statement (.read (TXN_START_ID + 1) firstSlot), .finish, .within (.publish (TXN_START_ID + 1))]

theorem reading_returns : (readingOps.foldlM (step (TXN_START_ID + 1)) filledSession).isSome =
    true := by decide

theorem reading_leaves_nothing : LeavesNothing (TXN_START_ID + 1)
    ((readingOps.foldlM (step (TXN_START_ID + 1)) filledSession).get reading_returns).mgr := by
  have run := TransitionSystem.run_of_fold (Option.some_get reading_returns).symm
  have answered :=
    @auto_commit_leaves_nothing oneColumn filled (reached_run filled_run_returns) filledSession _
      (Option.some_get filled_starts).symm readingOps run (by decide)
  exact answered.mpr ⟨trivial, fun _ _ => ⟨trivial, fun _ _ => ⟨trivial, fun _ _ => trivial⟩⟩⟩

/-- Comparing the row's 1 with the text throws. -/
def comparingOps : List SessionOp :=
  [.statement (.read (TXN_START_ID + 1) firstSlot), .raise .engine (.standard .invalidArgument)]

theorem comparing_returns : (comparingOps.foldlM (step (TXN_START_ID + 1)) filledSession).isSome =
    true := by decide

theorem foreign_exception_leaves_transaction :
    castToIntegerThrows (ascii ['a', 'b', 'c']) = some (.standard .invalidArgument) ∧
      ∃ first last, start filled.mgr = some first ∧
        Run (graph (step filled.mgr.nextTxnId)) first comparingOps last ∧ last.phase.ended = true ∧
        ¬ LeavesNothing filled.mgr.nextTxnId last.mgr := by
  refine ⟨by decide, filledSession,
    (comparingOps.foldlM (step (TXN_START_ID + 1)) filledSession).get comparing_returns,
    (Option.some_get filled_starts).symm, ?_, by decide, fun nothing => ?_⟩
  · exact TransitionSystem.run_of_fold (Option.some_get comparing_returns).symm
  · have goesOn :
      (((comparingOps.foldlM (step (TXN_START_ID + 1)) filledSession).get
        comparing_returns).mgr.txnMap.lookup
        filled.mgr.nextTxnId).map Transaction.state = some .running := by decide
    obtain ⟨txn, found, running⟩ := Option.map_eq_some_iff.mp goesOn
    rcases nothing.ended txn found with other | other
    · exact absurd (running.symm.trans other) (by decide)
    · exact absurd (running.symm.trans other) (by decide)

end BusTub.AutoCommit
