import BusTub.DmlStatements
import BusTub.KeyUniqueness

/-!
What a statement leaves behind when its `Next` throws. `ThrowWriteConflict`
taints the transaction, and `Commit` refuses it from then on. The other
exceptions do not: what the statement has changed before one of them is committed
with the rest of the transaction.
-/

namespace BusTub.Dml

open TransitionSystem

section Transactions
variable {me : TxnId} {oid : TableOid} {history next : History} {before after : Store}
  {label : DmlOp} {txn : Transaction} {op : TxnOp} {readTs : Timestamp}

/-- A transaction lives on, with its snapshot, until it commits or has been rolled back. -/
theorem live_step (inv : Inv history) (stepped : history.step op = some next)
    (live : history.Live me txn) (goesOn : op.actor = some me → op.within = some me) :
    ∃ txn', next.Live me txn' ∧ txn'.readTs = txn.readTs := by
  by_cases own : op.actor = some me
  · exact acts_live (within_moved inv stepped (goesOn own)).toActs live
  · exact ⟨txn, (outside_step inv stepped own live).live, rfl⟩

structure Standing (me : TxnId) (readTs : Timestamp) (history : History) : Prop where
  inv : Inv history
  live : ∃ txn, history.Live me txn ∧ txn.readTs = readTs

theorem standing_acts (standing : Standing me readTs history)
    (stepped : history.step op = some next)
    (goesOn : op.actor = some me → op.within = some me) : Standing me readTs next := by
  obtain ⟨txn, live, same⟩ := standing.live
  obtain ⟨txn', live', kept⟩ := live_step standing.inv stepped live goesOn
  exact ⟨step_inv standing.inv stepped, txn', live', kept.trans same⟩

theorem reading_within (reads : reading op = true) : op.within = op.actor := by
  cases op with
  | scan id oid predicate | read id rid | fetch id => rfl
  | _ => cases reads

theorem standing_step (standing : Standing me readTs before.history)
    (stepped : Stepped me oid before label after) :
    Standing me readTs after.history := by
  cases stepped with
  | other op history elsewhere stepped =>
      exact standing_acts standing stepped fun own => absurd own elsewhere
  | read op history pulls reads own stepped =>
      exact standing_acts standing stepped fun here => (reading_within reads).trans here
  | modified rid target requireDeleted next result mgr history calls returned stepped =>
      exact standing_acts standing stepped id
  | placed rid kind tuple rest history stands stepped => exact standing_acts standing stepped id
  | conflict label kind stage rest history stands noCall throws stepped =>
      exact standing_acts standing stepped id
  | enter | goes | childThrew | evaluationThrew | comparisonThrew | entered => exact standing

theorem standing_run {labels : List DmlOp} (standing : Standing me readTs before.history)
    (run : Run (graph (Store.step me oid)) before labels after) :
    Standing me readTs after.history := by
  induction run with
  | refl store => exact standing
  | next step _ ih => exact ih (standing_step standing (step_cases step))

end Transactions

/-! ### Changes -/

structure SameContent (before after : Store) : Prop where
  heap : ∀ rid, after.history.mgr.heap.lookup rid = before.history.mgr.heap.lookup rid
  versionInfo : ∀ rid, after.history.mgr.getUndoLink rid = before.history.mgr.getUndoLink rid
  indexes : after.indexes = before.indexes

def quietStep (me : TxnId) (oid : TableOid) (before : Store) (label : DmlOp)
    (after : Store) : Prop :=
  graph (Store.step me oid) before label after ∧ (label.own me = true → SameContent before after)

/-- In this run no tuple, undo link or index entry was changed by the statement. -/
def ChangedNothing (me : TxnId) (oid : TableOid) (start : Store) (labels : List DmlOp)
    (after : Store) : Prop :=
  Run (quietStep me oid) start labels after

/-- `Commit` refuses the transaction until it has been rolled back. -/
def Refused (me : TxnId) (history : History) : Prop :=
  Tainted history me ∧ ∀ ops last, Run (graph History.step) history ops last →
    TxnOp.aborted me ∉ ops → last.step (.commit me) = none

section Changes
variable {me : TxnId} {oid : TableOid} {history next : History} {before middle after start : Store}
  {label : DmlOp} {labels : List DmlOp} {op : TxnOp} {readTs : Timestamp} {rid : RID}
  {target : Option Tuple} {requireDeleted : Bool} {result : ModifyResult} {mgr : TransactionManager}
  {phase : Phase} {indexes : List IndexInfo}

theorem same_content_trans (first : SameContent before middle) (second : SameContent middle after) :
    SameContent before after :=
  ⟨fun rid => (second.heap rid).trans (first.heap rid),
    fun rid =>
      (second.versionInfo rid).trans (first.versionInfo rid), second.indexes.trans first.indexes⟩

/-- Where nobody else takes a step, the stores are those of the start. -/
theorem own_run_same (run : ChangedNothing me oid start labels after)
    (own : ∀ label ∈ labels, label.own me = true) :
    SameContent start after := by
  induction run with
  | refl store => exact ⟨fun _ => rfl, fun _ => rfl, rfl⟩
  | next step _ ih =>
      exact same_content_trans (step.2 (own _ List.mem_cons_self))
        (ih fun label member => own label (List.mem_cons_of_mem _ member))

theorem quiet_snoc_iff (run : Run (graph (Store.step me oid)) start labels before)
    (step : before.step me oid label = some after) :
    ChangedNothing me oid start (labels ++ [label]) after ↔
      ChangedNothing me oid start labels before ∧
      (label.own me = true → SameContent before after) := by
  rw [ChangedNothing, run_snoc_iff (fun _ _ _ quiet => quiet.1) run step]
  exact and_congr_right fun _ => and_iff_right step

theorem tainted_refused (inv : Inv history) (tainted : Tainted history me) :
    Refused me history := by
  refine ⟨tainted, fun ops last run goesOn => ?_⟩
  have kept : Tainted last me := by
    induction run with
    | refl history => exact tainted
    | next step _ ih =>
        have inside := goesOn
        simp only [List.mem_cons, not_or] at inside
        exact ih (step_inv inv step) (tainted_step inv step tainted (Ne.symm inside.1)) inside.2
  obtain ⟨txn, live, state⟩ := kept
  have refused : last.mgr.commit me = none := by
    unfold TransactionManager.commit
    cases ready : last.mgr.ready me with
    | none => rfl
    | some record =>
        obtain rfl := Option.some.inj (live.1.symm.trans (TransactionManager.ready_iff.mp ready).1)
        simp [state]
  simp [History.step, TransactionManager.step, refused]

/-! ### The exceptions that do not taint -/

def SizesDiffer (mgr : TransactionManager) (me : TxnId) (call : RID × Option Tuple × Bool) : Prop :=
  ∃ txn slot, mgr.ready me = some txn ∧ mgr.heap.lookup call.1 = some slot ∧
    TransactionManager.conflicts me txn slot call.2.2 = false ∧
    ∃ tuple ∈ call.2.1, slot.tuple.getLength ≠ tuple.getLength

/-- The next step is an exception that is not one of `ThrowWriteConflict`: by the child,
by a target expression, by a comparison of VECTORs, or by a tuple of another size. -/
def ThrowsOther (me : TxnId) (store : Store) (label : DmlOp) : Prop :=
  label = .childThrows ∨ (∃ rows, label = .childBatch rows) ∨
    label = .advance ∧ ∃ call next, store.phase.call = some (call, next) ∧
      (store.history.mgr.modifyThrows me call.1 call.2.1 call.2.2 = true ∨
        SizesDiffer store.history.mgr me call)

/-- Nobody catches such an exception to taint a RUNNING transaction. -/
def ThrowsUntainted (me : TxnId) (store : Store) (label : DmlOp) : Prop :=
  (∃ txn, store.history.Live me txn ∧ txn.state = .running) ∧ ThrowsOther me store label

theorem modify_size_mismatch {mgr mgr' : TransactionManager}
    (returned : mgr.modifyTuple me rid target requireDeleted = some (result, mgr')) :
    result = .sizeMismatch ↔ SizesDiffer mgr me (rid, target, requireDeleted) := by
  obtain ⟨txn, ready, returned⟩ := Option.bind_eq_some_iff.mp returned
  obtain ⟨slot, found, returned⟩ := Option.bind_eq_some_iff.mp returned
  simp only [Option.ite_none_left_eq_some] at returned
  have iff : SizesDiffer mgr me (rid, target, requireDeleted) ↔
      TransactionManager.conflicts me txn slot requireDeleted = false ∧
        ∃ tuple ∈ target, slot.tuple.getLength ≠ tuple.getLength := by
    simp [SizesDiffer, ready, found]
  have pair := returned.2
  rw [iff]
  split at pair
  · rename_i conflicts
    obtain ⟨_, _, same⟩ := Option.map_eq_some_iff.mp pair
    simp [← (Prod.mk.inj same).1, conflicts]
  · rename_i clear
    obtain ⟨-, pair⟩ := Option.ite_none_left_eq_some.mp pair
    simp only [Slot.updateTupleInPlace] at pair
    split at pair
    · rename_i refused
      have differ : slot.tuple.getLength ≠ (target.getD slot.tuple).getLength := by
        by_contra equal
        simp [equal] at refused
      obtain ⟨rfl, _⟩ := Prod.mk.inj (Option.some.inj pair)
      cases target with
      | none => exact absurd rfl differ
      | some tuple => simpa [clear] using differ
    · rename_i updated accepted
      obtain ⟨rfl, _⟩ := Prod.mk.inj (Option.some.inj pair)
      have sized : slot.tuple.getLength = (target.getD slot.tuple).getLength := by
        by_contra differ
        simp [differ] at accepted
      cases target with
      | none => simp
      | some tuple => simpa using fun _ => sized

/-- A call that comes back, by an exception or not, has compared no VECTORs. -/
theorem modify_returned {mgr mgr' : TransactionManager}
    (returned : mgr.modifyTuple me rid target requireDeleted = some (result, mgr')) :
    mgr.modifyThrows me rid target requireDeleted = false := by
  obtain ⟨txn, ready, returned⟩ := Option.bind_eq_some_iff.mp returned
  obtain ⟨slot, found, returned⟩ := Option.bind_eq_some_iff.mp returned
  obtain ⟨-, returned⟩ := Option.ite_none_left_eq_some.mp returned
  simp only [TransactionManager.modifyThrows, ready, found, Option.any_some]
  split at returned
  · rename_i conflicts
    simp [conflicts]
  · obtain ⟨compares, -⟩ := Option.ite_none_left_eq_some.mp returned
    simp [Bool.eq_false_iff.mpr compares]

theorem modified_manager
    (returned : history.mgr.modifyTuple me rid target requireDeleted = some (result, mgr))
    (stepped : history.step (.modify me rid target requireDeleted) = some next) :
    next.mgr = mgr := by
  obtain ⟨mgr', ran, rfl⟩ := Option.map_eq_some_iff.mp stepped
  simp only [TransactionManager.step, returned, Option.map_some, Option.some.injEq] at ran
  exact ran.symm

theorem call_next {call : RID × Option Tuple × Bool} {after : Phase}
    (calls : phase.call = some (call, after)) : ∃ kind rest, after = .writing kind .next rest := by
  unfold Phase.call at calls
  split at calls
  · exact ⟨_, _, (Prod.mk.inj (Option.some.inj calls)).2.symm⟩
  · exact ⟨_, _, (Prod.mk.inj (Option.some.inj calls)).2.symm⟩
  · cases calls

theorem goes_on {phase phase' : Phase}
    (goes : Goes indexes phase label phase') (cause : Thrown) : phase' ≠ .threw cause := by
  intro threw
  cases goes with
  | rowsDone kind =>
      cases kind with
      | insert | update targetExpressions | delete => cases threw
  | _ => cases threw

theorem untainted_cases {txn txn' : Transaction} (live : before.history.Live me txn)
    (live' : after.history.Live me txn') (kept : txn'.state = txn.state)
    (same : SameContent before after) (throws : ThrowsOther me before label) :
    (Tainted after.history me ∧ ¬ ThrowsUntainted me before label) ∨
      (ThrowsUntainted me before label ∧ ¬ Tainted after.history me ∧
      SameContent before after) := by
  cases state : txn.state with
  | running =>
      refine Or.inr ⟨⟨⟨txn, live, state⟩, throws⟩, ?_, same⟩
      rintro ⟨record, found, tainted⟩
      obtain rfl := Option.some.inj (found.1.symm.trans live'.1)
      cases (tainted.symm.trans kept).trans state
  | tainted =>
      refine Or.inl ⟨⟨txn', live', kept.trans state⟩, ?_⟩
      rintro ⟨⟨record, found, running⟩, _⟩
      obtain rfl := Option.some.inj (found.1.symm.trans live.1)
      cases running.symm.trans state
  | committed | aborted =>
      have alive := live.2
      simp [Transaction.live, state] at alive

/-- A throw taints the transaction, or it comes at once: the step has changed
nothing, and a RUNNING transaction is RUNNING after it. -/
theorem throw_cases (standing : Standing me readTs before.history)
    (stepped : Stepped me oid before label after) {cause : Thrown}
    (going : before.phase.ended = false) (threw : after.phase = .threw cause) :
    (Tainted after.history me ∧ ¬ ThrowsUntainted me before label) ∨
      (ThrowsUntainted me before label ∧ ¬ Tainted after.history me ∧
      SameContent before after) := by
  obtain ⟨txn, live, _⟩ := standing.live
  cases stepped with
  | other op history elsewhere stepped =>
      simp [show before.phase = .threw cause from threw, Phase.ended] at going
  | read op history pulls reads own stepped =>
    simp [show before.phase = .threw cause from threw, Phase.ended] at going
  | enter number key rid info listed free ours =>
      simp [show before.phase = .threw cause from threw, Phase.ended] at going
  | goes label phase goes ready => exact absurd threw (goes_on goes cause)
  | childThrew pulls =>
      exact untainted_cases live live rfl ⟨fun _ => rfl, fun _ => rfl, rfl⟩ (Or.inl rfl)
  | evaluationThrew rows targetExpressions updates stands throws =>
      exact untainted_cases live live rfl ⟨fun _ => rfl, fun _ => rfl, rfl⟩
        (Or.inr (Or.inl ⟨rows, rfl⟩))
  | comparisonThrew rid target requireDeleted next calls throws =>
      exact untainted_cases live live rfl ⟨fun _ => rfl, fun _ => rfl, rfl⟩
        (Or.inr (Or.inr ⟨rfl, _, _, calls, Or.inl throws⟩))
  | modified rid target requireDeleted next result mgr history calls returned stepped =>
      obtain ⟨kind, rest, rfl⟩ := call_next calls
      have manager := modified_manager returned stepped
      have mismatch := modify_size_mismatch returned
      have compares := modify_returned returned
      obtain ⟨record, slot, ready, found, _, ended⟩ := modify_cases returned
      obtain ⟨found', alive, _⟩ := TransactionManager.ready_iff.mp ready
      rcases ended with ⟨rfl, thrown⟩ | ⟨_, recorded, link, made, ⟨rfl, same⟩ | ⟨rfl, _⟩⟩
      · refine Or.inl ⟨throw_tainted (manager ▸ thrown), ?_⟩
        rintro ⟨_, impossible | ⟨_, impossible⟩ | ⟨_, call, next, calls', differ⟩⟩
        · cases impossible
        · cases impossible
        · obtain ⟨rfl, _⟩ := Prod.mk.inj (Option.some.inj (calls'.symm.trans calls))
          rcases differ with throws | differ
          · cases compares.symm.trans throws
          · cases mismatch.mpr differ
      · -- the undo log is in its transaction, and the link to it has not been set
        have state :
          (before.history.mgr.recordUndo me record slot (before.history.mgr.getUndoLink rid)
            target).1.state =
            record.state := record_undo_state
        replace state : recorded.state = record.state := by rwa [made] at state
        have now : history.Live me recorded := by
          refine ⟨?_, by rw [Transaction.live, state]; exact alive⟩
          rw [manager, same]
          exact TransactionManager.lookup_set_txn
        refine untainted_cases ⟨found', alive⟩ now state ⟨fun rid => ?_, fun rid => ?_, rfl⟩
          (Or.inr (Or.inr ⟨rfl, _, _, calls, Or.inr (mismatch.mp rfl)⟩))
        · rw [manager, same]
          rfl
        · rw [manager, same]
          rfl
      · cases threw
  | placed rid kind tuple rest history stands stepped => cases threw
  | entered kind rid tuple number rest info stands listed free => cases threw
  | conflict label kind stage rest history stands noCall throws stepped =>
      obtain ⟨mgr, thrown, rfl⟩ := Option.map_eq_some_iff.mp stepped
      refine Or.inl ⟨throw_tainted thrown, ?_⟩
      rintro ⟨_, rfl | ⟨_, rfl⟩ | ⟨_, _, _, calls, _⟩⟩
      · rcases throws with impossible | impossible <;> cases impossible
      · rcases throws with impossible | impossible <;> cases impossible
      · cases noCall.symm.trans calls

theorem reading_same (reads : reading op = true) (stepped : history.step op = some next) :
    next.mgr.heap = history.mgr.heap ∧ next.mgr.versionInfo = history.mgr.versionInfo := by
  obtain ⟨mgr, ran, rfl⟩ := Option.map_eq_some_iff.mp stepped
  cases op with
  | scan id oid predicate =>
      obtain ⟨txn, _, same⟩ := Option.bind_eq_some_iff.mp ran
      obtain rfl := Option.some.inj same
      exact ⟨rfl, rfl⟩
  | read id rid =>
      obtain ⟨txn, _, same⟩ := Option.bind_eq_some_iff.mp ran
      obtain ⟨slot, _, same⟩ := Option.bind_eq_some_iff.mp same
      split at same
      · obtain rfl := Option.some.inj same
        exact ⟨rfl, rfl⟩
      · obtain rfl := Option.some.inj same
        exact ⟨rfl, rfl⟩
  | fetch id =>
      obtain ⟨txn, _, same⟩ := Option.bind_eq_some_iff.mp ran
      split at same
      · split at same
        · obtain rfl := Option.some.inj same
          exact ⟨rfl, rfl⟩
        · split at same
          · obtain rfl := Option.some.inj same
            exact ⟨rfl, rfl⟩
          · obtain rfl := Option.some.inj same
            exact ⟨rfl, rfl⟩
      · cases same
  | _ => cases reads

def Gathers (store : Store) : Prop :=
  store.phase = .notStarted ∨ ∃ targetExpressions updates, store.phase =
    .pulling (.update targetExpressions) updates

theorem gathers_before (goes : Goes before.indexes before.phase label phase)
    (gathers : Gathers { before with phase := phase }) : Gathers before := by
  unfold Gathers at gathers ⊢
  dsimp only at gathers
  generalize before.phase = first at goes
  cases goes with
  | init kind => exact Or.inl rfl
  | targets targetExpressions updates more rows evaluated =>
      exact Or.inr ⟨targetExpressions, updates, rfl⟩
  | rowsDone kind =>
      cases kind with
      | insert | update targetExpressions | delete =>
          rcases gathers with stands | ⟨_, _, stands⟩ <;> cases stands
  | _ => rcases gathers with stands | ⟨_, _, stands⟩ <;> cases stands

/-- An UPDATE gathers its rows and their targets before it changes anything. -/
theorem update_gathers_first (run : Run (graph (Store.step me oid)) start labels before)
    (gathers : Gathers before) : ChangedNothing me oid start labels before := by
  induction labels using List.reverseRecOn generalizing before with
  | nil =>
      cases run
      exact Run.refl start
  | append_singleton labels label ih =>
      obtain ⟨middle, head, step⟩ := run_snoc_split run
      refine (quiet_snoc_iff head step).mpr ?_
      cases step_cases step with
      | other op history elsewhere stepped =>
          exact ⟨ih head gathers, fun own => absurd (by simpa [DmlOp.own] using own) elsewhere⟩
      | read op history pulls reads own stepped =>
          obtain ⟨heap, info⟩ := reading_same reads stepped
          refine ⟨ih head gathers, fun _ => ⟨fun rid => by rw [heap], fun rid => ?_, rfl⟩⟩
          unfold TransactionManager.getUndoLink
          rw [info]
      | enter number key rid info listed free ours =>
          exact ⟨ih head gathers, fun own => by cases own⟩
      | goes label phase goes ready =>
          have gathered : Gathers middle := gathers_before goes gathers
          exact ⟨ih head gathered, fun _ => ⟨fun _ => rfl, fun _ => rfl, rfl⟩⟩
      | modified rid target requireDeleted next result mgr history calls returned stepped =>
          obtain ⟨kind, rest, rfl⟩ := call_next calls
          rcases gathers with stands | ⟨_, _, stands⟩ <;> cases result <;> cases stands
      | childThrew | evaluationThrew | comparisonThrew | placed | entered | conflict =>
          rcases gathers with stands | ⟨_, _, stands⟩ <;> cases stands

/-! ### What a statement has written -/

def AlreadyThere (me : TxnId) (mgr : TransactionManager) (rid : RID)
    (target : Option Tuple) : Prop :=
  ∃ slot, mgr.heap.lookup rid = some slot ∧
    slot.metadata = { ts := me, isDeleted := target.isNone } ∧ target.getD slot.tuple = slot.tuple

inductive Writes (me : TxnId) (store : Store) : DmlOp → Prop where
  | modify (rid : RID) (target : Option Tuple) (requireDeleted : Bool) (next : Phase)
      (calls : store.phase.call = some ((rid, target, requireDeleted), next))
      (absent : ¬ AlreadyThere me store.history.mgr rid target) : Writes me store .advance
  | place (rid : RID) : Writes me store (.place rid)
  | enter (kind : StatementKind) (rid : RID) (tuple : Tuple) (number : Nat) (rest : List RowWrite)
      (info : IndexInfo) (stands : store.phase = .writing kind (.entering rid tuple number) rest)
      (listed : store.indexes[number]? = some info) : Writes me store .advance

def WroteNothing (me : TxnId) (oid : TableOid) (start : Store) (labels : List DmlOp)
    (after : Store) : Prop :=
  Run (fun before label after => graph (Store.step me oid) before label after ∧
    ¬ Writes me before label)
    start labels after

theorem wrote_snoc_iff (run : Run (graph (Store.step me oid)) start labels before)
    (step : before.step me oid label = some after) :
    WroteNothing me oid start (labels ++ [label]) after ↔
      WroteNothing me oid start labels before ∧ ¬ Writes me before label := by
  rw [WroteNothing, run_snoc_iff (fun _ _ _ quiet => quiet.1) run step]
  exact and_congr_right fun _ => and_iff_right step

theorem record_undo_own {slot : Slot} {link : Option UndoLink}
    (own : slot.metadata.ts = me) : (mgr.recordUndo me txn slot link target).2 = link := by
  unfold TransactionManager.recordUndo
  simp only [own, if_true]
  cases link with
  | none => rfl
  | some link =>
      dsimp only
      split
      · split <;> rfl
      · rfl

/-- A call of `ModifyTuple` that is done has changed something unless its row was there. -/
theorem modify_same_iff
    (returned : history.mgr.modifyTuple me rid target requireDeleted = some (.done, mgr))
    {phase phase' : Phase} (manager : next.mgr = mgr) :
    SameContent ⟨history, indexes, phase⟩ ⟨next, indexes, phase'⟩ ↔
      AlreadyThere me history.mgr rid target := by
  obtain ⟨txn, slot, _, found, _, ⟨impossible, _⟩ |
      ⟨_, recorded, link, made, ⟨impossible, _⟩ | ⟨_, _, same⟩⟩⟩ :=
    modify_cases returned
  · cases impossible
  · cases impossible
  obtain ⟨info, shape, linked, others⟩ := update_undo_link_shape
    (((history.mgr.setTxn me (recorded.appendWriteSet slot.oid rid)).setControl me .idle).setSlot
      rid
      { slot with
        metadata := { ts := me, isDeleted := target.isNone }
        tuple := target.getD slot.tuple }) rid link
  rw [shape] at same
  have heap (place : RID) : next.mgr.heap.lookup place = (history.mgr.heap.insert rid
      { slot with
        metadata := { ts := me, isDeleted := target.isNone }
        tuple := target.getD slot.tuple }).lookup place := by
    rw [manager, same]
    rfl
  constructor
  · intro content
    have here : next.mgr.heap.lookup rid = history.mgr.heap.lookup rid := content.heap rid
    rw [heap, AList.lookup_insert, found] at here
    have slots := Option.some.inj here
    exact ⟨slot, found, (congrArg Slot.metadata slots).symm, congrArg Slot.tuple slots⟩
  -- the row is the transaction's own already: nothing is logged for it
  · rintro ⟨slot', found', stamped, row⟩
    obtain rfl := Option.some.inj (found.symm.trans found')
    have kept : link = history.mgr.getUndoLink rid := by
      have own : slot.metadata.ts = me := by rw [stamped]
      have back : (history.mgr.recordUndo me txn slot (history.mgr.getUndoLink rid) target).2 =
          history.mgr.getUndoLink rid := record_undo_own own
      rwa [made] at back
    refine ⟨fun place => ?_, fun place => ?_, rfl⟩
    · rw [heap]
      by_cases here : place = rid
      · subst here
        rw [AList.lookup_insert, found, ← stamped, row]
      · exact AList.lookup_insert_ne here
    · change next.mgr.versionInfo.lookup place = history.mgr.versionInfo.lookup place
      rw [manager, same]
      by_cases here : place = rid
      · subst here
        exact linked.trans kept
      · exact others place here

theorem goes_writes_nothing (goes : Goes before.indexes before.phase label phase) :
    ¬ Writes me before label := by
  intro writes
  cases writes with
  | modify rid target requireDeleted next calls absent =>
      generalize before.phase = first at goes calls
      cases goes <;> cases calls
  | place rid =>
      generalize before.phase = first at goes
      cases goes
  | enter kind rid tuple number rest info stands listed =>
      generalize before.phase = first at goes stands
      subst stands
      cases goes with
      | enteredAll _ _ _ _ _ last => cases last.symm.trans listed

theorem placed_free {tuple : Tuple}
    (stepped : history.step (.insert me oid rid tuple) = some next) :
    history.mgr.heap.lookup rid = none ∧ (next.mgr.heap.lookup rid).isSome = true := by
  obtain ⟨mgr, ran, rfl⟩ := Option.map_eq_some_iff.mp stepped
  obtain ⟨txn, ready, ran⟩ := Option.bind_eq_some_iff.mp ran
  simp only [Option.ite_none_left_eq_some, not_or, Bool.not_eq_true, Option.isSome_eq_false_iff,
    Option.isNone_iff_eq_none] at ran
  obtain ⟨⟨free, _⟩, same⟩ := ran
  obtain rfl := Option.some.inj same
  exact ⟨free, by simp [TransactionManager.setSlot]⟩

/-- A step that does not end the statement has changed something where it writes. -/
theorem writes_iff (stepped : Stepped me oid before label after)
    (goesOn : after.phase.ended = false) :
    (label.own me = true → SameContent before after) ↔ ¬ Writes me before label := by
  have silent {label : DmlOp} (noWrite : ¬ Writes me before label) {phase : Phase} :
      (label.own me = true → SameContent before { before with phase := phase }) ↔
        ¬ Writes me before label :=
    ⟨fun _ => noWrite, fun _ _ => ⟨fun _ => rfl, fun _ => rfl, rfl⟩⟩
  cases stepped with
  | other op history elsewhere stepped =>
      have none : ¬ Writes me before (.txn op) := by rintro ⟨⟩
      exact ⟨fun _ => none, fun _ own => absurd (by simpa [DmlOp.own] using own) elsewhere⟩
  | read op history pulls reads own stepped =>
      have none : ¬ Writes me before (.txn op) := by rintro ⟨⟩
      obtain ⟨heap, info⟩ := reading_same reads stepped
      refine ⟨fun _ => none, fun _ _ => ⟨fun rid => by rw [heap], fun rid => ?_, rfl⟩⟩
      unfold TransactionManager.getUndoLink
      rw [info]
  | enter number key rid info listed free ours =>
      have none : ¬ Writes me before (.enter number key rid) := by rintro ⟨⟩
      exact ⟨fun _ => none, fun _ own => by cases own⟩
  | goes label phase goes ready => exact silent (goes_writes_nothing goes)
  | modified rid target requireDeleted next result mgr history calls returned stepped =>
      have manager := modified_manager returned stepped
      cases result with
      | writeConflict | sizeMismatch => cases goesOn
      | done =>
          have same : SameContent before ⟨history, before.indexes, Store.afterModify next .done⟩ ↔
              AlreadyThere me before.history.mgr rid target := modify_same_iff returned manager
          constructor
          · intro content writes
            cases writes with
            | modify place wanted required next' calls' absent =>
                cases calls.symm.trans calls'
                exact absent (same.mp (content rfl))
            | enter kind place tuple number rest info stands listed =>
                rw [stands] at calls
                cases calls
          · intro quiet _
            exact same.mpr (by_contra fun absent => quiet (Writes.modify _ _ _ _ calls absent))
  | placed rid kind tuple rest history stands stepped =>
      refine ⟨fun content => ?_, fun quiet => absurd (Writes.place rid) quiet⟩
      obtain ⟨free, taken⟩ := placed_free stepped
      have same : history.mgr.heap.lookup rid = before.history.mgr.heap.lookup rid :=
        (content rfl).heap rid
      rw [same, free] at taken
      cases taken
  | entered kind rid tuple number rest info stands listed free =>
      refine ⟨fun content => ?_, fun quiet => absurd (Writes.enter _ _ _ _ _ _ stands listed) quiet⟩
      have same : before.indexes.set number (info.insertEntry (info.key tuple) rid) =
          before.indexes :=
        (content rfl).indexes
      have inside : number < before.indexes.length := (List.getElem?_eq_some_iff.mp listed).1
      have entry : info.insertEntry (info.key tuple) rid = info := by
        have here := congrArg (fun indexes => indexes[number]?) same
        simpa only [List.getElem?_set_self inside, listed, Option.some.injEq] using here
      have there : info.index.lookup (info.key tuple) = some rid := by
        rw [← congrArg IndexInfo.index entry]
        exact AList.lookup_insert _
      cases free.symm.trans there
  | childThrew | evaluationThrew | comparisonThrew | conflict => cases goesOn

theorem ended_stays (stepped : Stepped me oid before label after)
    (ended : before.phase.ended = true) :
    after.phase = before.phase := by
  cases before with
  | mk history indexes phase =>
      cases phase with
      | notStarted | pulling | writing => cases ended
      | finished | threw =>
          cases stepped with
          | other | enter => rfl
          | read op history pulls reads own stepped => cases pulls
          | goes _ phase going ready => cases going
          | childThrew pulls => cases pulls
          | comparisonThrew rid target requireDeleted next calls throws => cases calls
          | evaluationThrew rows targetExpressions updates stands throws => cases stands
          | modified rid target requireDeleted next result mgr history calls returned stepped =>
              cases calls
          | placed rid kind tuple rest history stands stepped => cases stands
          | entered kind rid tuple number rest info stands listed free => cases stands
          | conflict _ kind stage rest history stands noCall throws stepped => cases stands

theorem ended_before (stepped : Stepped me oid before label after)
    (goesOn : after.phase.ended = false) :
    before.phase.ended = false := by
  cases ended : before.phase.ended with
  | false => rfl
  | true => rw [ended_stays stepped ended, ended] at goesOn; exact goesOn

/-- Where the statement goes on, it has changed something if one of its steps has written. -/
theorem changed_iff_written (run : Run (graph (Store.step me oid)) start labels before)
    (going : before.phase.ended = false) :
    ChangedNothing me oid start labels before ↔ WroteNothing me oid start labels before := by
  induction labels using List.reverseRecOn generalizing before with
  | nil =>
      cases run
      exact ⟨fun _ => Run.refl start, fun _ => Run.refl start⟩
  | append_singleton labels label ih =>
      obtain ⟨middle, head, step⟩ := run_snoc_split run
      have stepped := step_cases step
      rw [quiet_snoc_iff head step, wrote_snoc_iff head step, ih head (ended_before stepped going),
        writes_iff stepped going]

/-- A statement that throws has changed nothing or has tainted its transaction,
unless the exception is one that does not taint and one of its steps has written
before. The rows and the targets of an UPDATE come before its first write. -/
theorem failed_statement_iff {catalog : TableOid → Schema} {txn : Transaction} {cause : Thrown}
    (reached : Reached catalog start.history) (live : start.history.Live me txn)
    (run : Run (graph (Store.step me oid)) start labels before)
    (step : before.step me oid label = some after) (going : before.phase.ended = false)
    (threw : after.phase = .threw cause) :
    (ChangedNothing me oid start (labels ++ [label]) after ∨ Refused me after.history ↔
      (ThrowsUntainted me before label → WroteNothing me oid start labels before)) ∧
    (∀ targetExpressions updates, before.phase = .pulling (.update targetExpressions) updates →
      WroteNothing me oid start labels before) := by
  have standing : Standing me txn.readTs before.history :=
    standing_run ⟨reached_inv reached, txn, live, rfl⟩ run
  have changed := changed_iff_written run going
  refine ⟨?_, fun targetExpressions updates stands =>
    changed.mp (update_gathers_first run (Or.inr ⟨_, _, stands⟩))⟩
  rw [quiet_snoc_iff run step, changed]
  rcases throw_cases standing (step_cases step) going threw with ⟨tainted, not⟩ |
    ⟨untainted, running, same⟩
  -- a tainted transaction is refused, whatever the statement has written
  · have refused := tainted_refused (standing_step standing (step_cases step)).inv tainted
    exact ⟨fun _ untainted => absurd untainted not, fun _ => Or.inr refused⟩
  · constructor
    · rintro (quiet | refused) _
      · exact quiet.1
      · exact absurd refused.1 running
    · intro quiet
      exact Or.inl ⟨quiet untainted, fun _ => same⟩

end Changes

/-! ### An UPDATE that is half done -/

def oneVarchar : TableOid → Schema := fun _ => [.varchar]

def text (value : List UInt8) : Value := { typeId := .varchar, datum := some (.text value) }

def twoTextsRun : List TxnOp :=
  [.begin .snapshotIsolation, .insert TXN_START_ID 0 firstSlot [text [122]],
    .insert TXN_START_ID 0 secondSlot [text [121, 121]]]

theorem two_texts_returns : (runFrom oneVarchar twoTextsRun).isSome = true := by decide

def twoTexts : Store where
  history := (runFrom oneVarchar twoTextsRun).get two_texts_returns
  indexes := []
  phase := .notStarted

def halfDoneLabels : List DmlOp :=
  [.init (.update fun _ => some [text [120]]),
    .childBatch [(firstSlot, [text [122]]), (secondSlot, [text [121, 121]])], .childEnd, .advance]

theorem half_done_returns : (halfDoneLabels.foldlM (Store.step TXN_START_ID 0) twoTexts).isSome =
    true := by decide

def halfDone : Store :=
  (halfDoneLabels.foldlM (Store.step TXN_START_ID 0) twoTexts).get half_done_returns

theorem size_mismatch_returns : (halfDone.step TXN_START_ID 0 .advance).isSome = true := by decide

def sizeMismatched : Store := (halfDone.step TXN_START_ID 0 .advance).get size_mismatch_returns

theorem half_done_run : Run (graph (Store.step TXN_START_ID 0)) twoTexts halfDoneLabels halfDone :=
  run_of_fold (Option.some_get _).symm

/-- "Tuple size mismatch" at the second row: the first one is changed and the transaction
RUNNING. -/
theorem half_done_update :
    Reached oneVarchar twoTexts.history ∧
    Run (graph (Store.step TXN_START_ID 0)) twoTexts halfDoneLabels halfDone ∧
    halfDone.step TXN_START_ID 0 .advance = some sizeMismatched ∧ halfDone.phase.ended = false ∧
    sizeMismatched.phase = .threw .sizeMismatch ∧
    ¬ (ChangedNothing TXN_START_ID 0 twoTexts (halfDoneLabels ++ [.advance]) sizeMismatched ∨
      Refused TXN_START_ID sizeMismatched.history) := by
  refine ⟨reached_run two_texts_returns, half_done_run, (Option.some_get _).symm, rfl, rfl, ?_⟩
  rintro (quiet | refused)
  · have same := (own_run_same quiet (by decide)).heap firstSlot
    have row := congrArg (fun slot => slot.map fun slot => slot.tuple) same
    revert row
    decide
  · obtain ⟨txn, live, tainted⟩ := refused.1
    have running :
      (sizeMismatched.history.mgr.txnMap.lookup TXN_START_ID).map (fun txn => txn.state) =
        some .running := by
      decide
    rw [live.1, Option.map_some, tainted] at running
    cases running

theorem two_texts_live : ∃ txn, twoTexts.history.Live TXN_START_ID txn :=
  ⟨_, (Option.some_get (show (twoTexts.history.mgr.txnMap.lookup TXN_START_ID).isSome =
    true by decide)).symm, by decide⟩

theorem half_done_decided :
    (ChangedNothing TXN_START_ID 0 twoTexts (halfDoneLabels ++ [.advance]) sizeMismatched ∨
        Refused TXN_START_ID sizeMismatched.history ↔
      (ThrowsUntainted TXN_START_ID halfDone .advance →
        WroteNothing TXN_START_ID 0 twoTexts halfDoneLabels halfDone)) ∧
    (∀ targetExpressions updates, halfDone.phase = .pulling (.update targetExpressions) updates →
      WroteNothing TXN_START_ID 0 twoTexts halfDoneLabels halfDone) := by
  obtain ⟨txn, live⟩ := two_texts_live
  have threw : sizeMismatched.phase = .threw .sizeMismatch := rfl
  exact failed_statement_iff (reached_run two_texts_returns) live half_done_run
    (Option.some_get _).symm rfl threw

end BusTub.Dml
