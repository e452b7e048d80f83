import BusTub.KeyedSteps

/-!
`InsertExecutor::Next`, `UpdateExecutor::Next` and `DeleteExecutor::Next` of one
transaction on one table, with `InsertTupleMvcc` and its loops over the indexes.
The child executor is arbitrary: it yields any batches, or throws. Between two
steps of the statement the transaction manager may take a step of any other
transaction, and others may enter keys into the indexes. A step of the statement
runs under one latch at most.
-/

namespace BusTub.Dml

open TransitionSystem (Run graph)

structure IndexInfo where
  keyAttrs : List Nat
  isPrimaryKey : Bool
  index : UnorderedMap Tuple RID

namespace IndexInfo

def key (info : IndexInfo) (tuple : Tuple) : Tuple := keyFromTuple info.keyAttrs tuple

def scanKey (info : IndexInfo) (tuple : Tuple) : Option RID := info.index.lookup (info.key tuple)

def insertEntry (info : IndexInfo) (key : Tuple) (rid : RID) : IndexInfo :=
  { info with index := info.index.insert key rid }

end IndexInfo

/-- Expressions over a row of the child, as the columns read the tuple that is built of their
values; `none` is an exception. -/
abbrev Expressions := Tuple → Option Tuple

inductive StatementKind where
  | insert
  | update (targetExpressions : Expressions)
  | delete

structure RowUpdate where
  rid : RID
  childTuple : Tuple
  target : Tuple

inductive RowWrite where
  | modify (rid : RID) (target : Option Tuple)
  | insert (tuple : Tuple)

inductive RowStage where
  /-- before the next row -/
  | next
  /-- in the first loop over the indexes -/
  | seeking (tuple : Tuple) (number : Nat)
  /-- `ScanKey` has found the RID -/
  | reviving (rid : RID) (tuple : Tuple)
  /-- no index has the key -/
  | placing (tuple : Tuple)
  /-- in the second loop over the indexes -/
  | entering (rid : RID) (tuple : Tuple) (number : Nat)

inductive Thrown where
  /-- by the `Next` of the child -/
  | child
  /-- by `Evaluate` of a target expression -/
  | evaluation
  /-- by `CompareExactlyEquals` of VECTORs -/
  | comparison
  /-- "Tuple size mismatch" -/
  | sizeMismatch
  /-- by `ThrowWriteConflict` -/
  | writeConflict
  deriving DecidableEq

inductive Phase where
  | notStarted
  /-- before the next call of the child's `Next` -/
  | pulling (kind : StatementKind) (updates : List RowUpdate)
  | writing (kind : StatementKind) (stage : RowStage) (rest : List RowWrite)
  | finished
  | threw (cause : Thrown)

def Phase.ended : Phase → Bool
  | .finished | .threw _ => true
  | _ => false

structure Store where
  history : History
  indexes : List IndexInfo
  phase : Phase

inductive DmlOp where
  /-- a step of another transaction, or a read of the child -/
  | txn (op : TxnOp)
  /-- another transaction enters the key of a row of the table -/
  | enter (number : Nat) (key : Tuple) (rid : RID)
  | init (kind : StatementKind)
  | childBatch (rows : List (RID × Tuple))
  | childEnd
  | childThrows
  /-- the next step of the loop over the rows -/
  | advance
  /-- the table heap puts the tuple at the RID -/
  | place (rid : RID)
  /-- `InsertTuple` of the table heap has no RID -/
  | noRoom

def DmlOp.own (me : TxnId) : DmlOp → Bool
  | .txn op => op.actor = some me
  | .enter _ _ _ => false
  | _ => true

def reading : TxnOp → Bool
  | .scan _ _ _ | .read _ _ | .fetch _ => true
  | _ => false

def Phase.pulls : Phase → Bool
  | .pulling _ _ => true
  | _ => false

/-! ### UPDATE -/

def evaluateTargets (targetExpressions : Expressions) (rows : List (RID × Tuple)) :
    Option (List RowUpdate) :=
  rows.mapM fun row => (targetExpressions row.2).map fun target =>
    { rid := row.1, childTuple := row.2, target := target }

def changesKey (indexes : List IndexInfo) (update : RowUpdate) : Bool :=
  indexes.any fun info => info.isPrimaryKey && info.key update.childTuple ≠ info.key update.target

def moved (indexes : List IndexInfo) (updates : List RowUpdate) (rid : RID) : Bool :=
  updates.any fun update => update.rid = rid && changesKey indexes update

def updateWrites (indexes : List IndexInfo) (updates : List RowUpdate) : List RowWrite :=
  (updates.map fun update =>
    .modify update.rid (if moved indexes updates update.rid then none else some update.target)) ++
  (updates.filter fun update => moved indexes updates update.rid).map fun update =>
    .insert update.target

/-! ### The steps -/

def inTable (history : History) (oid : TableOid) (rid : RID) : Bool :=
  (history.mgr.heap.lookup rid).any fun slot => slot.oid = oid

def StatementKind.afterRows : StatementKind → Phase
  | .update _ => .finished
  | kind => .pulling kind []

namespace Store

def act (store : Store) (op : TxnOp) (phase : Phase) : Option Store :=
  (store.history.step op).map fun history => { store with history := history, phase := phase }

def throwWriteConflict (store : Store) (me : TxnId) : Option Store :=
  store.act (.throwWriteConflict me) (.threw .writeConflict)

def afterModify (next : Phase) : ModifyResult → Phase
  | .done => next
  | .writeConflict => .threw .writeConflict
  | .sizeMismatch => .threw .sizeMismatch

def modifyTuple (store : Store) (me : TxnId) (rid : RID) (target : Option Tuple)
    (requireDeleted : Bool) (next : Phase) : Option Store :=
  if store.history.mgr.modifyThrows me rid target requireDeleted then
    some { store with phase := .threw .comparison }
  else do
    let (result, _) ← store.history.mgr.modifyTuple me rid target requireDeleted
    store.act (.modify me rid target requireDeleted) (afterModify next result)

def mayTake (store : Store) (me : TxnId) (op : TxnOp) : Bool :=
  op.actor ≠ some me || (store.phase.pulls && reading op)

def childBatch (store : Store) (rows : List (RID × Tuple)) : Option Store :=
  match store.phase with
  | .pulling .insert _ =>
      some { store with phase := .writing .insert .next (rows.map fun row => .insert row.2) }
  | .pulling .delete _ =>
      some { store with phase := .writing .delete .next (rows.map fun row => .modify row.1 none) }
  | .pulling (.update targetExpressions) updates =>
      match evaluateTargets targetExpressions rows with
      | none => some { store with phase := .threw .evaluation }
      | some more =>
          some { store with phase := .pulling (.update targetExpressions) (updates ++ more) }
  | _ => none

def childEnd (store : Store) : Option Store :=
  match store.phase with
  | .pulling (.update targetExpressions) updates =>
      some { store with
        phase := .writing (.update targetExpressions) .next (updateWrites store.indexes updates) }
  | .pulling _ _ => some { store with phase := .finished }
  | _ => none

def advance (store : Store) (me : TxnId) : Option Store :=
  match store.phase with
  | .writing kind .next [] => some { store with phase := kind.afterRows }
  | .writing kind .next (.modify rid target :: rest) =>
      store.modifyTuple me rid target false (.writing kind .next rest)
  | .writing kind .next (.insert tuple :: rest) =>
      some { store with phase := .writing kind (.seeking tuple 0) rest }
  | .writing kind (.seeking tuple number) rest =>
      match store.indexes[number]? with
      | none => some { store with phase := .writing kind (.placing tuple) rest }
      | some info =>
          match info.scanKey tuple with
          | some rid => some { store with phase := .writing kind (.reviving rid tuple) rest }
          | none => some { store with phase := .writing kind (.seeking tuple (number + 1)) rest }
  | .writing kind (.reviving rid tuple) rest =>
      store.modifyTuple me rid (some tuple) true (.writing kind .next rest)
  | .writing kind (.entering rid tuple number) rest =>
      match store.indexes[number]? with
      | none => some { store with phase := .writing kind .next rest }
      | some info =>
          if (info.scanKey tuple).isSome then store.throwWriteConflict me
          else some { store with
            indexes := store.indexes.set number (info.insertEntry (info.key tuple) rid)
            phase := .writing kind (.entering rid tuple (number + 1)) rest }
  | _ => none

def step (me : TxnId) (oid : TableOid) (store : Store) : DmlOp → Option Store
  | .txn op => if store.mayTake me op then store.act op store.phase else none
  | .enter number key rid =>
      (store.indexes[number]?).bind fun info =>
        if (info.index.lookup key).isSome ∨ ¬ inTable store.history oid rid then none
        else some { store with indexes := store.indexes.set number (info.insertEntry key rid) }
  | .init kind =>
      match store.phase with
      | .notStarted =>
          (store.history.mgr.ready me).map fun _ => { store with phase := .pulling kind [] }
      | _ => none
  | .childBatch rows => store.childBatch rows
  | .childEnd => store.childEnd
  | .childThrows => if store.phase.pulls then some { store with phase := .threw .child } else none
  | .advance => store.advance me
  | .place rid =>
      match store.phase with
      | .writing kind (.placing tuple) rest =>
          store.act (.insert me oid rid tuple) (.writing kind (.entering rid tuple 0) rest)
      | _ => none
  | .noRoom =>
      match store.phase with
      | .writing _ (.placing _) _ => store.throwWriteConflict me
      | _ => none

end Store

/-! ### What a step can do -/

/-- The call of `ModifyTuple` that the next step makes: its arguments, and where
the statement goes on after it. -/
def Phase.call : Phase → Option ((RID × Option Tuple × Bool) × Phase)
  | .writing kind .next (.modify rid target :: rest) =>
    some ((rid, target, false), .writing kind .next rest)
  | .writing kind (.reviving rid tuple) rest =>
      some ((rid, some tuple, true), .writing kind .next rest)
  | _ => none

inductive Goes (indexes : List IndexInfo) : Phase → DmlOp → Phase → Prop where
  | init (kind : StatementKind) : Goes indexes .notStarted (.init kind) (.pulling kind [])
  | insertBatch (updates : List RowUpdate) (rows : List (RID × Tuple)) :
      Goes indexes (.pulling .insert updates) (.childBatch rows)
        (.writing .insert .next (rows.map fun row => .insert row.2))
  | deleteBatch (updates : List RowUpdate) (rows : List (RID × Tuple)) :
      Goes indexes (.pulling .delete updates) (.childBatch rows)
        (.writing .delete .next (rows.map fun row => .modify row.1 none))
  | targets (targetExpressions : Expressions) (updates more : List RowUpdate)
      (rows : List (RID × Tuple))
      (evaluated : evaluateTargets targetExpressions rows = some more) :
      Goes indexes (.pulling (.update targetExpressions) updates) (.childBatch rows)
        (.pulling (.update targetExpressions) (updates ++ more))
  | gathered (targetExpressions : Expressions) (updates : List RowUpdate) :
      Goes indexes (.pulling (.update targetExpressions) updates) .childEnd
        (.writing (.update targetExpressions) .next (updateWrites indexes updates))
  | ended (kind : StatementKind) (updates : List RowUpdate)
      (pulling : kind.afterRows = .pulling kind []) :
      Goes indexes (.pulling kind updates) .childEnd .finished
  | rowsDone (kind : StatementKind) : Goes indexes (.writing kind .next []) .advance kind.afterRows
  | insertRow (kind : StatementKind) (tuple : Tuple) (rest : List RowWrite) :
      Goes indexes (.writing kind .next (.insert tuple :: rest)) .advance
        (.writing kind (.seeking tuple 0) rest)
  | notFound (kind : StatementKind) (tuple : Tuple) (number : Nat) (rest : List RowWrite)
      (last : indexes[number]? = none) :
      Goes indexes (.writing kind (.seeking tuple number) rest) .advance
        (.writing kind (.placing tuple) rest)
  | found (kind : StatementKind) (tuple : Tuple) (number : Nat) (rest : List RowWrite)
      (info : IndexInfo) (rid : RID)
      (listed : indexes[number]? = some info) (scanned : info.scanKey tuple = some rid) :
      Goes indexes (.writing kind (.seeking tuple number) rest) .advance
        (.writing kind (.reviving rid tuple) rest)
  | seekOn (kind : StatementKind) (tuple : Tuple) (number : Nat) (rest : List RowWrite)
      (info : IndexInfo)
      (listed : indexes[number]? = some info) (scanned : info.scanKey tuple = none) :
      Goes indexes (.writing kind (.seeking tuple number) rest) .advance
        (.writing kind (.seeking tuple (number + 1)) rest)
  | enteredAll (kind : StatementKind) (rid : RID) (tuple : Tuple) (number : Nat)
      (rest : List RowWrite)
      (last : indexes[number]? = none) :
      Goes indexes (.writing kind (.entering rid tuple number) rest) .advance
        (.writing kind .next rest)

inductive Stepped (me : TxnId) (oid : TableOid) (before : Store) : DmlOp → Store → Prop where
  | other (op : TxnOp) (history : History) (elsewhere : op.actor ≠ some me)
      (stepped : before.history.step op = some history) :
      Stepped me oid before (.txn op) { before with history := history }
  | read (op : TxnOp) (history : History) (pulls : before.phase.pulls = true)
      (reads : reading op = true)
      (own : op.actor = some me) (stepped : before.history.step op = some history) :
      Stepped me oid before (.txn op) { before with history := history }
  | enter (number : Nat) (key : Tuple) (rid : RID) (info : IndexInfo)
      (listed : before.indexes[number]? = some info)
      (free : info.index.lookup key = none) (ours : inTable before.history oid rid = true) :
      Stepped me oid before (.enter number key rid)
        { before with indexes := before.indexes.set number (info.insertEntry key rid) }
  | goes (label : DmlOp) (phase : Phase) (going : Goes before.indexes before.phase label phase)
      (ready : before.phase = .notStarted → (before.history.mgr.ready me).isSome = true) :
      Stepped me oid before label { before with phase := phase }
  | childThrew (pulls : before.phase.pulls = true) :
      Stepped me oid before .childThrows { before with phase := .threw .child }
  | evaluationThrew (rows : List (RID × Tuple)) (targetExpressions : Expressions)
      (updates : List RowUpdate)
      (stands : before.phase = .pulling (.update targetExpressions) updates)
      (throws : evaluateTargets targetExpressions rows = none) :
      Stepped me oid before (.childBatch rows) { before with phase := .threw .evaluation }
  | comparisonThrew (rid : RID) (target : Option Tuple) (requireDeleted : Bool) (next : Phase)
      (calls : before.phase.call = some ((rid, target, requireDeleted), next))
      (throws : before.history.mgr.modifyThrows me rid target requireDeleted = true) :
      Stepped me oid before .advance { before with phase := .threw .comparison }
  | modified (rid : RID) (target : Option Tuple) (requireDeleted : Bool) (next : Phase)
      (result : ModifyResult)
      (mgr : TransactionManager) (history : History)
      (calls : before.phase.call = some ((rid, target, requireDeleted), next))
      (returned : before.history.mgr.modifyTuple me rid target requireDeleted = some (result, mgr))
      (stepped : before.history.step (.modify me rid target requireDeleted) = some history) :
      Stepped me oid before .advance
        { before with history := history, phase := Store.afterModify next result }
  | placed (rid : RID) (kind : StatementKind) (tuple : Tuple) (rest : List RowWrite)
      (history : History)
      (stands : before.phase = .writing kind (.placing tuple) rest)
      (stepped : before.history.step (.insert me oid rid tuple) = some history) :
      Stepped me oid before (.place rid)
        { before with history := history, phase := .writing kind (.entering rid tuple 0) rest }
  | entered (kind : StatementKind) (rid : RID) (tuple : Tuple) (number : Nat) (rest : List RowWrite)
    (info : IndexInfo)
      (stands : before.phase = .writing kind (.entering rid tuple number) rest)
      (listed : before.indexes[number]? = some info) (free : info.scanKey tuple = none) :
      Stepped me oid before .advance
        { before with
          indexes := before.indexes.set number (info.insertEntry (info.key tuple) rid)
          phase := .writing kind (.entering rid tuple (number + 1)) rest }
  | conflict (label : DmlOp) (kind : StatementKind) (stage : RowStage) (rest : List RowWrite)
      (history : History)
      (stands : before.phase = .writing kind stage rest) (noCall : before.phase.call = none)
      (throws : label = .advance ∨ label = .noRoom)
      (stepped : before.history.step (.throwWriteConflict me) = some history) :
      Stepped me oid before label { before with history := history, phase := .threw .writeConflict }

section Steps
variable {me : TxnId} {oid : TableOid} {before after : Store} {label : DmlOp}

theorem act_stepped {op : TxnOp} {phase : Phase} (acted : before.act op phase = some after) :
    ∃ history, before.history.step op = some history ∧ after =
      { before with history := history, phase := phase } := by
  obtain ⟨history, stepped, rfl⟩ := Option.map_eq_some_iff.mp acted
  exact ⟨history, stepped, rfl⟩

theorem modify_stepped {rid : RID} {target : Option Tuple} {requireDeleted : Bool} {next : Phase}
    (calls : before.phase.call = some ((rid, target, requireDeleted), next))
    (modified : before.modifyTuple me rid target requireDeleted next = some after) :
    Stepped me oid before .advance after := by
  unfold Store.modifyTuple at modified
  split at modified
  · rename_i throws
    obtain rfl := Option.some.inj modified
    exact Stepped.comparisonThrew rid target requireDeleted next calls throws
  obtain ⟨⟨result, mgr⟩, returned, acted⟩ := Option.bind_eq_some_iff.mp modified
  obtain ⟨history, stepped, rfl⟩ := act_stepped acted
  exact Stepped.modified rid target requireDeleted next result mgr history calls returned stepped

theorem batch_stepped {rows : List (RID × Tuple)} (pulled : before.childBatch rows = some after) :
    Stepped me oid before (.childBatch rows) after := by
  unfold Store.childBatch at pulled
  split at pulled
  · rename_i updates stands
    obtain rfl := Option.some.inj pulled
    exact Stepped.goes _ _ (stands ▸ Goes.insertBatch updates rows) fun idle => by
      cases stands.symm.trans idle
  · rename_i updates stands
    obtain rfl := Option.some.inj pulled
    exact Stepped.goes _ _ (stands ▸ Goes.deleteBatch updates rows) fun idle => by
      cases stands.symm.trans idle
  · rename_i targetExpressions updates stands
    split at pulled
    · rename_i throws
      obtain rfl := Option.some.inj pulled
      exact Stepped.evaluationThrew rows targetExpressions updates stands throws
    · rename_i more evaluated
      obtain rfl := Option.some.inj pulled
      exact Stepped.goes _ _ (stands ▸ Goes.targets targetExpressions updates more rows evaluated)
        fun idle => by cases stands.symm.trans idle
  · cases pulled

theorem end_stepped (pulled : before.childEnd = some after) :
    Stepped me oid before .childEnd after := by
  unfold Store.childEnd at pulled
  split at pulled
  · rename_i targetExpressions updates stands
    obtain rfl := Option.some.inj pulled
    exact Stepped.goes _ _ (stands ▸ Goes.gathered targetExpressions updates) fun idle =>
      by cases stands.symm.trans idle
  · rename_i kind updates other stands
    obtain rfl := Option.some.inj pulled
    have pulling : kind.afterRows = .pulling kind [] := by
      cases kind with
      | update targetExpressions => exact (other targetExpressions rfl).elim
      | insert => rfl
      | delete => rfl
    exact Stepped.goes _ _ (stands ▸ Goes.ended kind updates pulling) fun idle => by
      cases stands.symm.trans idle
  · cases pulled

theorem advance_stepped (advanced : before.advance me = some after) :
    Stepped me oid before .advance after := by
  have goes {phase : Phase} (going : Goes before.indexes before.phase .advance phase)
    (same : { before with phase := phase } = after) : Stepped me oid before .advance after := by
    subst same
    refine Stepped.goes _ _ going fun idle => ?_
    rw [idle] at going
    cases going
  unfold Store.advance at advanced
  split at advanced
  · rename_i kind stands
    exact goes (stands ▸ Goes.rowsDone kind) (Option.some.inj advanced)
  · rename_i kind rid target rest stands
    exact modify_stepped (by rw [stands]; rfl) advanced
  · rename_i kind tuple rest stands
    exact goes (stands ▸ Goes.insertRow kind tuple rest) (Option.some.inj advanced)
  · rename_i kind tuple number rest stands
    split at advanced
    · rename_i last
      exact goes (stands ▸ Goes.notFound kind tuple number rest last) (Option.some.inj advanced)
    · rename_i info listed
      split at advanced
      · rename_i rid scanned
        exact goes (stands ▸ Goes.found kind tuple number rest info rid listed scanned)
          (Option.some.inj advanced)
      · rename_i scanned
        exact goes (stands ▸ Goes.seekOn kind tuple number rest info listed scanned)
          (Option.some.inj advanced)
  · rename_i kind rid tuple rest stands
    exact modify_stepped (by rw [stands]; rfl) advanced
  · rename_i kind rid tuple number rest stands
    split at advanced
    · rename_i last
      exact goes (stands ▸ Goes.enteredAll kind rid tuple number rest last)
        (Option.some.inj advanced)
    · rename_i info listed
      split at advanced
      · obtain ⟨history, stepped, rfl⟩ := act_stepped advanced
        exact Stepped.conflict _ _ _ _ history stands (by rw [stands]; rfl) (Or.inl rfl) stepped
      · rename_i free
        obtain rfl := Option.some.inj advanced
        exact Stepped.entered kind rid tuple number rest info stands listed (by simpa using free)
  · cases advanced

theorem step_cases (step : before.step me oid label = some after) :
    Stepped me oid before label after := by
  cases label with
  | txn op =>
      simp only [Store.step, Option.ite_none_right_eq_some] at step
      obtain ⟨may, acted⟩ := step
      obtain ⟨history, stepped, rfl⟩ := act_stepped acted
      by_cases own : op.actor = some me
      · simp only [Store.mayTake, own, ne_eq, not_true_eq_false, decide_false, Bool.false_or,
          Bool.and_eq_true] at may
        exact Stepped.read op history may.1 may.2 own stepped
      · exact Stepped.other op history own stepped
  | enter number key rid =>
      obtain ⟨info, listed, step⟩ := Option.bind_eq_some_iff.mp step
      simp only [Option.ite_none_left_eq_some, not_or, not_not] at step
      obtain ⟨⟨free, ours⟩, same⟩ := step
      obtain rfl := Option.some.inj same
      exact Stepped.enter number key rid info listed (by simpa using free) ours
  | init kind =>
      simp only [Store.step] at step
      split at step
      · rename_i stands
        obtain ⟨txn, ready, rfl⟩ := Option.map_eq_some_iff.mp step
        exact Stepped.goes _ _ (stands ▸ Goes.init kind) fun _ => by rw [ready]; rfl
      · cases step
  | childBatch rows => exact batch_stepped step
  | childEnd => exact end_stepped step
  | childThrows =>
      simp only [Store.step, Option.ite_none_right_eq_some] at step
      obtain ⟨pulls, same⟩ := step
      obtain rfl := Option.some.inj same
      exact Stepped.childThrew pulls
  | advance => exact advance_stepped step
  | place rid =>
      simp only [Store.step] at step
      split at step
      · rename_i kind tuple rest stands
        obtain ⟨history, stepped, rfl⟩ := act_stepped step
        exact Stepped.placed rid kind tuple rest history stands stepped
      · cases step
  | noRoom =>
      simp only [Store.step] at step
      split at step
      · rename_i stands
        obtain ⟨history, stepped, rfl⟩ := act_stepped step
        exact Stepped.conflict _ _ _ _ history stands (by rw [stands]; rfl) (Or.inr rfl) stepped
      · cases step

end Steps

end BusTub.Dml
