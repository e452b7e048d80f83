import BusTub.HashJoinKeys
import BusTub.ScannedStatements
import BusTub.TupleEncoding

/-!
UPDATE replaces all its rows at once. It gathers every row with its target before
it writes; then each write takes what is still owed a step nearer to the table,
and what the table and the owed writes amount to together never changes. A target
is what the columns read of the new values, and these are written by their own types.
-/

namespace BusTub.Dml

open Function (update)
open TransitionSystem
open Listing

section Targets
open ByteRegions TupleEncoding

def serialized (value : BusTub.Value) : Block :=
  match storedAs value.typeId, value.datum with
  | .fixed type, some (.number number) => toBytes type.size (number % 2 ^ (8 * type.size)).toNat
  | .fixed type, some (.decimal number) => toBytes type.size (doubleBits number)
  | .fixed type, _ => toBytes type.size type.nullBits
  | .varchar, some (.text text) =>
      let bytes := if value.typeId = .varchar then text ++ [0] else text
      toBytes 4 bytes.length ++ bytes
  | .varchar, _ => toBytes 4 BUSTUB_VALUE_NULL

def overwrite (data : Block) (offset : Nat) (bytes : Block) : Block :=
  (data.take offset ++ (bytes ++ data.drop (offset + bytes.length))).take data.length

def serializeFrom (offset : Nat) : List BusTub.Value → Block → Block
  | [], data => data
  | value :: values, data =>
      serializeFrom (offset + 4) values (overwrite data offset (serialized value))

def integerColumns : Nat → Block → Tuple
  | 0, _ => []
  | columns + 1, data => .integer (ofBytes (data.take 4)) :: integerColumns columns (data.drop 4)

def asIntegers (values : List BusTub.Value) : Tuple :=
  integerColumns values.length (serializeFrom 0 values (List.replicate (4 * values.length) 0))

/-- An INTEGER takes the four bytes of its column and is read from them. -/
theorem integer_serialized (number : Int) :
    (serialized (.integer number)).length = 4 ∧
      BusTub.Value.integer (ofBytes (serialized (.integer number))) = .integer number := by
  by_cases least : number.bmod (1 <<< 32) = -(1 <<< 31 : Nat)
  · have null : BusTub.Value.integer number = ⟨.integer, none⟩ := by
      simp only [Value.integer, if_pos least]
    rw [null]
    exact ⟨rfl, by decide⟩
  · have known : BusTub.Value.integer number =
        ⟨.integer, some (.number (number.bmod (1 <<< 32)))⟩ := by
      simp only [Value.integer, if_neg least]
    have bytes : serialized (.integer number) =
        toBytes 4 (number.bmod (1 <<< 32) % 2 ^ 32).toNat := by
      rw [known]
      rfl
    rw [bytes]
    refine ⟨toBytes_length _ _, ?_⟩
    have small : (number.bmod (1 <<< 32) % 2 ^ 32).toNat < 256 ^ 4 := by omega
    have same : ((number.bmod (1 <<< 32) % 2 ^ 32).toNat : Int).bmod (1 <<< 32) =
        number.bmod (1 <<< 32) := by
      rw [Int.toNat_of_nonneg (by omega)]
      exact (Int.emod_bmod _ (1 <<< 32)).trans Int.bmod_bmod
    rw [bytes_kept small, Value.integer, same, Value.integer]

theorem overwrite_next (before : Block) {bytes : Block} (size : bytes.length = 4) (rest : Nat) :
    overwrite (before ++ List.replicate (4 * (rest + 1)) 0) before.length bytes =
      (before ++ bytes) ++ List.replicate (4 * rest) 0 := by
  have behind : (before ++ List.replicate (4 * (rest + 1)) (0 : UInt8)).drop (before.length + 4) =
      List.replicate (4 * rest) 0 := by
    rw [List.drop_append, List.drop_of_length_le (by omega), List.drop_replicate, List.nil_append]
    congr 1
    omega
  rw [overwrite, List.take_left' rfl, size, behind, ← List.append_assoc, List.take_of_length_le]
  simp only [List.length_append, List.length_replicate, size]
  omega

theorem integers_serialized {values : List BusTub.Value}
    (integers : ∀ value ∈ values, ∃ number, value = .integer number) (before : Block) :
    serializeFrom before.length values (before ++ List.replicate (4 * values.length) 0) =
      before ++ values.flatMap serialized := by
  induction values generalizing before with
  | nil => simp [serializeFrom]
  | cons value values ih =>
      obtain ⟨number, rfl⟩ := integers value List.mem_cons_self
      have size := (integer_serialized number).1
      rw [serializeFrom, List.length_cons, overwrite_next before size]
      have later := ih (fun other member => integers other (List.mem_cons_of_mem _ member))
        (before ++ serialized (.integer number))
      rw [List.length_append, size] at later
      rw [later, List.flatMap_cons, List.append_assoc]

theorem integers_read {values : List BusTub.Value}
    (integers : ∀ value ∈ values, ∃ number, value = .integer number) :
    integerColumns values.length (values.flatMap serialized) = values := by
  induction values with
  | nil => rfl
  | cons value values ih =>
      obtain ⟨number, rfl⟩ := integers value List.mem_cons_self
      obtain ⟨size, back⟩ := integer_serialized number
      rw [List.length_cons, integerColumns, List.flatMap_cons, List.take_left' size,
        List.drop_left' size, back, ih fun other member =>
          integers other (List.mem_cons_of_mem _ member)]

theorem as_integers {values : List BusTub.Value}
    (integers : ∀ value ∈ values, ∃ number, value = .integer number) :
    asIntegers values = values := by
  have written := integers_serialized integers []
  rw [List.nil_append, List.nil_append] at written
  rw [asIntegers, ← List.length_nil (α := UInt8), written, integers_read integers]

end Targets

/-- `UPDATE … SET setValues WHERE filterPredicate` of a table of INTEGER columns: the values of
the target expressions, and those that are INTEGERs are `int32_t`s. -/
structure UpdateStatement where
  filterPredicate : Tuple → Option Bool
  setValues : Tuple → Option (List Value)
  computed : ∀ tuple values, setValues tuple = some values →
    ∀ value ∈ values, value.typeId = .integer → ∃ number, value = .integer number

namespace UpdateStatement

def targetExpressions (statement : UpdateStatement) : Expressions :=
  fun tuple => (statement.setValues tuple).map asIntegers

def query (statement : UpdateStatement) : Query where
  filterPredicate := statement.filterPredicate
  projection := some

def replace (statement : UpdateStatement) (tuple : Tuple) : Option Tuple :=
  if statement.query.accepts tuple then statement.targetExpressions tuple else some tuple

/-- A matching row has its new values, and any other row stays. -/
def assign (statement : UpdateStatement) (tuple : Tuple) : Option Tuple :=
  if statement.query.accepts tuple then statement.setValues tuple else some tuple

/-- The predicate or a target expression throws on the row. -/
def ThrowsOn (statement : UpdateStatement) (tuple : Tuple) : Prop :=
  statement.filterPredicate tuple = none ∨
    (statement.query.accepts tuple = true ∧ statement.targetExpressions tuple = none)

/-- `UpdateExecutor` after `Init` of itself and before that of the scan. -/
def begun (statement : UpdateStatement) (store : Store) : ScannedStore where
  statement := { store with phase := .pulling (.update statement.targetExpressions) [] }
  scan := none

end UpdateStatement

/-! ### What is still to be written -/

def owedWrites (modifies : List (RID × Option Tuple)) (inserts : List Tuple) : List RowWrite :=
  (modifies.map fun write => .modify write.1 write.2) ++ inserts.map .insert

def outcome (rows : List (RID × Tuple)) (modifies : List (RID × Option Tuple))
    (inserts : List Tuple) : List Tuple :=
  ((rows.filter fun row => row.1 ∉ modifies.map Prod.fst).map Prod.snd) ++
    (modifies.filterMap Prod.snd ++ inserts)

section Outcomes
variable {view : RID → Option Tuple} {rows : List (RID × Tuple)}
  {modifies : List (RID × Option Tuple)} {inserts : List Tuple} {rid : RID} {target : Option Tuple}
  {rest : List RowWrite}

theorem outcome_done : outcome rows [] [] = rows.map Prod.snd := by
  simp [outcome]

/-- A call of `ModifyTuple` brings its target into the table. -/
theorem outcome_modify (fresh : rid ∉ modifies.map Prod.fst) :
    (outcome ((target.toList.map fun tuple => (rid, tuple)) ++ rows.filter fun row =>
      row.1 ≠ rid) modifies inserts).Perm
      (outcome rows ((rid, target) :: modifies) inserts) := by
  have kept : ((rows.filter fun row => row.1 ≠ rid).filter fun row =>
      row.1 ∉ modifies.map Prod.fst) =
      rows.filter fun row => row.1 ∉ ((rid, target) :: modifies).map Prod.fst := by
    rw [List.filter_filter]
    refine List.filter_congr fun row _ => ?_
    simp only [List.map_cons, List.mem_cons, not_or, ne_eq, Bool.decide_and]
    rw [Bool.and_comm]
  unfold outcome
  rw [List.filter_append, kept]
  cases target with
  | none => simp
  | some tuple =>
      simp only [Option.toList_some, List.map_cons, List.map_nil, List.filter_cons, fresh,
        not_false_eq_true, decide_true,
        if_true, List.filter_nil, List.cons_append, List.nil_append, List.filterMap_cons]
      exact List.perm_middle.symm

theorem outcome_insert (rows : List (RID × Tuple)) (rid : RID) (tuple : Tuple)
    (inserts : List Tuple) :
    (outcome ((rid, tuple) :: rows) [] inserts).Perm (outcome rows [] (tuple :: inserts)) := by
  simp only [outcome, List.map_nil, List.not_mem_nil, not_false_eq_true, decide_true,
    List.filter_true, List.map_cons, List.filterMap_nil, List.nil_append, List.cons_append]
  exact List.perm_middle.symm

theorem owed_nil (none : owedWrites modifies inserts = []) : modifies = [] ∧ inserts = [] := by
  simpa [owedWrites] using none

theorem owed_modify (owed : owedWrites modifies inserts = .modify rid target :: rest) :
    ∃ more, modifies = (rid, target) :: more ∧ rest = owedWrites more inserts := by
  cases modifies with
  | nil =>
      cases inserts with
      | nil => cases owed
      | cons => cases owed
  | cons first more =>
      obtain ⟨same, rfl⟩ := List.cons.inj owed
      cases same
      exact ⟨more, rfl, rfl⟩

theorem owed_insert {tuple : Tuple} (owed : owedWrites modifies inserts = .insert tuple :: rest) :
    ∃ more, modifies = [] ∧ inserts = tuple :: more ∧ rest = owedWrites [] more := by
  cases modifies with
  | nil =>
      cases inserts with
      | nil => cases owed
      | cons first more =>
          obtain ⟨same, rfl⟩ := List.cons.inj owed
          cases same
          exact ⟨more, rfl, rfl, rfl⟩
  | cons first more => cases owed

end Outcomes

theorem update_writes_owed (indexes : List IndexInfo) (updates : List RowUpdate) :
    updateWrites indexes updates = owedWrites
      (updates.map fun update =>
        (update.rid, if moved indexes updates update.rid then none else some update.target))
      ((updates.filter fun update => moved indexes updates update.rid).map RowUpdate.target) := by
  simp [updateWrites, owedWrites, List.map_map, Function.comp_def]

theorem targets_written (isMoved : RID → Bool) (updates : List RowUpdate) :
    ((updates.map fun update =>
      (update.rid, if isMoved update.rid then none else some update.target)).filterMap Prod.snd ++
      (updates.filter fun update => isMoved update.rid).map RowUpdate.target).Perm
      (updates.map RowUpdate.target) := by
  have stays :
    (updates.map fun update =>
      (update.rid, if isMoved update.rid then none else some update.target)).filterMap
      Prod.snd = (updates.filter fun update => !isMoved update.rid).map RowUpdate.target := by
    rw [List.filterMap_map, ← List.filterMap_eq_map, List.filterMap_filter]
    refine List.filterMap_congr fun update _ => ?_
    cases moves : isMoved update.rid <;> simp [moves]
  rw [stays, ← List.map_append]
  refine List.Perm.map _ ?_
  exact (List.perm_append_comm).trans (List.filter_append_perm _ updates)

section Gathered
variable {statement : UpdateStatement} {view : RID → Option Tuple} {rows : List (RID × Tuple)}
  {updates : List RowUpdate}

theorem replaced_rest (rows : List (RID × Tuple)) :
    (rows.filter fun row => !statement.query.accepts row.2).mapM
      (fun row => statement.replace row.2) =
      some ((rows.filter fun row => !statement.query.accepts row.2).map Prod.snd) := by
  induction rows with
  | nil => rfl
  | cons row rest ih =>
      cases accepts : statement.query.accepts row.2 with
      | true =>
          rw [List.filter_cons_of_neg (by simp [accepts])]
          exact ih
      | false =>
          have here : statement.replace row.2 = some row.2 := by
            simp [UpdateStatement.replace, accepts]
          rw [List.filter_cons_of_pos (by simp [accepts]), List.mapM_cons, here, ih]
          rfl

theorem replaced_targets
    (accepted : ∀ update ∈ updates, statement.query.accepts update.childTuple = true)
    (targets : ∀ update ∈ updates, statement.targetExpressions update.childTuple =
      some update.target) :
    (updates.map fun update => (update.rid, update.childTuple)).mapM
      (fun row => statement.replace row.2) =
      some (updates.map RowUpdate.target) := by
  induction updates with
  | nil => rfl
  | cons update rest ih =>
      have later := ih (fun other member => accepted other (List.mem_cons_of_mem _ member))
        (fun other member => targets other (List.mem_cons_of_mem _ member))
      have here : statement.replace update.childTuple = some update.target := by
        rw [UpdateStatement.replace, if_pos (accepted update List.mem_cons_self),
          targets update List.mem_cons_self]
      simp [here, later]

/-- What an UPDATE owes when it has gathered its rows is every matching row replaced. -/
theorem gathered_outcome (lists : Lists view rows) (indexes : List IndexInfo)
    (gathered : (updates.map fun update => (update.rid, update.childTuple)).Perm
      (rows.filter fun row => statement.query.accepts row.2))
    (targets : ∀ update ∈ updates, statement.targetExpressions update.childTuple =
      some update.target) :
    ∃ expected, rows.mapM (fun row => statement.replace row.2) = some expected ∧
      (outcome rows
        (updates.map fun update =>
          (update.rid, if moved indexes updates update.rid then none else some update.target))
        ((updates.filter fun update => moved indexes updates update.rid).map RowUpdate.target)).Perm
          expected := by
  have accepted (update : RowUpdate) (member : update ∈ updates) :
      (update.rid, update.childTuple) ∈ rows ∧ statement.query.accepts update.childTuple = true :=
    List.mem_filter.mp (gathered.mem_iff.mp (List.mem_map_of_mem member))
  -- the rows that are not gathered are those the predicate refuses
  have rest : (rows.filter fun row => row.1 ∉ (updates.map fun update =>
      (update.rid, if moved indexes updates update.rid then none else some update.target)).map
        Prod.fst) =
      rows.filter fun row => !statement.query.accepts row.2 := by
    refine List.filter_congr fun row member => ?_
    have iff : row.1 ∈
      (updates.map fun update => (update.rid, if moved indexes updates update.rid then none
      else some update.target)).map Prod.fst ↔ statement.query.accepts row.2 = true := by
      rw [List.map_map, List.mem_map]
      constructor
      · rintro ⟨update, inside, same⟩
        have here := (lists.rows _ _).mp (accepted update inside).1
        have there := (lists.rows row.1 row.2).mp member
        obtain same : update.rid = row.1 := same
        rw [same] at here
        rw [Option.some.inj (there.symm.trans here)]
        exact (accepted update inside).2
      · intro matching
        obtain ⟨update, inside, same⟩ :=
          List.mem_map.mp (gathered.mem_iff.mpr (List.mem_filter.mpr ⟨member, matching⟩))
        exact ⟨update, inside, congrArg Prod.fst same⟩
    simp only [iff]
    cases statement.query.accepts row.2 <;> rfl
  have split : rows.Perm ((updates.map fun update => (update.rid, update.childTuple)) ++
      rows.filter fun row => !statement.query.accepts row.2) :=
    ((List.filter_append_perm _ rows).symm).trans (gathered.symm.append_right _)
  have whole :=
    map_m_append (replaced_targets (fun update member => (accepted update member).2) targets)
      (@replaced_rest statement rows)
  obtain ⟨expected, evaluated, same⟩ := map_m_perm split.symm whole
  refine ⟨expected, evaluated, List.Perm.trans ?_ same⟩
  unfold outcome
  rw [rest]
  exact ((targets_written _ updates).append_left _).trans List.perm_append_comm

end Gathered

/-! ### The invariant of an UPDATE -/

def RowStage.owes : RowStage → List RowWrite → List RowWrite
  | .next, rest | .entering _ _ _, rest => rest
  | .seeking tuple _, rest | .reviving _ tuple, rest | .placing tuple, rest => .insert tuple :: rest

/-- What a transaction sees, and what its UPDATE has still to do about it, by the
phases of the statement; `start` are the rows it saw at the beginning. -/
inductive UpdateInv (statement : UpdateStatement) (me : TxnId) (oid : TableOid)
    (start : List (RID × Tuple)) (scan : Option Scan) (history : History)
    (view : RID → Option Tuple) : Phase → Prop where
  | opening (closed : scan = none) (lists : Lists view start) :
      UpdateInv statement me oid start scan history view
        (.pulling (.update statement.targetExpressions) [])
  | scanning (passed rids : List RID) (batch : List (RID × Tuple)) (updates : List RowUpdate)
      (scans : scan = some ⟨rids, batch⟩) (lists : Lists view start)
        (unique : (passed ++ rids).Nodup)
      (ours : ∀ rid ∈ passed ++ rids, inTable history oid rid = true)
      (covers : ∀ rid tuple, view rid = some tuple → statement.query.accepts tuple = true →
        rid ∈ passed ++ rids)
      (rows : (updates.map fun update => (update.rid, update.childTuple)) ++ batch =
        passed.filterMap (selectRow view statement.query.accepts))
      (targets : ∀ update ∈ updates, statement.targetExpressions update.childTuple =
        some update.target) :
      UpdateInv statement me oid start scan history view
        (.pulling (.update statement.targetExpressions) updates)
  | writing (stage : RowStage) (rest : List RowWrite) (modifies : List (RID × Option Tuple))
      (inserts : List Tuple)
      (rows : List (RID × Tuple)) (expected : List Tuple)
        (owed : stage.owes rest = owedWrites modifies inserts)
      (unique : (modifies.map Prod.fst).Nodup) (ours : ∀ rid ∈ modifies.map Prod.fst,
        inTable history oid rid = true)
      (lists : Lists view rows) (replaced : start.mapM (fun row => statement.replace row.2) =
        some expected)
      (amounts : (outcome rows modifies inserts).Perm expected) :
      UpdateInv statement me oid start scan history view
        (.writing (.update statement.targetExpressions) stage rest)
  | finished (rows : List (RID × Tuple)) (expected : List Tuple) (lists : Lists view rows)
      (replaced : start.mapM (fun row => statement.replace row.2) = some expected)
      (same : (rows.map Prod.snd).Perm expected) : UpdateInv statement me oid start scan history
        view .finished
  | threw (cause : Thrown)
      (why : Tainted history me ∨ (Lists view start ∧ ∃ row ∈ start, statement.ThrowsOn row.2)) :
      UpdateInv statement me oid start scan history view (.threw cause)

section UpdateSteps
variable {statement : UpdateStatement} {me : TxnId} {oid : TableOid} {readTs : Timestamp}
  {start : List (RID × Tuple)} {scan : Option Scan} {history next : History}
  {view : RID → Option Tuple} {phase phase' : Phase} {op : TxnOp} {rid : RID}
  {target : Option Tuple} {requireDeleted : Bool} {indexes : List IndexInfo} {rids : List RID}
  {batch : List (RID × Tuple)} {targetExpressions : Expressions} {label : DmlOp}
  {result : ModifyResult} {mgr : TransactionManager} {rows : List (RID × Tuple)}
  {updates : List RowUpdate}

theorem update_inv_carried (inv : UpdateInv statement me oid start scan history view phase)
    (kept : ∀ rid, inTable history oid rid = true → inTable next oid rid = true)
    (taints : Tainted history me → Tainted next me) :
    UpdateInv statement me oid start scan next view phase := by
  cases inv with
  | opening closed lists => exact UpdateInv.opening closed lists
  | scanning passed rids batch updates scans lists unique ours covers rows targets =>
      exact UpdateInv.scanning passed rids batch updates scans lists unique
        (fun rid member => kept rid (ours rid member))
        covers rows targets
  | writing stage rest modifies inserts rows expected owed unique ours lists replaced amounts =>
      exact UpdateInv.writing stage rest modifies inserts rows expected owed unique
        (fun rid member => kept rid (ours rid member)) lists replaced amounts
  | finished rows expected lists replaced same =>
      exact UpdateInv.finished rows expected lists replaced same
  | threw cause why => exact UpdateInv.threw cause (why.imp_left taints)

/-- The loops over the rows and over the indexes owe what they owed. -/
theorem update_inv_goes (mine : ofChild me label = false) (goes : Goes indexes phase label phase')
    (inv : UpdateInv statement me oid start scan history view phase) :
    UpdateInv statement me oid start scan history view phase' := by
  cases goes with
  | rowsDone kind =>
      cases inv with
      | writing _ _ modifies inserts rows expected owed unique ours lists replaced amounts =>
          obtain ⟨rfl, rfl⟩ := owed_nil owed.symm
          exact UpdateInv.finished rows expected lists replaced (outcome_done ▸ amounts)
  | insertRow | notFound | found | seekOn | enteredAll =>
      cases inv with
      | writing _ _ modifies inserts rows expected owed unique ours lists replaced amounts =>
          exact UpdateInv.writing _ _ modifies inserts rows expected owed unique ours lists
            replaced amounts
  | init kind => cases inv
  | insertBatch | deleteBatch | targets | gathered | ended => cases mine

theorem same_sizes (integers : ∀ column ∈ history.mgr.catalog oid, column = .integer)
    {tuple other : Tuple} (fits : tuple.Fits (history.mgr.catalog oid))
    (fits' : other.Fits (history.mgr.catalog oid)) :
    tuple.getLength = other.getLength := by
  have size (tuple : Tuple) (fits : tuple.Fits (history.mgr.catalog oid)) :
      tuple.getLength = (history.mgr.catalog oid).length * 4 := by
    have each : tuple.map Value.storageSize = tuple.map fun _ => 4 := by
      refine List.map_congr_left fun value member => ?_
      have column : value.typeId = .integer := by
        refine integers _ ?_
        rw [← fits]
        exact List.mem_map_of_mem member
      simp [Value.storageSize, column]
    rw [Tuple.getLength, each, ← Tuple.fits_length fits]
    simp
  rw [size tuple fits, size other fits']

theorem compares_no_vector {mask : List Bool} {base target : Tuple}
    (comparable : ∀ value ∈ base, value.typeId ≠ .vector) :
    comparesVector mask base target = false := by
  fun_induction comparesVector mask base target with
  | case1 mask value base other target ih =>
      exact ih fun value member => comparable value (List.mem_cons_of_mem _ member)
  | case2 mask value base other target ih =>
      have here : value.exactlyThrows other = false := by
        simp [Value.exactlyThrows, comparable value List.mem_cons_self]
      rw [here, ih fun value member => comparable value (List.mem_cons_of_mem _ member)]
      rfl
  | case3 => rfl

/-- On a table of INTEGER columns nothing is compared that cannot be. -/
theorem integers_compare (inv : Inv history)
    (integers : ∀ column ∈ history.mgr.catalog oid, column = .integer)
    (ours : inTable history oid rid = true) :
    history.mgr.modifyThrows me rid target requireDeleted = false := by
  obtain ⟨slot, found, rfl⟩ := in_table_iff.mp ours
  have comparable (value : Value) (member : value ∈ slot.tuple) : value.typeId ≠ .vector := by
    have column := integers value.typeId (by
      rw [← show slot.tuple.map Value.typeId =
        history.mgr.catalog slot.oid from inv.store.fits rid slot found]
      exact List.mem_map_of_mem member)
    simp [column]
  have compares (mask : List Bool) (target : Tuple) : comparesVector mask slot.tuple target =
      false :=
    compares_no_vector comparable
  have updated (log : UndoLog) :
      updatedUndoLogThrows log (if slot.metadata.isDeleted then none else some slot.tuple) target =
        false := by
    cases slot.metadata.isDeleted <;> cases target <;> simp [updatedUndoLogThrows, compares]
  have made (schema : Schema) :
      newUndoLogThrows schema (if slot.metadata.isDeleted then none else some slot.tuple) target =
        false := by
    cases slot.metadata.isDeleted <;> cases target <;> simp [newUndoLogThrows, compares]
  unfold TransactionManager.modifyThrows
  cases history.mgr.ready me with
  | none => rfl
  | some txn => simp [found, TransactionManager.undoThrows, updated, made]

/-- On a table of INTEGER columns `ModifyTuple` throws only to taint. -/
theorem modified_throws (inv : Inv history)
    (integers : ∀ column ∈ history.mgr.catalog oid, column = .integer)
    (ours : inTable history oid rid = true)
    (returned : history.mgr.modifyTuple me rid target requireDeleted = some (result, mgr))
    (stepped : history.step (.modify me rid target requireDeleted) = some next) :
    result = .done ∨ Tainted next me := by
  have manager := modified_manager returned stepped
  obtain ⟨slot, found, rfl⟩ := in_table_iff.mp ours
  have mismatch := modify_size_mismatch returned
  obtain ⟨txn, slot', ready, found', fits, ended⟩ := modify_cases returned
  obtain rfl := Option.some.inj (found.symm.trans found')
  rcases ended with ⟨_, thrown⟩ | ⟨_, _, _, _, ⟨refused, _⟩ | ⟨done, _⟩⟩
  · exact Or.inr (throw_tainted (manager ▸ thrown))
  · obtain ⟨_, other, _, found'', _, tuple, wanted, differ⟩ := mismatch.mp refused
    obtain rfl := Option.some.inj (found.symm.trans found'')
    exact absurd (same_sizes integers (inv.store.fits rid slot found) (fits tuple wanted)) differ
  · exact Or.inl done

theorem update_calls_ours (calls : phase.call = some ((rid, target, requireDeleted), phase'))
    (pointed : ∀ rid, phase.pointsAt = some rid → inTable history oid rid = true)
    (inv : UpdateInv statement me oid start scan history view phase) :
    inTable history oid rid = true := by
  cases inv with
  | writing stage rest modifies inserts rows expected owed unique ours lists replaced amounts =>
      cases stage with
      | next =>
          cases rest with
          | nil => cases calls
          | cons first rest =>
              cases first with
              | insert tuple => cases calls
              | modify place written =>
                  cases calls
                  obtain ⟨more, rfl, rfl⟩ := owed_modify owed.symm
                  exact ours rid List.mem_cons_self
      | reviving place tuple =>
          cases calls
          exact pointed rid rfl
      | seeking | placing | entering => cases calls
  | opening | scanning | finished | threw => cases calls

/-- A call of `ModifyTuple` of the first loop, or of `InsertTupleMvcc` at a deleted tuple. -/
theorem update_inv_modified (standing : Standing me readTs history)
    (integers : ∀ column ∈ history.mgr.catalog oid, column = .integer)
    (calls : phase.call = some ((rid, target, requireDeleted), phase'))
    (pointed : ∀ rid, phase.pointsAt = some rid → inTable history oid rid = true)
    (returned : history.mgr.modifyTuple me rid target requireDeleted = some (result, mgr))
    (stepped : history.step (.modify me rid target requireDeleted) = some next)
    (inv : UpdateInv statement me oid start scan history (tableView me readTs oid history) phase) :
    UpdateInv statement me oid start scan next (tableView me readTs oid next)
      (Store.afterModify phase' result) := by
  have kept (place : RID) (ours : inTable history oid place = true) : inTable next oid place =
      true :=
    ours_step standing.inv stepped ours
  have here := update_calls_ours calls pointed inv
  have taints := modified_throws standing.inv integers here returned stepped
  cases inv with
  | writing stage rest modifies inserts rows expected owed unique ours lists replaced amounts =>
      cases result with
      | writeConflict => exact UpdateInv.threw _ (Or.inl (taints.resolve_left (by simp)))
      | sizeMismatch => exact UpdateInv.threw _ (Or.inl (taints.resolve_left (by simp)))
      | done =>
          cases stage with
          | next =>
              cases rest with
              | nil => cases calls
              | cons first rest =>
                  cases first with
                  | insert tuple => cases calls
                  | modify place written =>
                      cases calls
                      obtain ⟨more, rfl, rfl⟩ := owed_modify owed.symm
                      -- the targets that are left stand at other RIDs
                      have apart := List.nodup_cons.mp unique
                      rw [view_modified standing here returned stepped, if_pos rfl]
                      refine UpdateInv.writing _ _ more inserts _ expected rfl apart.2
                        (fun place member =>
                          kept place (ours place (List.mem_cons_of_mem _ member)))
                        (lists_update lists target) replaced
                          ((outcome_modify apart.1).trans amounts)
          | reviving place tuple =>
              cases calls
              obtain ⟨more, rfl, rfl, rfl⟩ := owed_insert owed.symm
              -- a row at a deleted tuple was not seen before
              have free : tableView me readTs oid history rid = none :=
                (view_ours here).trans (revived_unseen standing returned)
              rw [view_modified standing here returned stepped, if_pos rfl]
              exact UpdateInv.writing _ _ [] more _ expected rfl List.nodup_nil
                (fun place member => by cases member)
                (lists_insert lists free tuple) replaced
                  ((outcome_insert rows rid tuple more).trans amounts)
          | seeking | placing | entering => cases calls
  | opening | scanning | finished | threw => cases calls

theorem update_inv_placed {kind : StatementKind} {tuple : Tuple} {rest : List RowWrite}
    (inv' : Inv history) (stepped : history.step (.insert me oid rid tuple) = some next)
    (inv : UpdateInv statement me oid start scan history (tableView me readTs oid history)
      (.writing kind (.placing tuple) rest)) :
    UpdateInv statement me oid start scan next (tableView me readTs oid next)
      (.writing kind (.entering rid tuple 0) rest) := by
  cases inv with
  | writing _ _ modifies inserts rows expected owed unique ours lists replaced amounts =>
      obtain ⟨more, rfl, rfl, rfl⟩ := owed_insert owed.symm
      have free : tableView me readTs oid history rid = none := by
        rw [tableView, if_neg (by simp [(placed_slot stepped).1])]
      rw [placed_view inv' stepped]
      exact UpdateInv.writing _ _ [] more _ expected rfl List.nodup_nil
        (fun place member => by cases member)
        (lists_insert lists free tuple) replaced
          ((outcome_insert rows rid tuple more).trans amounts)

/-- The next RID has been read: its row is gathered when the predicate accepts it. -/
theorem update_inv_taken {row : Option (RID × Tuple)} (pulls : phase.pulls = true)
    (read : selectRow view statement.query.accepts rid = row)
    (inv : UpdateInv statement me oid start (some ⟨rid :: rids, batch⟩) history view phase) :
    UpdateInv statement me oid start (some ⟨rids, batch ++ row.toList⟩) history view phase := by
  cases inv with
  | opening closed lists => cases closed
  | scanning passed _ _ updates scans lists unique ours covers rows targets =>
      cases scans
      have again : passed ++ rid :: rids = (passed ++ [rid]) ++ rids := by simp
      rw [again] at unique ours covers
      refine UpdateInv.scanning (passed ++ [rid]) rids _ updates rfl lists unique ours
        covers ?_ targets
      rw [← List.append_assoc, rows, List.filterMap_append]
      cases row <;> simp [read]
  | writing | finished | threw => cases pulls

theorem evaluated_targets (evaluated : evaluateTargets targetExpressions rows = some updates) :
    (updates.map fun update => (update.rid, update.childTuple)) = rows ∧
      ∀ update ∈ updates, targetExpressions update.childTuple = some update.target := by
  induction rows generalizing updates with
  | nil =>
      obtain rfl : [] = updates := by simpa [evaluateTargets] using evaluated
      exact ⟨rfl, fun update member => by cases member⟩
  | cons row rest ih =>
      simp only [evaluateTargets, List.mapM_cons, Option.bind_eq_bind, Option.bind_eq_some_iff]
        at evaluated
      obtain ⟨first, here, more, there, same⟩ := evaluated
      obtain ⟨target, valued, rfl⟩ := Option.map_eq_some_iff.mp here
      obtain rfl := Option.some.inj same
      obtain ⟨listed, targets⟩ := ih there
      refine ⟨by rw [List.map_cons, listed], fun update member => ?_⟩
      rcases List.mem_cons.mp member with rfl | later
      · exact valued
      · exact targets update later

/-- The batch goes to the statement as it is, with its targets. -/
theorem update_inv_delivered (goes : Goes indexes phase (.childBatch batch) phase')
    (inv : UpdateInv statement me oid start (some ⟨rids, batch⟩) history view phase) :
    UpdateInv statement me oid start (some ⟨rids, []⟩) history view phase' := by
  cases goes with
  | insertBatch | deleteBatch => cases inv
  | targets targetExpressions updates more _ evaluated =>
      cases inv with
      | opening closed lists => cases closed
      | scanning passed _ _ _ scans lists unique ours covers rows targets =>
          cases scans
          obtain ⟨listed, targets'⟩ := evaluated_targets evaluated
          refine UpdateInv.scanning passed rids [] _ rfl lists unique ours covers ?_
            fun update member => ?_
          · rw [List.append_nil, List.map_append, listed, rows]
          · rcases List.mem_append.mp member with old | new
            · exact targets update old
            · exact targets' update new

/-- When the scan is at its end, the matching rows have been gathered. -/
theorem update_inv_exhausted (goes : Goes indexes phase .childEnd phase')
    (inv : UpdateInv statement me oid start (some ⟨[], []⟩) history view phase) :
    UpdateInv statement me oid start (some ⟨[], []⟩) history view phase' := by
  cases goes with
  | gathered targetExpressions updates =>
      cases inv with
      | opening closed lists => cases closed
      | scanning passed _ _ _ scans lists unique ours covers rows targets =>
          cases scans
          rw [List.append_nil] at rows unique covers ours
          have gathered : (updates.map fun update => (update.rid, update.childTuple)).Perm
            (start.filter fun row => statement.query.accepts row.2) := by
            rw [rows]
            exact selected_perm lists unique covers
          obtain ⟨expected, replaced, amounts⟩ := gathered_outcome lists indexes gathered targets
          have rids : (updates.map fun update =>
              (update.rid, if moved indexes updates update.rid then none
              else some update.target)).map Prod.fst =
                (updates.map fun update => (update.rid, update.childTuple)).map
                Prod.fst := by
            simp [List.map_map, Function.comp_def]
          refine UpdateInv.writing _ _ _ _ start expected
            (update_writes_owed indexes updates) ?_ ?_ lists replaced amounts
          · rw [rids]
            exact ((gathered.map Prod.fst).nodup_iff).mpr
              ((List.filter_sublist.map _).nodup lists.unique)
          · rw [rids, rows]
            intro rid member
            obtain ⟨row, inside, rfl⟩ := List.mem_map.mp member
            obtain ⟨place, passing, found⟩ := List.mem_filterMap.mp inside
            rw [(select_row_iff.mp found).1]
            exact ours place passing
  | ended kind updates pulling =>
      cases inv with
      | opening => cases pulling
      | scanning => cases pulling

theorem pulling_lists (pulls : phase.pulls = true)
    (inv : UpdateInv statement me oid start scan history view phase) :
    Lists view start := by
  cases inv with
  | opening closed lists => exact lists
  | scanning passed rids batch updates scans lists unique ours covers rows targets => exact lists
  | writing | finished | threw => cases pulls

/-- A target expression throws on one of the rows of the batch. -/
theorem targets_throw (throws : evaluateTargets targetExpressions rows = none) :
    ∃ row ∈ rows, targetExpressions row.2 = none := by
  induction rows with
  | nil => cases throws
  | cons row rest ih =>
      cases here : targetExpressions row.2 with
      | none => exact ⟨row, List.mem_cons_self, here⟩
      | some target =>
          cases later : evaluateTargets targetExpressions rest with
          | none =>
              obtain ⟨row, member, throws⟩ := ih later
              exact ⟨row, List.mem_cons_of_mem _ member, throws⟩
          | some updates =>
              simp only [evaluateTargets] at throws later
              simp [here, later] at throws

theorem update_inv_throws (stands : phase = .pulling (.update targetExpressions) updates)
    (throws : evaluateTargets targetExpressions batch = none)
    (inv : UpdateInv statement me oid start (some ⟨rids, batch⟩) history view phase) :
    Lists view start ∧ ∃ row ∈ start, statement.ThrowsOn row.2 := by
  obtain ⟨row, member, none⟩ := targets_throw throws
  cases inv with
  | opening closed lists => cases closed
  | scanning passed _ _ updates scans lists unique ours covers rows targets =>
      cases scans
      cases stands
      have inside : row ∈ passed.filterMap (selectRow view statement.query.accepts) :=
        rows ▸ List.mem_append_right _ member
      obtain ⟨place, _, found⟩ := List.mem_filterMap.mp inside
      obtain ⟨rfl, sees, accepted⟩ := select_row_iff.mp found
      exact ⟨lists, row, (lists.rows _ _).mpr sees, Or.inr ⟨accepted, none⟩⟩
  | writing | finished | threw => cases stands

def UpdateStands (statement : UpdateStatement) (me : TxnId) (readTs : Timestamp) (oid : TableOid)
    (start : List (RID × Tuple)) (store : ScannedStore) : Prop :=
  UpdateInv statement me oid start store.scan store.statement.history
    (tableView me readTs oid store.statement.history) store.statement.phase

theorem update_loop {store after : Store} (standing : Standing me readTs store.history)
    (integers : ∀ column ∈ store.history.mgr.catalog oid, column = .integer)
    (pointed : Pointed oid store) (mine : ofChild me label = false)
    (stepped : Stepped me oid store label after)
    (inv : UpdateInv statement me oid start scan store.history
      (tableView me readTs oid store.history) store.phase) :
    UpdateInv statement me oid start scan after.history (tableView me readTs oid after.history)
      after.phase := by
  cases stepped with
  | other op history elsewhere stepped =>
      rw [view_other standing stepped elsewhere]
      refine update_inv_carried inv (fun rid ours => ours_step standing.inv stepped ours)
        fun tainted => ?_
      refine tainted_step standing.inv stepped tainted ?_
      rintro rfl
      exact elsewhere rfl
  | read op history pulls reads own stepped => simp [ofChild, own] at mine
  | enter number key rid info listed free ours => exact inv
  | goes _ phase going ready => exact update_inv_goes mine going inv
  | childThrew pulls => cases mine
  | evaluationThrew rows targetExpressions updates stands => cases mine
  | comparisonThrew rid target requireDeleted next calls throws =>
      have ours := update_calls_ours calls pointed.stage inv
      cases (integers_compare standing.inv integers ours).symm.trans throws
  | modified rid target requireDeleted next result mgr history calls returned stepped =>
      exact update_inv_modified standing integers calls pointed.stage returned stepped inv
  | placed rid kind tuple rest history stands stepped =>
      rw [stands] at inv
      exact update_inv_placed standing.inv stepped inv
  | entered kind rid tuple number rest info stands listed free =>
      rw [stands] at inv
      cases inv with
      | writing _ _ modifies inserts rows expected owed unique ours lists replaced amounts =>
          exact UpdateInv.writing _ _ modifies inserts rows expected owed unique ours lists
            replaced amounts
  | conflict _ kind stage rest history stands noCall throws stepped =>
      obtain ⟨mgr, thrown, rfl⟩ := Option.map_eq_some_iff.mp stepped
      exact UpdateInv.threw _ (Or.inl (throw_tainted thrown))

theorem update_stands_step {before after : ScannedStore} {label : ScannedOp}
    (standing : Standing me readTs before.statement.history)
    (integers : ∀ column ∈ before.statement.history.mgr.catalog oid, column = .integer)
    (pointed : Pointed oid before.statement)
    (stands : UpdateStands statement me readTs oid start before)
    (stepped : ScannedStepped statement.query me oid before label after) :
    UpdateStands statement me readTs oid start after := by
  have read {rid : RID} {rids : List RID} {batch : List (RID × Tuple)} {visible : Option Tuple}
    (scans : before.scan = some ⟨rid :: rids, batch⟩)
    (returned : before.statement.history.mgr.control me = .returned rid visible)
    (pulls : before.statement.phase.pulls = true) :
      tableView me readTs oid before.statement.history rid = visible := by
    refine returned_view standing returned ?_
    unfold UpdateStands at stands
    rw [scans] at stands
    generalize before.statement.phase = phase at stands pulls
    cases stands with
    | opening closed lists => cases closed
    | scanning passed _ _ updates scans lists unique ours covers rows targets =>
        cases scans
        exact ours rid (List.mem_append_right _ List.mem_cons_self)
    | writing | finished | threw => cases pulls
  unfold UpdateStands at stands ⊢
  cases stepped with
  | loop op store mine stepped => exact update_loop standing integers pointed mine stepped stands
  | opened rids history first covered pulls stepped =>
      obtain ⟨unique, ours, whole⟩ := covers_view standing covered
      have same : tableView me readTs oid history =
          tableView me readTs oid before.statement.history :=
        view_ledger standing.inv stepped (reading_ledger rfl stepped)
      dsimp only
      rw [same]
      generalize before.statement.phase = phase at stands pulls ⊢
      rw [first] at stands
      cases stands with
      | opening closed lists =>
          exact UpdateInv.scanning [] rids [] [] rfl lists unique
            (fun rid member => ours_step standing.inv stepped (ours rid member)) whole rfl
            fun update member => by cases member
      | scanning passed rids batch updates scans lists unique ours covers rows targets =>
          cases scans
      | writing | finished | threw => cases pulls
  | read _ op history reads child pulls stepped =>
      rw [view_ledger standing.inv stepped (reading_ledger reads stepped)]
      refine update_inv_carried stands (fun rid ours => ours_step standing.inv stepped ours)
        fun tainted => ?_
      refine tainted_step standing.inv stepped tainted ?_
      rintro rfl
      cases reads
  | passed rid rids batch visible scans pulls returned refused =>
      rw [scans] at stands
      have skipped :
          selectRow (tableView me readTs oid before.statement.history) statement.query.accepts rid =
            none := by
        rw [selectRow, read scans returned pulls]
        cases visible with
        | none => rfl
        | some tuple => simp [Option.filter, Query.accepts, refused tuple rfl]
      simpa using update_inv_taken pulls skipped stands
  | took rid rids batch tuple scans pulls returned accepted =>
      rw [scans] at stands
      have taken : selectRow (tableView me readTs oid before.statement.history)
        statement.query.accepts rid =
        some (rid, tuple) :=
        select_row_iff.mpr ⟨rfl, read scans returned pulls, by simp [Query.accepts, accepted]⟩
      exact update_inv_taken pulls taken stands
  | filterThrew rid rids batch tuple scans pulls returned throws =>
      have lists := pulling_lists pulls stands
      have seen := (lists.rows rid tuple).mpr (read scans returned pulls)
      exact UpdateInv.threw _ (Or.inr ⟨lists, _, seen, Or.inl throws⟩)
  | projectionThrew rids batch scans pulls throws => cases (map_m_some batch).symm.trans throws
  | exhausted store scans stepped =>
      obtain ⟨phase, goes, rfl⟩ := end_stepped_cases stepped
      dsimp only
      rw [scans] at stands ⊢
      exact update_inv_exhausted goes stands
  | delivered rids batch rows store scans projected stepped =>
      have same : rows = batch := by
        have whole : (batch.mapM fun row => (statement.query.projection row.2).map fun tuple =>
            (row.1, tuple)) =
            some batch := map_m_some batch
        exact Option.some.inj (projected.symm.trans whole)
      subst same
      rw [scans] at stands
      rcases batch_stepped_cases stepped with ⟨phase, goes, rfl⟩ |
        ⟨targetExpressions, updates, here, throws, rfl⟩
      · exact update_inv_delivered goes stands
      · exact UpdateInv.threw _ (Or.inr (update_inv_throws here throws stands))

end UpdateSteps

end BusTub.Dml
