import BusTub.EqualityLookup
import BusTub.ReaderCourses
import BusTub.RelationalJoin

/-!
The rewrite of `optimizer/nlj_as_index_join.cpp` and the executor it chooses,
beside a nested-loop join over a scan of the inner table. The index join looks at
the index and at the newest tuples of the table, one look after the other, and any
other transactions run between two of its looks. Where the tuples that it looks at
are those that the reader sees, it hands out the rows of the nested-loop join.
-/

namespace BusTub

open BatchSource
open TransitionSystem (graph)

/-! ### The rewrite -/

structure SeqScanPlanNode where
  outputSchema : Schema
  filterPredicate : Predicate

/-- The filter of the scan has no place in it. -/
structure NestedIndexJoinPlanNode where
  keyPredicate : Expression
  index : IndexInfo
  innerTableSchema : Schema
  joinType : JoinType

/-- What `OptimizeNLJAsIndexJoin` makes of a join whose right child is this scan. -/
def NestedLoopJoinPlanNode.asIndexJoin (node : NestedLoopJoinPlanNode)
    (rightSeqScan : SeqScanPlanNode) (indexes : List IndexInfo) : Option NestedIndexJoinPlanNode :=
  match node.predicate with
  | .comparison (.columnValue leftIdx leftCol leftType)
      (.columnValue rightIdx rightCol rightType) .equal =>
      if leftIdx = .left ∧ rightIdx = .right then
        (matchIndex indexes rightCol).map fun index =>
          { keyPredicate := .columnValue .left leftCol leftType, index := index,
            innerTableSchema := rightSeqScan.outputSchema, joinType := node.joinType }
      else if leftIdx = .right ∧ rightIdx = .left then
        (matchIndex indexes leftCol).map fun index =>
          { keyPredicate := .columnValue .left rightCol rightType, index := index,
            innerTableSchema := rightSeqScan.outputSchema, joinType := node.joinType }
      else none
  | _ => none

/-! ### The executor -/

structure InnerTable where
  scanKey : Nat → Value → List RID
  getTuple : Nat → RID → TupleMeta × Tuple

/-- The key that the tree reads out of `Tuple({value}, key_schema)`, four bytes for
an INTEGER column: a narrower value leaves the upper ones zero, a wider one is
written over their end, `none`. -/
def indexKey (value : Value) : Option Value :=
  match value.typeId, value.datum with
  | .integer, some (.number number) => some (Value.integer number)
  | .smallint, some (.number number) => some (Value.integer (number % 2 ^ 16))
  | .tinyint, some (.number number) | .boolean, some (.number number) =>
      some (Value.integer (number % 2 ^ 8))
  | _, _ => none

namespace InnerTable

def fetchAll (inner : InnerTable) : Nat → List RID → List Tuple
  | _, [] => []
  | looks, rid :: rids =>
      let (metadata, tuple) := inner.getTuple looks rid
      if metadata.isDeleted then fetchAll inner (looks + 1) rids
      else tuple :: fetchAll inner (looks + 1) rids

def newest (inner : InnerTable) (looks : Nat) (rids : List RID) : List Tuple :=
  (rids.zipIdx looks).filterMap fun (rid, look) =>
    if (inner.getTuple look rid).1.isDeleted then none else some (inner.getTuple look rid).2

theorem fetch_all_newest (inner : InnerTable) (looks : Nat) (rids : List RID) :
    inner.fetchAll looks rids = inner.newest looks rids := by
  induction rids generalizing looks with
  | nil => rfl
  | cons rid rids ih =>
      unfold fetchAll
      rw [ih (looks + 1), newest, newest, List.zipIdx_cons, List.filterMap_cons]
      cases deleted : (inner.getTuple looks rid).1.isDeleted <;> simp [deleted]

end InnerTable

namespace NestedIndexJoinPlanNode
variable (plan : NestedIndexJoinPlanNode) (inner : InnerTable) {outer : Row}

/-- The inner tuples for one outer tuple, and the number of looks taken by then. An
index of another type than the tree leaves `tree_` null. -/
def probe (looks : Nat) (outer : Row) : Option (List Tuple × Nat) := do
  let keyValue ← plan.keyPredicate.evaluate outer.values
  if keyValue.isNull then return ([], looks)
  else if plan.index.indexType = .bPlusTree then
    let key ← indexKey keyValue
    let rids := inner.scanKey looks key
    return (inner.fetchAll (looks + 1) rids, looks + 1 + rids.length)
  else none

def looksFor (looks : Nat) (outer : Row) : Nat :=
  match (plan.keyPredicate.evaluate outer.values).bind indexKey with
  | some key => looks + 1 + (inner.scanKey looks key).length
  | none => looks

def looksBefore (before : List Row) : Nat := before.foldl (plan.looksFor inner) 0

theorem probe_null {plan : NestedIndexJoinPlanNode} {inner : InnerTable} {keyValue : Value}
    (looks : Nat) (evaluated : plan.keyPredicate.evaluate outer.values = some keyValue)
    (null : keyValue.datum = none) :
    plan.probe inner looks outer = some ([], plan.looksFor inner looks outer) := by
  have noKey : indexKey keyValue = none := by
    unfold indexKey
    rw [null]
    split <;> simp_all
  have isNull : keyValue.isNull = true := by simp [Value.isNull, null]
  simp [probe, looksFor, evaluated, noKey, isNull]

theorem probe_key {plan : NestedIndexJoinPlanNode} {inner : InnerTable} {keyValue key : Value}
    (looks : Nat) (evaluated : plan.keyPredicate.evaluate outer.values = some keyValue)
    (tree : plan.index.indexType = .bPlusTree) (brings : keyValue.datum ≠ none)
    (made : indexKey keyValue = some key) :
    plan.probe inner looks outer =
      some (inner.newest (looks + 1) (inner.scanKey looks key),
        plan.looksFor inner looks outer) := by
  have notNull : keyValue.isNull = false := by
    cases there : keyValue.datum with
    | none => exact absurd there brings
    | some datum => simp [Value.isNull, there]
  simp [probe, looksFor, evaluated, made, notNull, tree, InnerTable.fetch_all_newest]

def joinTuples (outer : Row) (found : List Tuple) : Option (List (Row × RID)) := do
  let joined ← found.mapM fun tuple =>
    buildJoinTuple plan.innerTableSchema outer (some { values := tuple })
  if found.isEmpty && plan.joinType = .left then
    let padded ← buildJoinTuple plan.innerTableSchema outer none
    return joined ++ [padded]
  else return joined

def joinOuter (looks : Nat) (outer : Row) : Option (List (Row × RID) × Nat) := do
  let (found, looks) ← plan.probe inner looks outer
  let joined ← plan.joinTuples outer found
  return (joined, looks)

end NestedIndexJoinPlanNode

structure NestedIndexState (child : Executor) where
  outer : Cursor child
  looks : Nat := 0

/-- The loop of `NestedIndexJoinExecutor::Next`; the tuples found for an outer tuple
are pushed at once, however many there are. -/
def nestedIndexFetch (plan : NestedIndexJoinPlanNode) (inner : InnerTable) (child : Executor)
    (size : Nat) :
    Nat → NestedIndexState child → List (Row × RID) →
      Option (List (Row × RID) × NestedIndexState child)
  | 0, _, _ => none
  | rounds + 1, state, out =>
      if size ≤ out.length then some (out, state)
      else do
        let (row, cursor) ← state.outer.advance
        match row with
        | none => return (out, { state with outer := cursor })
        | some outer =>
            let (joined, looks) ← plan.joinOuter inner state.looks outer
            nestedIndexFetch plan inner child size rounds { outer := cursor, looks := looks }
              (out ++ joined)

def nestedIndexJoinExecutor (fuel : Nat) (plan : NestedIndexJoinPlanNode) (inner : InnerTable)
    (child : Executor) :
    Executor where
  State := NestedIndexState child
  fresh := { outer := { state := child.fresh } }
  init state := (child.init state.outer.state).map fun started =>
    { state with outer := { state := started } }
  next state size := do
    let (out, state) ← nestedIndexFetch plan inner child size fuel state []
    return (handOut out, state)

section Fetching
variable {plan : NestedIndexJoinPlanNode} {inner : InnerTable} {child : Executor} {strict : Bool}

namespace NestedIndexJoinPlanNode

def joinAll (plan : NestedIndexJoinPlanNode) (inner : InnerTable) :
    Nat → List Row → Option (List (Row × RID) × Nat)
  | looks, [] => some ([], looks)
  | looks, outer :: outers => do
      let (joined, looks) ← plan.joinOuter inner looks outer
      let (rows, looks) ← joinAll plan inner looks outers
      return (joined ++ rows, looks)

theorem join_all_cons {looks after : Nat} {outer : Row} {outers : List Row}
    {rows : List (Row × RID)} :
    plan.joinAll inner looks (outer :: outers) = some (rows, after) ↔ ∃ joined middle rest,
      plan.joinOuter inner looks outer = some (joined, middle) ∧
        plan.joinAll inner middle outers = some (rest, after) ∧ rows = joined ++ rest := by
  constructor
  · intro all
    simp only [joinAll, Option.bind_eq_bind, Option.bind_eq_some_iff] at all
    obtain ⟨⟨joined, middle⟩, here, ⟨rest, last⟩, later, same⟩ := all
    obtain ⟨rfl, rfl⟩ := Prod.mk.inj (Option.some.inj same)
    exact ⟨joined, middle, rest, here, later, rfl⟩
  · rintro ⟨joined, middle, rest, here, later, rfl⟩
    simp [joinAll, here, later]

theorem join_all_append {looks after : Nat} {front back : List Row} {rows : List (Row × RID)} :
    plan.joinAll inner looks (front ++ back) = some (rows, after) ↔ ∃ first middle rest,
      plan.joinAll inner looks front = some (first, middle) ∧
        plan.joinAll inner middle back = some (rest, after) ∧ rows = first ++ rest := by
  induction front generalizing looks rows with
  | nil => simp [joinAll]
  | cons outer front ih =>
      rw [List.cons_append, join_all_cons]
      constructor
      · rintro ⟨joined, middle, rest, here, later, rfl⟩
        obtain ⟨first, between, last, before, behind, rfl⟩ := ih.mp later
        exact ⟨_, between, last, join_all_cons.mpr ⟨joined, middle, first, here, before, rfl⟩,
            behind, by simp⟩
      · rintro ⟨first, between, last, before, behind, rfl⟩
        obtain ⟨joined, middle, rest, here, later, rfl⟩ := join_all_cons.mp before
        exact ⟨joined, middle, rest ++ last, here, ih.mpr ⟨rest, between, last, later, behind, rfl⟩,
          by simp⟩

end NestedIndexJoinPlanNode

/-- A loop that has come back has joined the first outer tuples, and all of them
unless the batch is full. -/
theorem index_fetch_joined {size : Nat} (rounds : Nat) {state after : NestedIndexState child}
    {outers : List Row} {out made : List (Row × RID)} (comes : Comes strict state.outer outers)
    (fetched : nestedIndexFetch plan inner child size rounds state out = some (made, after)) :
    ∃ front back rows, outers = front ++ back ∧
      plan.joinAll inner state.looks front = some (rows, after.looks) ∧ made = out ++ rows ∧
        Comes strict after.outer back ∧ (size ≤ made.length ∨ back = []) := by
  induction rounds generalizing state outers out with
  | zero => simp [nestedIndexFetch] at fetched
  | succ rounds ih =>
      unfold nestedIndexFetch at fetched
      by_cases full : size ≤ out.length
      · obtain ⟨rfl, rfl⟩ : out = made ∧ state = after := by simpa [full] using fetched
        exact ⟨[], outers, [], rfl, rfl, (List.append_nil out).symm, comes, Or.inl full⟩
      · obtain ⟨cursor, advanced, comes⟩ := advance_spec comes
        simp only [full, ↓reduceIte, advanced, Option.bind_eq_bind, Option.bind_some] at fetched
        cases outers with
        | nil =>
            obtain ⟨rfl, rfl⟩ := Prod.mk.inj (Option.some.inj fetched)
            exact ⟨[], [], [], rfl, rfl, (List.append_nil out).symm, comes, Or.inr rfl⟩
        | cons outer outers =>
            simp only [List.head?_cons, Option.bind_eq_some_iff] at fetched
            obtain ⟨⟨joined, looks⟩, here, fetched⟩ := fetched
            obtain ⟨front, back, rows, rfl, later, rfl, comes, ends⟩ := ih comes fetched
            refine ⟨outer :: front, back, joined ++ rows, rfl, ?_, by simp, comes, ends⟩
            exact NestedIndexJoinPlanNode.join_all_cons.mpr ⟨joined, looks, rows, here, later, rfl⟩

theorem index_fetch_returns {size rounds : Nat} {state : NestedIndexState child} {outers : List Row}
    {out rest : List (Row × RID)} {last : Nat} (comes : Comes strict state.outer outers)
    (all : plan.joinAll inner state.looks outers = some (rest, last))
    (enough : outers.length < rounds) :
    ∃ made after, nestedIndexFetch plan inner child size rounds state out = some (made, after) := by
  induction rounds generalizing state outers out rest with
  | zero => omega
  | succ rounds ih =>
      unfold nestedIndexFetch
      by_cases full : size ≤ out.length
      · exact ⟨out, state, by simp [full]⟩
      · obtain ⟨cursor, advanced, comes⟩ := advance_spec comes
        simp only [full, ↓reduceIte, advanced, Option.bind_eq_bind, Option.bind_some]
        cases outers with
        | nil => exact ⟨out, _, rfl⟩
        | cons outer outers =>
            obtain ⟨joined, looks, rows, here, later, -⟩ :=
              NestedIndexJoinPlanNode.join_all_cons.mp all
            simp only [List.head?_cons, here, Option.bind_some]
            exact @ih { outer := cursor, looks := looks } outers _ rows comes later
              (by simp only [List.length_cons] at enough; omega)

theorem index_join_delivers {fuel last : Nat} {state : NestedIndexState child} {outers : List Row}
    {rest : List (Row × RID)} (comes : Comes strict state.outer outers)
    (joined : plan.joinAll inner state.looks outers = some (rest, last))
    (enough : outers.length < fuel) :
    (nestedIndexJoinExecutor fuel plan inner child).Delivers false state rest := by
  apply delivers_of fun (now : NestedIndexState child) rest =>
    ∃ outers, Comes strict now.outer outers ∧ plan.joinAll inner now.looks outers =
      some (rest, last) ∧ outers.length < fuel
  · rintro now rest size ⟨outers, comes, joined, enough⟩ positive
    obtain ⟨made, after, fetched⟩ :=
      @index_fetch_returns plan inner child strict size fuel now outers
        [] rest last comes joined enough
    obtain ⟨front, back, rows, rfl, before, same, comes, ends⟩ :=
      index_fetch_joined fuel comes fetched
    obtain rfl : made = rows := same
    obtain ⟨first, middle, left, before', behind, rfl⟩ :=
      NestedIndexJoinPlanNode.join_all_append.mp joined
    obtain ⟨rfl, rfl⟩ : made = first ∧ after.looks = middle := by simpa [before] using before'
    refine ⟨handOut made, after, left,
        by simp [nestedIndexJoinExecutor, fetched], ?_, (by simp), back, comes, behind, ?_⟩
    · apply answers_pushed rfl
      intro empty
      rcases ends with full | rfl
      · rw [empty, List.length_nil] at full
        omega
      · exact (Prod.mk.inj (Option.some.inj behind)).1.symm
    · rw [List.length_append] at enough
      omega
  · exact ⟨outers, comes, joined, enough⟩

end Fetching

/-! ### Agreement -/

/-- The values that stand for the right side of an outer row: in a LEFT join NULLs
where nothing was found. -/
def rightSides (joinType : JoinType) (schema : Schema) (found : List Tuple) : List Tuple :=
  if found.isEmpty && joinType = .left then [schema.map fun typeId => ⟨typeId, none⟩] else found

def beside (outer : Row) (values : Tuple) : Row × RID :=
  (⟨outer.values ++ values, RID.invalid⟩, RID.invalid)

theorem matched_beside (schema : Schema) (outer : Row) (found : List Tuple) :
    (found.mapM fun tuple => buildJoinTuple schema outer (some { values := tuple })) =
      some (found.map (beside outer)) := by
  induction found with
  | nil => rfl
  | cons tuple found ih =>
      rw [List.mapM_cons, ih]
      rfl

theorem join_tuples_beside {plan : NestedIndexJoinPlanNode} {outer : Row} {found : List Tuple}
    (pads : plan.joinType = .left → found = [] → HasNulls plan.innerTableSchema) :
    plan.joinTuples outer found =
      some ((rightSides plan.joinType plan.innerTableSchema found).map (beside outer)) := by
  unfold NestedIndexJoinPlanNode.joinTuples
  rw [matched_beside]
  cases found with
  | nil =>
      by_cases padded : plan.joinType = .left
      · simp [rightSides, padded, build_padded (pads padded rfl), joinTuple, beside]
      · simp [rightSides, padded]
  | cons tuple found => simp [rightSides]

namespace NestedLoopJoinPlanNode

def scanned (rightSeqScan : SeqScanPlanNode) (view : TableView) : List (Row × RID) :=
  view.rids.filterMap (scanRow view.visible rightSeqScan.filterPredicate)

def matching (node : NestedLoopJoinPlanNode) (rightSeqScan : SeqScanPlanNode) (view : TableView)
    (outer : Row) : List Tuple :=
  view.rids.filterMap fun rid => (view.visible rid).filter fun values =>
    rightSeqScan.filterPredicate.accepts values && node.answer outer ⟨values, rid⟩ =
      some (some true)

theorem accepted_matching (node : NestedLoopJoinPlanNode) (rightSeqScan : SeqScanPlanNode)
    (view : TableView) (outer : Row) :
    (((scanned rightSeqScan view).map Prod.fst).filter fun right =>
      decide ((node.plan rightSeqScan.outputSchema).predicate outer.values right.values =
        some true)).map
        Row.values = node.matching rightSeqScan view outer := by
  have answers (right : Row) : (node.plan rightSeqScan.outputSchema).predicate outer.values
      right.values =
      some true ↔ node.answer outer right = some (some true) := Option.join_eq_some_iff
  unfold scanned matching
  induction view.rids with
  | nil => rfl
  | cons rid rids ih =>
      cases visible : view.visible rid with
      | none => simpa [List.filterMap_cons, scanRow, visible] using ih
      | some values =>
          by_cases accepts : rightSeqScan.filterPredicate.accepts values = true
          · by_cases answer : node.answer outer ⟨values, rid⟩ = some (some true)
            · simpa [List.filterMap_cons, Option.filter_some, scanRow, visible, accepts, answer,
                answers] using ih
            · simpa [List.filterMap_cons, Option.filter_some, scanRow, visible, accepts, answer,
                answers] using ih
          · simpa [List.filterMap_cons, Option.filter_some, scanRow, visible, accepts] using ih

theorem relational_beside (node : NestedLoopJoinPlanNode) (rightSeqScan : SeqScanPlanNode)
    (view : TableView) (outer : Row) :
    relationalJoin (node.plan rightSeqScan.outputSchema) [outer]
      ((scanned rightSeqScan view).map Prod.fst) =
      (rightSides node.joinType rightSeqScan.outputSchema
        (node.matching rightSeqScan view outer)).map
        (beside outer) := by
  rw [relationalJoin, List.flatMap_singleton, ← accepted_matching]
  dsimp only
  generalize ((scanned rightSeqScan view).map Prod.fst).filter (fun right =>
    decide ((node.plan rightSeqScan.outputSchema).predicate outer.values right.values =
      some true)) = rows
  cases rows with
  | nil =>
      by_cases padded : node.joinType = .left
      · simp [rightSides, padded, plan, joinTuple, beside]
      · simp [rightSides, padded, plan]
  | cons right rows => simp [rightSides, plan, joinTuple, beside]

end NestedLoopJoinPlanNode

section Agreement
variable {node : NestedLoopJoinPlanNode} {rightSeqScan : SeqScanPlanNode}
  {plan : NestedIndexJoinPlanNode} {inner : InnerTable} {view : TableView}
  {indexes : List IndexInfo} {outer : Row} {outers : List Row}

/-- Over any child that brings these outer rows neither join throws, and they hand
out the same rows. -/
def IndexJoinAgrees (node : NestedLoopJoinPlanNode) (rightSeqScan : SeqScanPlanNode)
    (plan : NestedIndexJoinPlanNode) (inner : InnerTable) (view : TableView)
    (outers : List Row) : Prop :=
  (∀ outer ∈ outers, ∀ right ∈ NestedLoopJoinPlanNode.scanned rightSeqScan view,
    (node.answer outer right.1).isSome) ∧
  ∀ (child : Executor) (rows : List (Row × RID)), rows.map Prod.fst = outers →
    (∃ started, child.init child.fresh = some started ∧ child.Delivers false started rows) →
    ∃ bound, ∀ fuel, bound ≤ fuel → ∃ joined others,
      (∃ started, (nestedIndexJoinExecutor fuel plan inner child).init
          (nestedIndexJoinExecutor fuel plan inner child).fresh = some started ∧
        (nestedIndexJoinExecutor fuel plan inner child).Delivers false started joined) ∧
      Outputs (nestedLoopJoinExecutor fuel (node.plan rightSeqScan.outputSchema) child
        (seqScanExecutor view rightSeqScan.filterPredicate)) others ∧
      joined.Perm others

theorem rewritten_same (rewritten : node.asIndexJoin rightSeqScan indexes = some plan) :
    plan.joinType = node.joinType ∧ plan.innerTableSchema = rightSeqScan.outputSchema := by
  unfold NestedLoopJoinPlanNode.asIndexJoin at rewritten
  split at rewritten
  · split_ifs at rewritten
    · obtain ⟨index, -, rfl⟩ := Option.map_eq_some_iff.mp rewritten
      exact ⟨rfl, rfl⟩
    · obtain ⟨index, -, rfl⟩ := Option.map_eq_some_iff.mp rewritten
      exact ⟨rfl, rfl⟩
  · cases rewritten

/-- The outer rows one after the other: each is joined where the looks for those before it end. -/
theorem join_all_relational {node : NestedLoopJoinPlan} {rights : List Row}
    (joins : ∀ before outer, before ++ [outer] <+: outers →
      plan.joinOuter inner (plan.looksBefore inner before) outer =
        some (relationalJoin node [outer] rights, plan.looksBefore inner (before ++ [outer]))) :
    plan.joinAll inner 0 outers =
      some (relationalJoin node outers rights, plan.looksBefore inner outers) := by
  induction outers using List.reverseRecOn with
  | nil => rfl
  | append_singleton before outer ih =>
      have earlier := ih fun front other within =>
        joins front other (within.trans (List.prefix_append _ _))
      have here := joins before outer (List.prefix_refl _)
      apply NestedIndexJoinPlanNode.join_all_append.mpr
      refine ⟨_, _, relationalJoin node [outer] rights, earlier, ?_, by simp [relationalJoin]⟩
      exact NestedIndexJoinPlanNode.join_all_cons.mpr ⟨_, _, [], here, rfl,
        (List.append_nil _).symm⟩

/-- An outer row whose probe finds the tuples that match is joined as the nested-loop join does
it. -/
theorem joined_matching (rewritten : node.asIndexJoin rightSeqScan indexes = some plan)
    {looks after : Nat}
    (probed : plan.probe inner looks outer = some (node.matching rightSeqScan view outer, after))
    (pads : (node.plan rightSeqScan.outputSchema).Pads outer
      ((NestedLoopJoinPlanNode.scanned rightSeqScan view).map Prod.fst)) :
    plan.joinOuter inner looks outer =
      some (relationalJoin (node.plan rightSeqScan.outputSchema) [outer]
        ((NestedLoopJoinPlanNode.scanned rightSeqScan view).map Prod.fst), after) := by
  obtain ⟨sameType, sameSchema⟩ := rewritten_same rewritten
  have nulls : plan.joinType = .left → node.matching rightSeqScan view outer = [] →
      HasNulls plan.innerTableSchema := by
    intro left none
    rw [← NestedLoopJoinPlanNode.accepted_matching, List.map_eq_nil_iff, List.filter_eq_nil_iff]
      at none
    rw [sameSchema]
    refine pads (sameType.symm.trans left) fun right member => ?_
    have refused := none right member
    rw [decide_eq_true_eq] at refused
    rw [NestedLoopJoinPlan.accepts, holds, decide_eq_false_iff_not]
    exact refused
  rw [NestedLoopJoinPlanNode.relational_beside, ← sameType, ← sameSchema]
  simp [NestedIndexJoinPlanNode.joinOuter, probed, join_tuples_beside nulls]

theorem scan_restarts (state : (seqScanExecutor view rightSeqScan.filterPredicate).State) :
    ∃ started, (seqScanExecutor view rightSeqScan.filterPredicate).init state = some started ∧
      (seqScanExecutor view rightSeqScan.filterPredicate).Delivers false started
        (NestedLoopJoinPlanNode.scanned rightSeqScan view) :=
  ⟨_, rfl, fun sizes positives =>
    meets_loose (seq_scan_delivers view rightSeqScan.filterPredicate sizes positives)⟩

theorem agrees_of
    (returns : ∀ outer ∈ outers, ∀ right ∈ NestedLoopJoinPlanNode.scanned rightSeqScan view,
      (node.answer outer right.1).isSome)
    (pads : ∀ outer ∈ outers, (node.plan rightSeqScan.outputSchema).Pads outer
      ((NestedLoopJoinPlanNode.scanned rightSeqScan view).map Prod.fst)) {last : Nat}
    (all : plan.joinAll inner 0 outers =
      some (relationalJoin (node.plan rightSeqScan.outputSchema) outers
      ((NestedLoopJoinPlanNode.scanned rightSeqScan view).map Prod.fst), last)) :
    IndexJoinAgrees node rightSeqScan plan inner view outers := by
  refine ⟨returns, ?_⟩
  rintro child listed rfl ⟨started, begun, brings⟩
  refine ⟨listed.length * ((NestedLoopJoinPlanNode.scanned rightSeqScan view).length + 2) +
    listed.length + 2, ?_⟩
  intro fuel enough
  have probes :=
    @index_join_delivers plan inner child false fuel last { outer := { state := started } }
      (listed.map Prod.fst) _ (started_comes brings) all (by rw [List.length_map]; omega)
  have loops := @padded_outputs (node.plan rightSeqScan.outputSchema) child
    (seqScanExecutor view rightSeqScan.filterPredicate) listed _ ⟨_, begun, brings⟩
    (fun state _ => scan_restarts state) fuel (by omega) pads
  exact ⟨_, _, ⟨_, by simp [nestedIndexJoinExecutor, begun], probes⟩, loops, List.Perm.refl _⟩

end Agreement

/-! ### Keys -/

/-- A key with which the tree does what the comparison does: a NULL, or a number that stands in
the four bytes which the tree reads. -/
def PlainKey (keyValue : Value) : Prop :=
  keyValue.typeId.checkComparable .integer = true ∧ ∀ datum, keyValue.datum = some datum →
    ∃ key : Int, datum = .number key ∧ indexKey keyValue = some (number key)

section Keys
variable {node : NestedLoopJoinPlanNode} {rightSeqScan : SeqScanPlanNode}
  {plan : NestedIndexJoinPlanNode} {indexes : List IndexInfo} {keyValue : Value} {outer right : Row}
  {column : Nat}

theorem plain_compare (plain : PlainKey keyValue) (value : Int) :
    keyValue.compare .equal (number value) =
        some (keyValue.datum.map fun datum => decide (datum = .number value)) ∧
      (number value).compare .equal keyValue =
        some (keyValue.datum.map fun datum => decide (datum = .number value)) := by
  obtain ⟨typeId, datum⟩ := keyValue
  obtain ⟨comparable, reads⟩ := plain
  cases datum with
  | none =>
      cases typeId <;> simp_all [Value.compare, number, TypeId.checkComparable, TypeId.isInteger]
  | some datum =>
      obtain ⟨key, rfl, made⟩ := reads datum rfl
      have integer : typeId = .tinyint ∨ typeId = .smallint ∨ typeId = .integer := by
        cases typeId <;> simp_all [indexKey, TypeId.checkComparable]
      have equal (left right : Int) :
          (ComparisonType.equal.admits (some (orderIntegers left right))) =
          decide (left = right) := by
        grind [orderIntegers, ComparisonType.admits]
      rcases integer with rfl | rfl | rfl <;>
        simp [Value.compare, number, TypeId.checkComparable, TypeId.isInteger, orderData,
          equal, eq_comm]

theorem matched_column {columns : List IndexInfo} {colIdx : Nat} {index : IndexInfo}
    (matched : matchIndex columns colIdx = some index) : index.keyAttrs = [colIdx] := by
  simpa using List.find?_some matched

/-- What the join predicate answers beside a row with a number in the column of the index. -/
theorem plain_answer (rewritten : node.asIndexJoin rightSeqScan indexes = some plan)
    (onColumn : plan.index.keyAttrs = [column])
    (evaluated : plan.keyPredicate.evaluate outer.values = some keyValue)
    (plain : PlainKey keyValue) {value : Int} (cell : right.values[column]? = some (number value)) :
    node.answer outer right =
      some (keyValue.datum.map fun datum => decide (datum = .number value)) := by
  obtain ⟨front, back⟩ := plain_compare plain value
  obtain ⟨joinType, predicate⟩ := node
  unfold NestedLoopJoinPlanNode.asIndexJoin at rewritten
  split at rewritten
  · rename_i leftIdx leftCol leftType rightIdx rightCol rightType shape
    obtain rfl : predicate = _ := shape
    split_ifs at rewritten with straight crossed
    · obtain ⟨index, matched, rfl⟩ := Option.map_eq_some_iff.mp rewritten
      obtain ⟨rfl, rfl⟩ := straight
      obtain ⟨rfl, -⟩ := List.cons.inj ((matched_column matched).symm.trans onColumn)
      have here : outer.values[leftCol]? = some keyValue := evaluated
      simp [NestedLoopJoinPlanNode.answer, Expression.evaluateJoin, Expression.evaluateOn,
        TupleIdx.pick, here, cell, front, Value.bool_of_boolean]
    · obtain ⟨index, matched, rfl⟩ := Option.map_eq_some_iff.mp rewritten
      obtain ⟨rfl, rfl⟩ := crossed
      obtain ⟨rfl, -⟩ := List.cons.inj ((matched_column matched).symm.trans onColumn)
      have here : outer.values[rightCol]? = some keyValue := evaluated
      simp [NestedLoopJoinPlanNode.answer, Expression.evaluateJoin, Expression.evaluateOn,
        TupleIdx.pick, here, cell, back, Value.bool_of_boolean]
  · cases rewritten

end Keys

/-! ### The join while others run -/

/-- The inner table of a join whose looks come in this course. A probe never looks for a NULL. -/
def innerTable (course : Nat → IndexedStore) : InnerTable where
  scanKey look key := (((course look).index.bind fun index => index.scanKey noKey key).getD [])
  getTuple look rid := (((course look).history.mgr.heap.lookup rid).map fun slot =>
    (slot.metadata, slot.tuple)).getD (⟨0, true⟩, [])

/-- Each RID to which the index leads an outer row has, when it is looked at, a newest version that
the reader sees. -/
def NewestSeen (plan : NestedIndexJoinPlanNode) (course : Nat → IndexedStore) (id : TxnId)
    (readTs : Timestamp) (outers : List Row) : Prop :=
  ∀ before outer key, before ++ [outer] <+: outers →
    (plan.keyPredicate.evaluate outer.values).bind indexKey = some key →
    ∀ rid ∈ (innerTable course).scanKey (plan.looksBefore (innerTable course) before) key, ∀ slot,
      (course (plan.looksBefore (innerTable course) before + 1)).history.mgr.heap.lookup rid =
        some slot → slot.metadata.ts ≤ readTs ∨ slot.metadata.ts = id

section Probes
variable {table : TableInfo} {start store next : IndexedStore} {id : TxnId} {txn : Transaction}
  {view : TableView} {column : Nat} {map : UnorderedMap Tuple RID} {course : Nat → IndexedStore}
  {node : NestedLoopJoinPlanNode} {rightSeqScan : SeqScanPlanNode} {plan : NestedIndexJoinPlanNode}
  {indexes : List IndexInfo} {outer : Row} {keyValue : Value} {key : Int}

theorem filter_map_one {α β : Type} [DecidableEq α] {list : List α} (unlike : list.Nodup)
    (target : Option α) (find : α → Option β)
    (inside : ∀ item, target = some item → (find item).isSome → item ∈ list) :
    list.filterMap (fun item => if target = some item then find item else none) =
      (target.bind find).toList := by
  cases target with
  | none => simp
  | some item =>
      by_cases member : item ∈ list
      · obtain ⟨front, back, rfl⟩ := List.append_of_mem member
        have apart := List.nodup_middle.mp unlike
        rw [List.nodup_cons, List.mem_append, not_or] at apart
        obtain ⟨⟨notFront, notBack⟩, -⟩ := apart
        have others (part : List α) (missing : item ∉ part) :
            part.filterMap (fun other => if some item = some other then find other else none) =
              [] := by
          rw [List.filterMap_eq_nil_iff]
          intro other there
          have apart : item ≠ other := fun same => missing (same ▸ there)
          simp [apart]
        rw [List.filterMap_append, List.filterMap_cons, others front notFront, others back notBack]
        cases here : find item <;> simp [here]
      · have nothing : find item = none := by
          cases here : find item with
          | none => rfl
          | some found => exact absurd (inside item rfl (by simp [here])) member
        rw [Option.bind_some, nothing, Option.toList_none, List.filterMap_eq_nil_iff]
        intro other _
        by_cases same : item = other
        · subst same
          simp [nothing]
        · simp [same]

/-- A row that is shown at the beginning has a number in the column, under which the index of any
later store has its RID. -/
theorem shown_later (begun : Inv start.history) (live : start.history.Live id txn)
    (shown : Shown table start.history id view) (steady : Steady table id txn.readTs start store)
    (keyed : IndexKeyed table store map) (onColumn : table.keyAttrs = [column]) {rid : RID}
    (member : rid ∈ view.rids) {values : Tuple} (visible : view.visible rid = some values) :
    ∃ value : Int, values[column]? = some (number value) ∧
      map.lookup [number value] = some rid := by
  rw [shown_sees begun live shown member] at visible
  obtain ⟨slot, found, sameOid⟩ := table_rid (shown.rids.mem_iff.mp member)
  obtain ⟨slot', now, same⟩ := steady.tables rid slot found
  have there : InTable table store.history rid := ⟨slot', now, same.trans sameOid⟩
  obtain ⟨txn', live', same⟩ := steady.reader.live
  rw [← steady.sees rid there, ← same] at visible
  exact listed_under_number onColumn (sees_listed keyed live' steady.reader.idle there visible)

/-- The rows that match an outer key are what the reader sees at the RID that the index has for
the key. -/
theorem matching_looked_up (begun : Inv start.history) (live : start.history.Live id txn)
    (shown : Shown table start.history id view) (steady : Steady table id txn.readTs start store)
    (keyed : IndexKeyed table store map)
    (rewritten : node.asIndexJoin rightSeqScan indexes = some plan)
    (ofTable : plan.index.keyAttrs = table.keyAttrs) (onColumn : table.keyAttrs = [column])
    (evaluated : plan.keyPredicate.evaluate outer.values = some keyValue)
    (plain : PlainKey keyValue) (isKey : keyValue.datum = some (.number key))
    (accepts : ∀ rid ∈ view.rids, ∀ values, view.visible rid = some values →
      node.answer outer ⟨values, rid⟩ = some (some true) →
      rightSeqScan.filterPredicate.accepts values = true) :
    node.matching rightSeqScan view outer = ((map.lookup [number key]).bind fun rid =>
      start.history.ledger.sees id txn.readTs rid).toList := by
  have unlike : view.rids.Nodup := shown.rids.nodup_iff.mpr (table_rids_nodup _)
  rw [← filter_map_one unlike]
  · apply List.filterMap_congr
    intro rid member
    rw [← shown_sees begun live shown member]
    cases visible : view.visible rid with
    | none => simp
    | some values =>
        obtain ⟨value, cell, entered⟩ :=
          shown_later begun live shown steady keyed onColumn member visible
        have answered : node.answer outer ⟨values, rid⟩ = some (some (decide (key = value))) := by
          rw [@plain_answer node rightSeqScan plan indexes keyValue outer ⟨values, rid⟩ column
            rewritten (ofTable.trans onColumn) evaluated plain value cell, isKey]
          simp
        by_cases same : key = value
        · subst same
          have passes := accepts rid member values visible (by simpa using answered)
          simp [entered, passes, answered, Option.filter_some]
        · have apart : map.lookup [number key] ≠ some rid := by
            intro other
            have equal := keyed.unique _ _ _ other entered
            exact same (number_injective (List.cons.inj equal).1)
          simp [apart, answered, same, Option.filter_some]
  · intro rid entered seen
    obtain ⟨slot, found, sameOid⟩ := keyed.slots _ _ entered
    cases was : start.history.mgr.heap.lookup rid with
    | none =>
        rw [nothing_seen begun was] at seen
        cases seen
    | some before =>
        obtain ⟨slot', now, same⟩ := steady.tables rid before was
        obtain rfl := Option.some.inj (found.symm.trans now)
        apply shown.rids.mem_iff.mpr
        have inside : (⟨rid, before⟩ : Sigma fun _ : RID => Slot) ∈
          start.history.mgr.heap.entries.filter fun entry => entry.2.oid = table.oid :=
          List.mem_filter.mpr ⟨AList.mem_lookup_iff.mp was, by simpa using same.symm.trans sameOid⟩
        exact List.mem_map_of_mem inside

/-- What the join fetches for a key is what the reader sees there, when that is the newest
version. -/
theorem newest_looked_up {look : Nat}
    (steady : Steady table id txn.readTs start (course (look + 1)))
    (tables : SameTables (course look).history (course (look + 1)).history)
    (atRest : ((course (look + 1)).history.mgr.control id).atRest = true) {index : TableIndex}
    (created : (course look).index = some index) (represents : index.Represents map)
    (keyed : IndexKeyed table (course look) map)
    (current : ∀ rid ∈ (innerTable course).scanKey look (number key), ∀ slot,
      (course (look + 1)).history.mgr.heap.lookup rid = some slot →
      slot.metadata.ts ≤ txn.readTs ∨ slot.metadata.ts = id) :
    (innerTable course).newest (look + 1) ((innerTable course).scanKey look (number key)) =
      ((map.lookup [number key]).bind fun rid =>
        start.history.ledger.sees id txn.readTs rid).toList := by
  have scanned : (innerTable course).scanKey look (number key) =
      (map.lookup [number key]).toList := by
    simp only [innerTable, created, Option.bind_some, (represents_probes represents noKey).keys,
      Option.getD_some]
  rw [scanned] at current ⊢
  cases entered : map.lookup [number key] with
  | none => rfl
  | some rid =>
      obtain ⟨slot, found, sameOid⟩ := keyed.slots _ _ entered
      obtain ⟨slot', now, same⟩ := tables rid slot found
      obtain ⟨txn', live, sameTs⟩ := steady.reader.live
      have early := current rid (by simp [entered]) slot' now
      rw [← sameTs] at early
      have sees := newest_sees steady.inv.inv live atRest now early
      rw [sameTs, steady.sees rid ⟨slot', now, same.trans sameOid⟩] at sees
      simp only [Option.bind_some, sees]
      cases deleted : slot'.metadata.isDeleted <;>
        simp [InnerTable.newest, innerTable, now, deleted]

theorem rewritten_column (rewritten : node.asIndexJoin rightSeqScan indexes = some plan) :
    ∃ column, plan.index.keyAttrs = [column] := by
  unfold NestedLoopJoinPlanNode.asIndexJoin at rewritten
  split at rewritten
  · split_ifs at rewritten
    · obtain ⟨index, matched, rfl⟩ := Option.map_eq_some_iff.mp rewritten
      exact ⟨_, matched_column matched⟩
    · obtain ⟨index, matched, rfl⟩ := Option.map_eq_some_iff.mp rewritten
      exact ⟨_, matched_column matched⟩
  · cases rewritten

theorem null_matches_nothing
    (answers : ∀ rid ∈ view.rids, ∀ values, view.visible rid = some values →
      node.answer outer ⟨values, rid⟩ = some none) : node.matching rightSeqScan view outer =
      [] := by
  rw [NestedLoopJoinPlanNode.matching, List.filterMap_eq_nil_iff]
  intro rid member
  cases visible : view.visible rid with
  | none => rfl
  | some values => simp [Option.filter_some, answers rid member values visible]

end Probes

/-- In every course of the table that keeps the keys. -/
theorem index_join_agrees (catalog : TableOid → Schema) (table : TableInfo) (id : TxnId)
    (course : Nat → IndexedStore) (goes : Course catalog table id course) (txn : Transaction)
    (found : (course 0).history.mgr.txnMap.lookup id = some txn) (running : txn.state = .running)
    (idle : (course 0).entering id = none) (view : TableView)
    (shown : Shown table (course 0).history id view) (node : NestedLoopJoinPlanNode)
    (rightSeqScan : SeqScanPlanNode) (indexes : List IndexInfo) (plan : NestedIndexJoinPlanNode)
    (rewritten : node.asIndexJoin rightSeqScan indexes = some plan)
    (ofTable : plan.index.keyAttrs = table.keyAttrs) (tree : plan.index.indexType = .bPlusTree)
    (container : BPlusTree.Tree IndexKey RID)
    (created : (course 0).index = some (.bPlusTree container)) (outers : List Row)
    (keys : ∀ outer ∈ outers, ∃ keyValue,
      plan.keyPredicate.evaluate outer.values = some keyValue ∧ PlainKey keyValue)
    (accepts : ∀ outer ∈ outers, ∀ rid ∈ view.rids, ∀ values, view.visible rid = some values →
      node.answer outer ⟨values, rid⟩ = some (some true) →
      rightSeqScan.filterPredicate.accepts values = true)
    (pads : ∀ outer ∈ outers, (node.plan rightSeqScan.outputSchema).Pads outer
      ((NestedLoopJoinPlanNode.scanned rightSeqScan view).map Prod.fst))
    (current : NewestSeen plan course id txn.readTs outers) :
    IndexJoinAgrees node rightSeqScan plan (innerTable course) view outers := by
  have begun := keys_kept_inv goes.kept
  have live : (course 0).history.Live id txn := ⟨found, by simp [Transaction.live, running]⟩
  have steady := course_steady goes ⟨⟨txn, live, rfl⟩, idle⟩
  obtain ⟨column, onPlan⟩ := rewritten_column rewritten
  have onColumn : table.keyAttrs = [column] := ofTable.symm.trans onPlan
  -- the index as it is at a look
  have indexed (look : Nat) : ∃ index map, (course look).index = some index ∧ index.Represents map ∧
      IndexKeyed table (course look) map := by
    obtain ⟨index, there⟩ := Option.isSome_iff_exists.mp ((steady look).created (by simp [created]))
    obtain ⟨map, represents, keyed⟩ := (steady look).inv.keyed index there
    exact ⟨index, map, there, represents, keyed⟩
  have answers {outer : Row} {keyValue : Value}
    (evaluated : plan.keyPredicate.evaluate outer.values = some keyValue)
    (plain : PlainKey keyValue) {rid : RID} (member : rid ∈ view.rids) {values : Tuple}
    (visible : view.visible rid = some values) :
    ∃ value : Int, node.answer outer ⟨values, rid⟩ =
      some (keyValue.datum.map fun datum => decide (datum = .number value)) := by
    obtain ⟨index, map, -, -, keyed⟩ := indexed 0
    obtain ⟨value, cell, -⟩ :=
      shown_later begun.inv live shown (steady 0) keyed onColumn member visible
    exact ⟨value, @plain_answer node rightSeqScan plan indexes keyValue outer ⟨values, rid⟩ column
      rewritten onPlan evaluated plain value cell⟩
  refine agrees_of ?_ pads (join_all_relational fun before outer within => ?_)
  · intro outer member right inside
    obtain ⟨rid, there, scanned⟩ := List.mem_filterMap.mp inside
    obtain ⟨values, visible, -, rfl⟩ := scan_row_some.mp scanned
    obtain ⟨keyValue, evaluated, plain⟩ := keys outer member
    obtain ⟨value, answered⟩ := answers evaluated plain there visible
    simp [answered]
  · have member : outer ∈ outers := within.subset (by simp)
    obtain ⟨keyValue, evaluated, plain⟩ := keys outer member
    have goesOn : plan.looksBefore (innerTable course) (before ++ [outer]) =
        plan.looksFor (innerTable course) (plan.looksBefore (innerTable course) before) outer := by
      simp [NestedIndexJoinPlanNode.looksBefore]
    rw [goesOn]
    apply joined_matching rewritten _ (pads outer member)
    -- a NULL matches no row, and the join does not look it up
    cases brings : keyValue.datum with
    | none =>
        rw [null_matches_nothing fun rid there values visible => by
          obtain ⟨value, answered⟩ := answers evaluated plain there visible
          rw [answered, brings, Option.map_none]]
        exact NestedIndexJoinPlanNode.probe_null _ evaluated brings
    | some datum =>
        obtain ⟨key, rfl, made⟩ := plain.2 datum brings
        obtain ⟨index, map, there, represents, keyed⟩ :=
          indexed (plan.looksBefore (innerTable course) before)
        -- others run between the look at the index and the one at the heap
        obtain ⟨labels, run⟩ := goes.onward (plan.looksBefore (innerTable course) before)
        have here := steady (plan.looksBefore (innerTable course) before)
        have next := steady_run here.inv.inv run
          ⟨here.inv, here.reader, fun created => created, fun _ slot found => ⟨slot, found, rfl⟩,
            fun _ _ => rfl⟩
        rw [matching_looked_up begun.inv live shown here keyed rewritten ofTable onColumn
            evaluated plain brings (accepts outer member),
          ← newest_looked_up (steady _) next.tables (goes.atRest _) there represents keyed
            (current before outer (number key) within (by simp [evaluated, made]))]
        exact NestedIndexJoinPlanNode.probe_key _ evaluated tree (by simp [brings]) made

/-! ### Two runs -/

def sameColumn (joinType : JoinType) : NestedLoopJoinPlanNode where
  joinType := joinType
  predicate := .comparison (.columnValue .left 0 .integer) (.columnValue .right 0 .integer) .equal

def wholeTable : SeqScanPlanNode := ⟨[.integer], none⟩

def probeColumn (joinType : JoinType) : NestedIndexJoinPlanNode where
  keyPredicate := .columnValue .left 0 .integer
  index := columnInfo
  innerTableSchema := [.integer]
  joinType := joinType

theorem integer_plain (value : Option Int) (fits : ∀ key ∈ value, 0 ≤ key ∧ key < 2 ^ 31) :
    PlainKey ⟨.integer, value.map .number⟩ := by
  refine ⟨rfl, fun datum there => ?_⟩
  cases value with
  | none => cases there
  | some key =>
      obtain ⟨least, most⟩ := fits key rfl
      have same : key.bmod 4294967296 = key := Int.bmod_eq_of_le (by omega) (by omega)
      have notNull : key ≠ -2147483648 := by omega
      exact ⟨key, (Option.some.inj there).symm,
        by simp [indexKey, number, Value.integer, same, notNull]⟩

theorem nullable_keys {joinType : JoinType} {outers : List Row}
    (nullable : ∀ outer ∈ outers, ∃ value : Option Int,
      (∀ key ∈ value, 0 ≤ key ∧ key < 2 ^ 31) ∧ outer = nullableRow value) :
    ∀ outer ∈ outers, ∃ keyValue,
      (probeColumn joinType).keyPredicate.evaluate outer.values = some keyValue ∧
        PlainKey keyValue := by
  intro outer member
  obtain ⟨value, fits, rfl⟩ := nullable outer member
  exact ⟨_, rfl, integer_plain value fits⟩

theorem course_at_rest {store : IndexedStore} {id : TxnId}
    (kept : KeysKept oneColumn keyTable store)
    (atRest : (store.history.mgr.control id).atRest = true) :
    Course oneColumn keyTable id fun _ => store where
  kept := kept
  onward _ := ⟨[], .refl _⟩
  atRest _ := atRest

def someOuters : List Row := [nullableRow (some 1), nullableRow none, nullableRow (some 3)]

theorem own_rows_joined :
    IndexJoinAgrees (sameColumn .left) wholeTable (probeColumn .left)
      (innerTable fun _ => twoRowStore) (twoSlots [number 1] [number 2]) someOuters := by
  obtain ⟨container, created, -⟩ := two_entries_walked
  have nullable : ∀ outer ∈ someOuters, ∃ value : Option Int,
      (∀ key ∈ value, 0 ≤ key ∧ key < 2 ^ 31) ∧ outer = nullableRow value := by
    intro outer member
    simp only [someOuters, List.mem_cons, List.not_mem_nil, or_false] at member
    rcases member with rfl | rfl | rfl
    · exact ⟨some 1, by simp, rfl⟩
    · exact ⟨none, by simp, rfl⟩
    · exact ⟨some 3, by simp, rfl⟩
  have own : ∀ entry ∈ twoRowStore.history.mgr.heap.entries,
      entry.2.metadata.ts = TXN_START_ID := by
    decide
  refine index_join_agrees oneColumn keyTable TXN_START_ID (fun _ => twoRowStore)
    (course_at_rest two_rows_kept (by decide)) _ rfl rfl rfl (twoSlots [number 1] [number 2])
    two_rows_shown (sameColumn .left) wholeTable [columnInfo] (probeColumn .left) rfl rfl rfl
    container created someOuters (nullable_keys nullable) (fun _ _ _ _ _ _ _ => rfl)
    (fun _ _ _ _ => by decide) ?_
  intro before outer key _ _ rid _ slot found
  exact Or.inr (own _ (AList.mem_lookup_iff.mp found))

def uncommittedRow : List IndexedOp :=
  [.txn (.begin .snapshotIsolation), .txn (.begin .snapshotIsolation), .createIndex .bPlusTree [],
    .place (TXN_START_ID + 1) firstSlot [number 1], .enter (TXN_START_ID + 1)]

theorem uncommitted_row_returns : (plainRun uncommittedRow).isSome = true := by decide

def uncommittedStore : IndexedStore := (plainRun uncommittedRow).get uncommitted_row_returns

theorem uncommitted_row_kept : KeysKept oneColumn keyTable uncommittedStore :=
  plain_run_kept (Option.some_get uncommitted_row_returns).symm

def nothingSeen : TableView where
  rids := [firstSlot]
  visible _ := none

theorem nothing_shown : Shown keyTable uncommittedStore.history TXN_START_ID nothingSeen where
  rids := by decide
  reads := by
    intro rid member
    obtain rfl := List.mem_singleton.mp member
    exact reads_at_once rfl rfl

theorem uncommitted_index : ∃ container, uncommittedStore.index = some (.bPlusTree container) :=
  ⟨_, rfl⟩

/-- The index leads the join to the row, which the scan does not show. -/
theorem uncommitted_row_joined :
    ¬∀ (catalog : TableOid → Schema) (table : TableInfo) (id : TxnId) (course : Nat → IndexedStore),
      Course catalog table id course → ∀ txn, (course 0).history.mgr.txnMap.lookup id = some txn →
      txn.state = .running → (course 0).entering id = none →
      ∀ view, Shown table (course 0).history id view → ∀ node rightSeqScan indexes plan,
      NestedLoopJoinPlanNode.asIndexJoin node rightSeqScan indexes = some plan →
      plan.index.keyAttrs = table.keyAttrs → plan.index.indexType = .bPlusTree →
      ∀ container, (course 0).index = some (.bPlusTree container) → ∀ outers : List Row,
      (∀ outer ∈ outers, ∃ keyValue,
        plan.keyPredicate.evaluate outer.values = some keyValue ∧ PlainKey keyValue) →
      (∀ outer ∈ outers, ∀ rid ∈ view.rids, ∀ values, view.visible rid = some values →
        node.answer outer ⟨values, rid⟩ = some (some true) →
        rightSeqScan.filterPredicate.accepts values = true) →
      (∀ outer ∈ outers, (node.plan rightSeqScan.outputSchema).Pads outer
        ((NestedLoopJoinPlanNode.scanned rightSeqScan view).map Prod.fst)) →
      IndexJoinAgrees node rightSeqScan plan (innerTable course) view outers := by
  intro claim
  obtain ⟨container, created⟩ := uncommitted_index
  obtain ⟨-, agrees⟩ := claim oneColumn keyTable TXN_START_ID (fun _ => uncommittedStore)
    (course_at_rest uncommitted_row_kept (by decide)) _ rfl rfl rfl nothingSeen nothing_shown
    (sameColumn .inner) wholeTable [columnInfo] (probeColumn .inner) rfl rfl rfl container created
    [nullableRow (some 1)] (nullable_keys fun outer member =>
      ⟨some 1, by simp, List.mem_singleton.mp member⟩)
    (fun _ _ _ _ _ none => nomatch none) (fun _ _ inner => nomatch inner)
  let rows : List (Row × RID) := [(nullableRow (some 1), RID.invalid)]
  have brings := listed_delivers [nullableRow (some 1)] rows
  obtain ⟨bound, agrees⟩ := agrees (listedRows [nullableRow (some 1)]) rows rfl ⟨rows, rfl, brings⟩
  obtain ⟨joined, others, ⟨started, begun, delivers⟩, outputs, perm⟩ :=
    agrees (bound + 4) (Nat.le_add_right _ _)
  obtain rfl := Option.some.inj begun
  have all : (probeColumn .inner).joinAll (innerTable fun _ => uncommittedStore) 0
      (rows.map Prod.fst) =
      some ([beside (nullableRow (some 1)) [number 1]], 2) := by decide
  have probes := @index_join_delivers (probeColumn .inner) (innerTable fun _ => uncommittedStore)
    (listedRows [nullableRow (some 1)]) false (bound + 4) 2 { outer := { state := rows } } _ _
    (started_comes brings) all (by simp [rows])
  have loops := @padded_outputs ((sameColumn .inner).plan wholeTable.outputSchema)
    (listedRows [nullableRow (some 1)]) (seqScanExecutor nothingSeen none) rows []
      ⟨rows, rfl, brings⟩
    (fun state _ => @scan_restarts wholeTable nothingSeen state) (bound + 4) (by simp [rows])
    (fun _ _ inner => nomatch inner)
  obtain rfl := delivers_unique delivers probes
  obtain rfl := outputs_unique outputs loops
  exact absurd perm.length_eq (by decide)

end BusTub
