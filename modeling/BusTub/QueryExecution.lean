import BusTub.ExecutorRestarts
import BusTub.RelationalJoin

/-!
`ExecutionEngine::Execute` on whole plans: the executors that `ExecutorFactory` puts together
for a plan, polled batch by batch, bring the rows that the plan means. A plan means a list of
rows, by the operators on lists.
-/

namespace BusTub

open BatchSource

inductive QueryPlan where
  | seqScan (view : TableView) (filterPredicate : Predicate)
  | indexScan (view : TableView) (index : IndexView) (plan : IndexScanPlan)
  | values (rows : List Tuple)
  | filter (predicate : Tuple → Option Bool) (child : QueryPlan)
  | projection (expressions : List (Tuple → Value)) (child : QueryPlan)
  | limit (count : Nat) (child : QueryPlan)
  | nestedLoopJoin (plan : NestedLoopJoinPlan) (left right : QueryPlan)
  | hashJoin (plan : HashJoinPlan) (left right : QueryPlan)
  | sort (stdSort : (Row → Row → Bool) → List Row → List Row) (less : Row → Row → Bool)
      (child : QueryPlan)
  | aggregation (order : MapOrder AggregateKey) (plan : AggregationPlan) (child : QueryPlan)

def hashedJoin (plan : HashJoinPlan) (lefts rights : List Row) : List (Row × RID) :=
  lefts.flatMap fun left =>
    matchedRows plan left false
      (rights.filter fun right =>
        plan.finds (plan.leftKey left.values) (plan.rightKey right.values))

structure Filing (plan : HashJoinPlan) (lefts rights : List Row) : Prop where
  exact : KeysExact plan rights
  one : ∀ left ∈ lefts, ∀ row ∈ rights, ∀ other ∈ rights,
    plan.finds (plan.leftKey left.values) (plan.rightKey row.values) = true →
      plan.finds (plan.leftKey left.values) (plan.rightKey other.values) = true →
        plan.rightKey row.values = plan.rightKey other.values
  files : ∀ left ∈ lefts, rights.Pairwise fun first later =>
    plan.finds (plan.leftKey left.values) (plan.rightKey first.values) = true →
      plan.rightKey later.values = plan.rightKey first.values →
        plan.finds (plan.rightKey later.values) (plan.rightKey first.values) = true

namespace QueryPlan

def createExecutor (fuel : Nat) : QueryPlan → Executor
  | seqScan view filterPredicate => seqScanExecutor view filterPredicate
  | indexScan view index plan => indexScanExecutor view index plan
  | values rows => valuesExecutor rows
  | filter predicate child => filterExecutor fuel predicate (child.createExecutor fuel)
  | projection expressions child => projectionExecutor expressions (child.createExecutor fuel)
  | limit count child => limitExecutor count (child.createExecutor fuel)
  | nestedLoopJoin plan left right =>
      nestedLoopJoinExecutor fuel plan (left.createExecutor fuel) (right.createExecutor fuel)
  | hashJoin plan left right =>
      hashJoinExecutor fuel plan (left.createExecutor fuel) (right.createExecutor fuel)
  | sort stdSort less child => sortExecutor fuel stdSort less (child.createExecutor fuel)
  | aggregation order plan child => aggregationExecutor fuel order plan (child.createExecutor fuel)

def execute (fuel : Nat) (plan : QueryPlan) : Option (List Row) := do
  let started ← (plan.createExecutor fuel).init (plan.createExecutor fuel).fresh
  let (resultSet, _) ← (plan.createExecutor fuel).drain BUSTUB_BATCH_SIZE fuel started
  return resultSet

def rows : QueryPlan → List (Row × RID)
  | seqScan view filterPredicate => view.rids.filterMap (scanRow view.visible filterPredicate)
  | indexScan view index plan =>
      (if plan.predKeys.isEmpty then index.entries
        else (plan.predKeys.flatMap index.scanKey).eraseDups).filterMap
        (scanRow view.visible plan.filterPredicate)
  | values rows => rows.map fun row => (⟨row, RID.invalid⟩, RID.invalid)
  | filter predicate child => child.rows.filter fun entry => holds (predicate entry.1.values)
  | projection expressions child =>
      child.rows.map fun entry =>
        ({ values := expressions.map fun expr => expr entry.1.values }, entry.2)
  | limit count child => child.rows.take count
  | nestedLoopJoin plan left right =>
      relationalJoin plan (left.rows.map Prod.fst) (right.rows.map Prod.fst)
  | hashJoin plan left right => hashedJoin plan (left.rows.map Prod.fst) (right.rows.map Prod.fst)
  | sort stdSort less child =>
      (stdSort less (child.rows.map Prod.fst)).map fun row => (row, row.rid)
  | aggregation order plan child =>
      ((AggregationTable.build plan {} (child.rows.map Prod.fst)).entries order).map entryRow

def exact : QueryPlan → Bool
  | filter _ _ => false
  | projection _ child => child.exact
  | _ => true

def anytime : QueryPlan → Bool
  | seqScan _ _ | indexScan _ _ _ | values _ => true
  | limit _ child | sort _ _ child => child.anytime
  | nestedLoopJoin _ left right | hashJoin _ left right => left.anytime && right.anytime
  | filter _ _ | projection _ _ | aggregation _ _ _ => false

/-- Read to its end, it starts again as a new one. -/
def again : QueryPlan → Bool
  | filter _ child | projection _ child | sort _ _ child => child.again
  | plan => plan.anytime

/-- A limit is over a plan that keeps within the sizes, what is scanned for every left row
starts again, and keys find each other as the rows' do. -/
def Composed : QueryPlan → Prop
  | seqScan _ _ | indexScan _ _ _ | values _ => True
  | filter _ child | projection _ child | sort _ _ child | aggregation _ _ child => child.Composed
  | limit _ child => child.Composed ∧ child.exact = true
  | nestedLoopJoin _ left right => left.Composed ∧ right.Composed ∧ right.again = true
  | hashJoin plan left right =>
      left.Composed ∧ right.Composed ∧
        Filing plan (left.rows.map Prod.fst) (right.rows.map Prod.fst)

/-- The rows that the joins pad can be padded. The right side of a nested-loop join is
started when there is a left row. -/
def Padded : QueryPlan → Prop
  | seqScan _ _ | indexScan _ _ _ | values _ => True
  | filter _ child | projection _ child | limit _ child | sort _ _ child | aggregation _ _ child =>
      child.Padded
  | nestedLoopJoin plan left right =>
      left.Padded ∧ (left.rows ≠ [] → right.Padded) ∧
        ∀ row ∈ left.rows.map Prod.fst, plan.Pads row (right.rows.map Prod.fst)
  | hashJoin plan left right =>
      left.Padded ∧ right.Padded ∧
        ∀ row ∈ left.rows.map Prod.fst, plan.Pads (plan.build (right.rows.map Prod.fst)) row

end QueryPlan

/-! ### What the children go through -/

def Asked (source : Executor) : source.State → source.State → Prop :=
  Relation.ReflTransGen fun before after => ∃ batch, source.next before BUSTUB_BATCH_SIZE =
    some (batch, after)

def Spent (source : Executor) (before after : source.State) : Prop :=
  ∃ last batch, Asked source before last ∧ source.next last BUSTUB_BATCH_SIZE =
    some (batch, after) ∧ batch.status = false

def Starts (source : Executor) (exact : Bool) (rows : List (Row × RID)) : Prop :=
  ∃ started, source.init source.fresh = some started ∧ source.Delivers exact started rows

def Recurs (source : Executor) (rows : List (Row × RID)) : Prop :=
  ∃ Idle : source.State → Prop, Idle source.fresh ∧ ∀ state, Idle state →
    ∃ started, source.init state = some started ∧ source.Delivers false started rows ∧
      ∀ final, Spent source started final → Idle final

section Children
variable {source child : Executor} {before middle after final : source.State}
  {rows : List (Row × RID)}

theorem asked_spent (asked : Asked source before middle) (spent : Spent source middle after) :
    Spent source before after := by
  obtain ⟨last, batch, front, answered, ends⟩ := spent
  exact ⟨last, batch, asked.trans front, answered, ends⟩

theorem drained_spent (drained : Drained source before final) : Spent source before final := by
  induction drained with
  | last answered ends => exact ⟨_, _, .refl, answered, ends⟩
  | more answered _ _ ih => exact asked_spent (.single ⟨_, answered⟩) ih

theorem drain_spent {fuel : Nat} {drained : List Row}
    (ends : source.drain BUSTUB_BATCH_SIZE fuel before = some (drained, final)) :
    Spent source before final := by
  induction fuel generalizing before drained with
  | zero => cases ends
  | succ fuel ih =>
      simp only [drain, Option.bind_eq_bind, Option.bind_eq_some_iff] at ends
      obtain ⟨⟨batch, next⟩, answered, ends⟩ := ends
      dsimp only at ends
      split at ends
      case isTrue =>
          obtain ⟨⟨rest, last⟩, later, same⟩ := Option.bind_eq_some_iff.mp ends
          obtain ⟨-, rfl⟩ := Prod.mk.inj (Option.some.inj same)
          exact asked_spent (.single ⟨batch, answered⟩) (ih later)
      case isFalse no =>
          obtain ⟨-, rfl⟩ := Prod.mk.inj (Option.some.inj ends)
          exact ⟨before, batch, .refl, answered, by simpa using no⟩

theorem delivers_loosely {exact : Bool} (delivers : source.Delivers exact before rows) :
    source.Delivers false before rows := by
  cases exact with
  | false => exact delivers
  | true => exact fun sizes positives => meets_loose (delivers sizes positives)

theorem asked_keeps (Inv : source.State → Prop)
    (step : ∀ before batch after, Inv before → source.next before BUSTUB_BATCH_SIZE =
      some (batch, after) → Inv after)
    (asked : Asked source before after) (start : Inv before) : Inv after := by
  induction asked with
  | refl => exact start
  | tail _ answers ih => exact step _ _ _ ih answers.choose_spec

theorem spent_reached (spent : Spent source before after) (reached : source.Reached before) :
    source.Reached after := by
  obtain ⟨last, batch, asked, answered, -⟩ := spent
  exact (asked_keeps source.Reached (fun _ _ _ reached answered => reached.next answered) asked
    reached).next answered

theorem asked_inside (inside : source.State → child.State)
    (step : ∀ before batch after, source.next before BUSTUB_BATCH_SIZE = some (batch, after) →
      Asked child (inside before) (inside after))
    (asked : Asked source before after) : Asked child (inside before) (inside after) :=
  Relation.ReflTransGen.lift' inside (fun _ _ answers => step _ _ _ answers.choose_spec) _ _ asked

theorem recurs_anytime (restarts : source.Restarts) (starts : Starts source false rows) :
    Recurs source rows := by
  obtain ⟨started, begun, delivers⟩ := starts
  refine ⟨source.Reached, .fresh, fun state reached => ?_⟩
  obtain ⟨again, found, delivers'⟩ := started_again restarts reached begun delivers
  exact ⟨again, found, delivers', fun final spent => spent_reached spent (reached.init found)⟩

end Children

section Buffered
variable {child : Executor} {fuel : Nat} {rows : List (Row × RID)} {predicate : Tuple → Option Bool}
  {expressions : List (Tuple → Value)} {batch : Batch Row RID} {before after : BufferedState child}

theorem asked_delivers {source : Executor} {strict : Bool} {before after : source.State}
    (asked : Asked source before after) (delivers : source.Delivers strict before rows) :
    ∃ rest, source.Delivers strict after rest := by
  refine asked_keeps (fun state => ∃ rest, source.Delivers strict state rest)
    (fun before batch after brings answered => ?_) asked ⟨rows, delivers⟩
  obtain ⟨rest, delivers⟩ := brings
  obtain ⟨batch', after', left, answered', -, -, later⟩ :=
    delivers_next delivers (by decide : 0 < BUSTUB_BATCH_SIZE)
  obtain ⟨-, rfl⟩ := Prod.mk.inj (Option.some.inj (answered.symm.trans answered'))
  exact ⟨left, later⟩

theorem keep_rows (rows : List (Row × RID)) :
    emitRows (keepRow predicate) rows = rows.filter fun entry =>
      holds (predicate entry.1.values) := by
  induction rows with
  | nil => rfl
  | cons entry rest ih =>
      by_cases kept : holds (predicate entry.1.values) = true
      · simpa [emitRows, keepRow, kept] using ih
      · simpa [emitRows, keepRow, kept] using ih

theorem projected_rows (rows : List (Row × RID)) :
    emitRows (projectRow expressions) rows =
      rows.map fun entry =>
        ({ values := expressions.map fun expr => expr entry.1.values }, entry.2) := by
  simp [emitRows, projectRow]

theorem filter_fetch_asks {emit : Row → Option Row} {state : child.State} {out : List (Row × RID)}
    {after : BufferedState child}
    (fetched : filterFetch emit child BUSTUB_BATCH_SIZE fuel state out = some (batch, after)) :
    Asked child state after.child ∧
      (batch.status = false → Spent child state after.child ∧ after.pending = []) := by
  induction fuel generalizing state out with
  | zero => cases fetched
  | succ fuel ih =>
      simp only [filterFetch, Option.bind_eq_bind, Option.bind_eq_some_iff] at fetched
      obtain ⟨⟨brought, next⟩, answered, fetched⟩ := fetched
      have step : Asked child state next := .single ⟨brought, answered⟩
      dsimp only at fetched
      split at fetched
      case isTrue =>
          split at fetched
          case h_1 =>
              obtain ⟨rfl, rfl⟩ := Prod.mk.inj (Option.some.inj fetched)
              exact ⟨step, fun no => by simp [Batch.pushed] at no⟩
          case h_2 =>
              obtain ⟨asked, ends⟩ := ih fetched
              exact ⟨step.trans asked, fun no => (ends no).imp_left (asked_spent step)⟩
      case isFalse no =>
          obtain ⟨rfl, rfl⟩ := Prod.mk.inj (Option.some.inj fetched)
          exact ⟨step, fun _ =>
            ⟨⟨state, brought, .refl, answered, by simpa using no⟩, keep_none ..⟩⟩

/-- A filter that has said no has read its child to the end and keeps no row back. -/
theorem filter_spent (spent : Spent (filterExecutor fuel predicate child) before after) :
    Spent child before.child after.child ∧ after.pending = [] := by
  obtain ⟨last, batch, asked, answered, no⟩ := spent
  have path :=
    asked_inside BufferedState.child (fun _ _ _ fetched => (filter_fetch_asks fetched).1) asked
  obtain ⟨spent, nothing⟩ := (filter_fetch_asks answered).2 no
  exact ⟨asked_spent path spent, nothing⟩

theorem project_asks {state after : BufferedState child}
    (answered : (projectionExecutor expressions child).next state BUSTUB_BATCH_SIZE =
      some (batch, after)) :
    Asked child state.child after.child := by
  simp only [projectionExecutor, projectFetch, Option.bind_eq_bind, Option.bind_eq_some_iff]
    at answered
  obtain ⟨⟨brought, next⟩, answered, fetched⟩ := answered
  dsimp only at fetched
  split at fetched
  · obtain ⟨-, rfl⟩ := Prod.mk.inj (Option.some.inj fetched)
    exact .single ⟨brought, answered⟩
  · obtain ⟨-, rfl⟩ := Prod.mk.inj (Option.some.inj fetched)
    exact .single ⟨brought, answered⟩

/-- A projection over a child that keeps the contract says no when its child does. -/
theorem project_refuses {state after : BufferedState child}
    (delivers : child.Delivers false state.child rows)
    (answered : (projectionExecutor expressions child).next state BUSTUB_BATCH_SIZE =
      some (batch, after))
    (no : batch.status = false) : Spent child state.child after.child ∧ after.pending = [] := by
  obtain ⟨batch', after', left, answered', -, -, right, -⟩ :=
    project_next_spec expressions (by decide : 0 < BUSTUB_BATCH_SIZE) delivers
  obtain ⟨rfl, rfl⟩ := Prod.mk.inj (Option.some.inj (answered.symm.trans answered'))
  have empty := (List.append_eq_nil_iff.mp (right.refuses.mp no)).2
  have none : rows = [] := by
    have length := project_rows expressions rows
    rw [empty] at length
    exact List.length_eq_zero_iff.mp length.symm
  obtain ⟨brought, next, rest, asked, reply, -, -⟩ :=
    delivers_next delivers (by decide : 0 < BUSTUB_BATCH_SIZE)
  have refused := reply.refuses.mpr none
  simp only [projectionExecutor, projectFetch, asked, refused, Option.bind_eq_bind,
    Option.bind_some, Bool.false_eq_true, ↓reduceIte] at answered
  obtain ⟨-, rfl⟩ := Prod.mk.inj (Option.some.inj answered)
  exact ⟨⟨state.child, brought, .refl, asked, refused⟩, keep_none ..⟩

theorem projection_spent (delivers : child.Delivers false before.child rows)
    (spent : Spent (projectionExecutor expressions child) before after) :
    Spent child before.child after.child ∧ after.pending = [] := by
  obtain ⟨last, batch, asked, answered, no⟩ := spent
  have path := asked_inside BufferedState.child (fun _ _ _ answered => project_asks answered) asked
  obtain ⟨rest, delivers⟩ := asked_delivers path delivers
  obtain ⟨spent, nothing⟩ := project_refuses delivers answered no
  exact ⟨asked_spent path spent, nothing⟩

theorem filter_recurs (recurs : Recurs child rows) (enough : rows.length < fuel) :
    Recurs (filterExecutor fuel predicate child) (rows.filter fun entry =>
      holds (predicate entry.1.values)) := by
  obtain ⟨Idle, fresh, goes⟩ := recurs
  refine ⟨fun state => Idle state.child ∧ BufferedState.pending state = [], ⟨fresh, rfl⟩, ?_⟩
  rintro state ⟨idle, nothing⟩
  obtain ⟨started, begun, delivers, ends⟩ := goes state.child idle
  refine ⟨{ state with child := started },
    by simp [filterExecutor, begun], ?_, fun final spent => ?_⟩
  · have brings := filter_delivers predicate { state with child := started } delivers enough
    have none : BufferedState.leftover (keepRow predicate) { state with child := started } =
        [] := by
      rw [BufferedState.leftover, show BufferedState.pending { state with child := started } =
        [] from nothing]
      rfl
    rwa [none, List.nil_append, keep_rows] at brings
  · exact (filter_spent spent).imp_left (ends _)

theorem projection_recurs (recurs : Recurs child rows) :
    Recurs (projectionExecutor expressions child)
      (rows.map fun entry =>
        ({ values := expressions.map fun expr => expr entry.1.values }, entry.2)) := by
  obtain ⟨Idle, fresh, goes⟩ := recurs
  refine ⟨fun state => Idle state.child ∧ BufferedState.pending state = [], ⟨fresh, rfl⟩, ?_⟩
  rintro state ⟨idle, nothing⟩
  obtain ⟨started, begun, delivers, ends⟩ := goes state.child idle
  refine ⟨{ state with child := started },
    by simp [projectionExecutor, begun], ?_, fun final spent => ?_⟩
  · have brings :=
      projection_delivers expressions { state with child := started } delivers (by simp)
    have none : BufferedState.leftover (projectRow expressions) { state with child := started } =
        [] := by
      rw [BufferedState.leftover, show BufferedState.pending { state with child := started } =
        [] from nothing]
      rfl
    rwa [none, List.nil_append, projected_rows] at brings
  · exact (projection_spent delivers spent).imp_left (ends _)

theorem sort_recurs {stdSort : (Row → Row → Bool) → List Row → List Row} {less : Row → Row → Bool}
    (recurs : Recurs child rows) (enough : rows.length < fuel) :
    Recurs (sortExecutor fuel stdSort less child)
      ((stdSort less (rows.map Prod.fst)).map fun row => (row, row.rid)) := by
  obtain ⟨Idle, fresh, goes⟩ := recurs
  refine ⟨fun state => Idle state.child, fresh, fun state idle => ?_⟩
  obtain ⟨started, begun, delivers, ends⟩ := goes state.child idle
  obtain ⟨drained, read⟩ := drain_delivers delivers (by decide : 0 < BUSTUB_BATCH_SIZE) enough
  refine ⟨{ child := drained, entries := stdSort less (rows.map Prod.fst) },
    by simp [sortExecutor, begun, read], delivers_loosely (sort_delivers _), ?_⟩
  rintro final ⟨last, batch, asked, answered, -⟩
  -- the child is not asked any more
  have still (before : SortState child) (batch : Batch Row RID) (after : SortState child)
    (answered : (sortExecutor fuel stdSort less child).next before BUSTUB_BATCH_SIZE =
      some (batch, after)) :
    after.child = before.child := by
    obtain ⟨-, rfl⟩ := Prod.mk.inj (Option.some.inj answered)
    rfl
  have same := (still last batch final answered).trans (asked_keeps
    (fun state : SortState child => state.child = drained)
    (fun before batch after same answered =>
      (still before batch after answered).trans same) asked rfl)
  exact same ▸ ends drained (drain_spent read)

end Buffered

section Joins
variable {outer inner : Executor} {lefts rights : List (Row × RID)} {fuel : Nat}
  {plan : NestedLoopJoinPlan}

theorem nested_loop_starts {strict : Bool} (left : Starts outer strict lefts)
    (right : lefts ≠ [] → Recurs inner rights)
    (pads : ∀ left ∈ lefts.map Prod.fst, plan.Pads left (rights.map Prod.fst))
    (enough : lefts.length * (rights.length + 2) + 2 ≤ fuel) :
    Starts (nestedLoopJoinExecutor fuel plan outer inner) true
      (relationalJoin plan (lefts.map Prod.fst) (rights.map Prod.fst)) := by
  obtain ⟨started, begun, delivers⟩ := left
  obtain ⟨fuel, rfl⟩ := Nat.exists_eq_add_of_le' (by omega : 2 ≤ fuel)
  have joined : Joined false plan inner inner.fresh (lefts.map Prod.fst)
    (relationalJoin plan (lefts.map Prod.fst) (rights.map Prod.fst))
    (lefts.length * (rights.length + 2)) := by
    by_cases none : lefts = []
    · subst none
      rw [List.length_nil, Nat.zero_mul]
      exact .nil _
    · obtain ⟨Idle, fresh, goes⟩ := right none
      have restarts : ∀ state, Idle state → ∃ started, inner.init state = some started ∧
          inner.Delivers false started rights ∧
          ∀ final, Drained inner started final → Idle final := by
        intro state idle
        obtain ⟨started, begun, delivers, ends⟩ := goes state idle
        exact ⟨started, begun, delivers, fun final drained => ends final (drained_spent drained)⟩
      have joined := joined_in_order restarts (lefts.map Prod.fst) pads fresh
      rwa [List.length_map] at joined
  exact ⟨_, by simp [nestedLoopJoinExecutor, begun],
    joined_delivers (delivers_loosely delivers) joined (by omega)⟩

theorem hashed_rows {plan : HashJoinPlan} {lefts rights : List Row}
    (filing : Filing plan lefts rights) :
    lefts.flatMap (lookedUp plan (plan.build rights)) = hashedJoin plan lefts rights := by
  refine List.flatMap_congr fun left member => ?_
  rw [lookedUp, lookup_build left filing.exact (filing.one left member) (filing.files left member)]

theorem hash_join_starts {plan : HashJoinPlan} {strict loose : Bool}
    (left : Starts outer strict lefts) (right : Starts inner loose rights)
    (filing : Filing plan (lefts.map Prod.fst) (rights.map Prod.fst))
    (pads : ∀ left ∈ lefts.map Prod.fst, plan.Pads (plan.build (rights.map Prod.fst)) left)
    (enough : ((lefts.map Prod.fst).map (matchRounds plan (plan.build (rights.map Prod.fst)))).sum +
      rights.length < fuel) :
    Starts (hashJoinExecutor fuel plan outer inner) true
      (hashedJoin plan (lefts.map Prod.fst) (rights.map Prod.fst)) := by
  obtain ⟨started, begun, delivers⟩ := left
  obtain ⟨opened, opens, brings⟩ := right
  obtain ⟨drained, ends⟩ :=
    @drain_delivers _ _ inner loose opened rights brings BUSTUB_BATCH_SIZE fuel (by decide)
      (by omega)
  let table := plan.build (rights.map Prod.fst)
  let state : HashJoinState outer inner :=
    { left := { state := started }, right := drained, hashTable := table }
  refine ⟨state, by simp [hashJoinExecutor, begun, opens, ends, state, table], ?_⟩
  have toMatch : ToMatch strict plan state ((lefts.map Prod.fst).flatMap (lookedUp plan table))
    ((lefts.map Prod.fst).map (matchRounds plan table)).sum :=
    ⟨fun _ => ⟨_, started_comes delivers, pads, rfl, rfl⟩, (by simp)⟩
  rw [← hashed_rows filing]
  exact hash_join_delivers toMatch (Nat.lt_of_le_of_lt (Nat.le_add_right _ _) enough)

end Joins

/-! ### Whole plans -/

namespace QueryPlan

variable {plan : QueryPlan}

theorem anytime_restarts (anytime : plan.anytime = true) (fuel : Nat) :
    (plan.createExecutor fuel).Restarts := by
  induction plan with
  | seqScan view filterPredicate => exact fun _ _ => Option.Rel.some (alike_refl _)
  | indexScan view index plan => exact fun _ _ => rel_refl (fun _ => alike_refl _) _
  | values rows => exact fun _ _ => Option.Rel.some (alike_refl _)
  | limit count child ih => exact fun _ reached => limit_restarts (ih anytime) reached
  | sort stdSort less child ih => exact fun _ reached => sort_restarts (ih anytime) reached
  | nestedLoopJoin plan left right leftIh rightIh =>
      obtain ⟨outer, inner⟩ := (Bool.and_eq_true _ _).mp anytime
      exact fun _ reached => nested_loop_restarts (leftIh outer) (rightIh inner) reached
  | hashJoin plan left right leftIh rightIh =>
      obtain ⟨outer, inner⟩ := (Bool.and_eq_true _ _).mp anytime
      exact fun _ reached => hash_join_restarts (leftIh outer) (rightIh inner) reached
  | filter | projection | aggregation => cases anytime

structure Serving (plan : QueryPlan) (fuel : Nat) : Prop where
  starts : Starts (plan.createExecutor fuel) plan.exact plan.rows
  recurs : plan.again = true → Recurs (plan.createExecutor fuel) plan.rows

theorem serving_of {fuel : Nat} (starts : Starts (plan.createExecutor fuel) plan.exact plan.rows)
    (same : plan.again = plan.anytime) : plan.Serving fuel := by
  refine ⟨starts, fun again => ?_⟩
  obtain ⟨started, begun, delivers⟩ := starts
  exact recurs_anytime (anytime_restarts (same.symm.trans again) fuel)
    ⟨started, begun, delivers_loosely delivers⟩

theorem plan_serves (composed : plan.Composed) (padded : plan.Padded) :
    ∃ enough, ∀ fuel, enough ≤ fuel → plan.Serving fuel := by
  induction plan with
  | seqScan view filterPredicate =>
      exact ⟨0, fun fuel _ =>
        serving_of ⟨some view.rids, rfl, seq_scan_delivers view filterPredicate⟩ rfl⟩
  | indexScan view index plan =>
      refine ⟨0, fun fuel _ => serving_of ?_ rfl⟩
      cases keys : plan.predKeys.isEmpty with
      | true =>
          refine ⟨{ iterator := some index.entries },
            by simp [createExecutor, indexScanExecutor, keys], ?_⟩
          simp only [rows, keys, ↓reduceIte]
          exact index_walk_delivers keys rfl
      | false =>
          refine ⟨{ lookupRids := (plan.predKeys.flatMap index.scanKey).eraseDups },
            by simp [createExecutor, indexScanExecutor, keys], ?_⟩
          simp only [rows, keys, Bool.false_eq_true, ↓reduceIte]
          exact index_lookup_delivers keys _
  | values tuples =>
      exact ⟨0, fun fuel _ => serving_of ⟨(0 : Nat), rfl, values_delivers tuples⟩ rfl⟩
  | filter predicate child ih =>
      obtain ⟨enough, serves⟩ := ih composed padded
      refine ⟨max enough (child.rows.length + 1), fun fuel large => ?_⟩
      obtain ⟨⟨started, begun, delivers⟩, recurs⟩ := serves fuel (le_of_max_le_left large)
      have fits : child.rows.length < fuel := le_of_max_le_right large
      refine ⟨⟨({ child := started } : BufferedState _),
          by simp [createExecutor, filterExecutor, begun], ?_⟩, fun again =>
            filter_recurs (recurs again) fits⟩
      have brings :=
        filter_delivers predicate ({ child := started } : BufferedState _) delivers fits
      rw [keep_rows] at brings
      exact brings
  | projection expressions child ih =>
      obtain ⟨enough, serves⟩ := ih composed padded
      refine ⟨enough, fun fuel large => ?_⟩
      obtain ⟨⟨started, begun, delivers⟩, recurs⟩ := serves fuel large
      refine ⟨⟨({ child := started } : BufferedState _),
          by simp [createExecutor, projectionExecutor, begun], ?_⟩, fun again =>
            projection_recurs (recurs again)⟩
      have brings :=
        projection_delivers expressions ({ child := started } : BufferedState _) delivers fun _ =>
          rfl
      rw [projected_rows] at brings
      exact brings
  | limit count child ih =>
      obtain ⟨enough, serves⟩ := ih composed.1 padded
      refine ⟨enough, fun fuel large => serving_of ?_ rfl⟩
      obtain ⟨started, begun, delivers⟩ := (serves fuel large).starts
      rw [composed.2] at delivers
      exact ⟨({ child := started } : LimitState _), by simp [createExecutor, limitExecutor, begun],
        limit_delivers count { child := started } delivers⟩
  | nestedLoopJoin plan left right leftIh rightIh =>
      obtain ⟨one, outer⟩ := leftIh composed.1 padded.1
      obtain ⟨two, inner⟩ : ∃ enough, ∀ fuel, enough ≤ fuel → left.rows ≠ [] →
          right.Serving fuel := by
        by_cases none : left.rows = []
        · exact ⟨0, fun _ _ some => absurd none some⟩
        · obtain ⟨enough, serves⟩ := rightIh composed.2.1 (padded.2.1 none)
          exact ⟨enough, fun fuel large _ => serves fuel large⟩
      refine ⟨max (max one two) (left.rows.length * (right.rows.length + 2) + 2),
        fun fuel large => ?_⟩
      have both := le_of_max_le_left large
      exact serving_of (nested_loop_starts (outer fuel (le_of_max_le_left both)).starts
        (fun some => (inner fuel (le_of_max_le_right both) some).recurs composed.2.2) padded.2.2
        (le_of_max_le_right large)) rfl
  | hashJoin plan left right leftIh rightIh =>
      obtain ⟨one, outer⟩ := leftIh composed.1 padded.1
      obtain ⟨two, inner⟩ := rightIh composed.2.1 padded.2.1
      refine ⟨max (max one two)
        (((left.rows.map Prod.fst).map
          (matchRounds plan (plan.build (right.rows.map Prod.fst)))).sum +
          right.rows.length + 1), fun fuel large => ?_⟩
      have both := le_of_max_le_left large
      exact serving_of (hash_join_starts (outer fuel (le_of_max_le_left both)).starts
        (inner fuel (le_of_max_le_right both)).starts composed.2.2 padded.2.2
        (le_of_max_le_right large)) rfl
  | sort stdSort less child ih =>
      obtain ⟨enough, serves⟩ := ih composed padded
      refine ⟨max enough (child.rows.length + 1), fun fuel large => ?_⟩
      obtain ⟨⟨started, begun, delivers⟩, recurs⟩ := serves fuel (le_of_max_le_left large)
      have fits : child.rows.length < fuel := le_of_max_le_right large
      obtain ⟨drained, ends⟩ := drain_delivers delivers (by decide : 0 < BUSTUB_BATCH_SIZE) fits
      refine ⟨⟨({ child := drained, entries := stdSort less (child.rows.map Prod.fst) } : SortState
          _), by simp [createExecutor, sortExecutor, begun, ends], sort_delivers _⟩, fun again =>
          sort_recurs (recurs again) fits⟩
  | aggregation order plan child ih =>
      obtain ⟨enough, serves⟩ := ih composed padded
      refine ⟨max enough (child.rows.length + 1), fun fuel large => serving_of ?_ rfl⟩
      obtain ⟨started, begun, delivers⟩ := (serves fuel (le_of_max_le_left large)).starts
      have fits : child.rows.length < fuel := le_of_max_le_right large
      obtain ⟨drained, ends⟩ := drain_delivers delivers (by decide : 0 < BUSTUB_BATCH_SIZE) fits
      let aht := AggregationTable.build plan {} (child.rows.map Prod.fst)
      exact ⟨({ child := drained, aht := aht, ahtIterator := aht.entries order } :
          AggregationState _),
            by simp [createExecutor, aggregationExecutor, begun, ends, aht], aggregation_delivers _⟩

/-! A limit on top of a plan that does not keep within the sizes. As long as it is asked for
whole batches it brings no more than these. -/

end QueryPlan

def Within (source : Executor) (state : source.State) : Prop :=
  ∀ after, Asked source state after → ∀ batch next, source.next after BUSTUB_BATCH_SIZE =
    some (batch, next) → batch.tuples.length ≤ BUSTUB_BATCH_SIZE

section Batches
variable {source child : Executor} {emit : Row → Option Row} {rows out : List (Row × RID)}
  {fuel : Nat} {batch : Batch Row RID}

theorem within_step {before after : source.State} (within : Within source before)
    (asked : Asked source before after) :
    Within source after :=
  fun later more => within later (asked.trans more)

theorem exact_within {state : source.State} (delivers : source.Delivers true state rows) :
    Within source state := by
  intro after asked batch next answered
  obtain ⟨rest, delivers⟩ := asked_delivers asked delivers
  obtain ⟨batch', next', left, answered', -, within, -⟩ :=
    delivers_next delivers (by decide : 0 < BUSTUB_BATCH_SIZE)
  obtain ⟨rfl, -⟩ := Prod.mk.inj (Option.some.inj (answered.symm.trans answered'))
  exact within rfl

theorem fill_within {size index : Nat} (room : out.length < size) {filled : List (Row × RID)}
    {last : Option Nat} (fills : fillBatch emit size index rows out = (filled, last)) :
    filled.length ≤ size ∧ (last = none → filled.length < size) := by
  cases last with
  | none =>
      obtain ⟨rfl, nothing | short⟩ := fill_batch_none fills
      · simp only [nothing, List.append_nil]
        exact ⟨room.le, fun _ => room⟩
      · exact ⟨short.le, fun _ => short⟩
  | some last =>
      obtain ⟨front, back, -, -, -, -, length⟩ := fill_batch_some fills
      exact ⟨by omega, by simp⟩

theorem keep_pending (after : child.State) (index : Option Nat)
    (within : batch.tuples.length ≤ BUSTUB_BATCH_SIZE) :
    (BufferedState.keep after batch index).pending.length < BUSTUB_BATCH_SIZE := by
  unfold BufferedState.pending
  generalize offset : (BufferedState.keep after batch index).childOffset = start
  split
  · have positive : 0 < BUSTUB_BATCH_SIZE := by decide
    have rows : (BufferedState.keep after batch index).childTuples = batch.tuples := rfl
    rw [rows, List.length_drop, List.length_zip]
    omega
  · exact (by decide : 0 < BUSTUB_BATCH_SIZE)

theorem emit_shorter (emit : Row → Option Row) (rows : List (Row × RID)) :
    (emitRows emit rows).length ≤ rows.length :=
  List.length_filterMap_le _ _

theorem filter_fetch_within {state : child.State} {after : BufferedState child}
    (within : Within child state) (room : out.length < BUSTUB_BATCH_SIZE)
    (fetched : filterFetch emit child BUSTUB_BATCH_SIZE fuel state out = some (batch, after)) :
    batch.tuples.length ≤ BUSTUB_BATCH_SIZE ∧ after.pending.length < BUSTUB_BATCH_SIZE := by
  induction fuel generalizing state out with
  | zero => cases fetched
  | succ fuel ih =>
      simp only [filterFetch, Option.bind_eq_bind, Option.bind_eq_some_iff] at fetched
      obtain ⟨⟨brought, next⟩, answered, fetched⟩ := fetched
      have small := within state .refl brought next answered
      have step : Asked child state next := .single ⟨brought, answered⟩
      dsimp only at fetched
      split at fetched
      case isTrue =>
          split at fetched
          case h_1 filled last fills =>
              obtain ⟨rfl, rfl⟩ := Prod.mk.inj (Option.some.inj fetched)
              exact ⟨by
                simpa [Batch.pushed] using (fill_within room fills).1, keep_pending next _ small⟩
          case h_2 filled fills =>
              exact ih (within_step within step) ((fill_within room fills).2 rfl) fetched
      case isFalse =>
          obtain ⟨rfl, rfl⟩ := Prod.mk.inj (Option.some.inj fetched)
          exact ⟨by simpa using room.le, keep_pending next _ small⟩

theorem project_within {expressions : List (Tuple → Value)} {state after : BufferedState child}
    (within : Within child state.child)
    (room : state.pending.length < BUSTUB_BATCH_SIZE)
    (answered : (projectionExecutor expressions child).next state BUSTUB_BATCH_SIZE =
      some (batch, after)) :
    batch.tuples.length ≤ BUSTUB_BATCH_SIZE ∧ after.pending.length < BUSTUB_BATCH_SIZE := by
  have short : (state.leftover (projectRow expressions)).length < BUSTUB_BATCH_SIZE :=
    Nat.lt_of_le_of_lt (emit_shorter _ _) room
  simp only [projectionExecutor, projectFetch, Option.bind_eq_bind, Option.bind_eq_some_iff]
    at answered
  obtain ⟨⟨brought, next⟩, answered, fetched⟩ := answered
  have small := within state.child .refl brought next answered
  dsimp only at fetched
  split at fetched
  · generalize fills : fillBatch (projectRow expressions) BUSTUB_BATCH_SIZE 0 brought.rows
      (state.leftover (projectRow expressions)) = made at fetched
    obtain ⟨filled, last⟩ := made
    obtain ⟨rfl, rfl⟩ := Prod.mk.inj (Option.some.inj fetched)
    exact ⟨by simpa using (fill_within short fills).1, keep_pending next _ small⟩
  · obtain ⟨rfl, rfl⟩ := Prod.mk.inj (Option.some.inj fetched)
    exact ⟨by simpa using short.le, keep_pending next _ small⟩

/-- A buffered executor over a child within the batches is within them, when each call keeps
back less than a batch. -/
theorem buffered_within {parent : Executor} (inside : parent.State → BufferedState child)
    (calls : ∀ before batch after, Within child (inside before).child →
      (inside before).pending.length < BUSTUB_BATCH_SIZE →
        parent.next before BUSTUB_BATCH_SIZE = some (batch, after) →
          Asked child (inside before).child (inside after).child ∧
            batch.tuples.length ≤ BUSTUB_BATCH_SIZE ∧
            (inside after).pending.length < BUSTUB_BATCH_SIZE)
    {state : parent.State} (within : Within child (inside state).child)
    (room : (inside state).pending.length < BUSTUB_BATCH_SIZE) : Within parent state := by
  intro after asked batch next answered
  have now : Within child (inside after).child ∧
      (inside after).pending.length < BUSTUB_BATCH_SIZE := by
    refine asked_keeps
      (fun state => Within child (inside state).child ∧
        (inside state).pending.length < BUSTUB_BATCH_SIZE)
      (fun before batch after now answered => ?_) asked ⟨within, room⟩
    obtain ⟨asked, -, room⟩ := calls before batch after now.1 now.2 answered
    exact ⟨within_step now.1 asked, room⟩
  exact (calls after batch next now.1 now.2 answered).2.1

end Batches

namespace QueryPlan

variable {plan : QueryPlan}

def StaysWithin (plan : QueryPlan) (enough : Nat) : Prop :=
  ∀ fuel, enough ≤ fuel → ∀ started,
    (plan.createExecutor fuel).init (plan.createExecutor fuel).fresh = some started →
      Within (plan.createExecutor fuel) started

theorem exact_stays (composed : plan.Composed) (padded : plan.Padded) (exact : plan.exact = true) :
    ∃ enough, plan.StaysWithin enough := by
  obtain ⟨enough, serves⟩ := plan_serves composed padded
  refine ⟨enough, fun fuel large started begun => ?_⟩
  obtain ⟨started', begun', delivers⟩ := (serves fuel large).starts
  obtain rfl := Option.some.inj (begun.symm.trans begun')
  rw [exact] at delivers
  exact exact_within delivers

theorem plan_within (composed : plan.Composed) (padded : plan.Padded) :
    ∃ enough, plan.StaysWithin enough := by
  induction plan with
  | filter predicate child ih =>
      obtain ⟨enough, inner⟩ := ih composed padded
      refine ⟨enough, fun fuel large started begun => ?_⟩
      obtain ⟨opened, opens, rfl⟩ := Option.map_eq_some_iff.mp begun
      refine @buffered_within _ (filterExecutor fuel predicate (child.createExecutor fuel)) id ?_
        { child := opened } (inner fuel large opened opens) (show 0 < BUSTUB_BATCH_SIZE by decide)
      intro before batch after within room answered
      obtain ⟨small, kept⟩ := filter_fetch_within within
        (Nat.lt_of_le_of_lt (emit_shorter (keepRow predicate) _) room) answered
      exact ⟨(filter_fetch_asks answered).1, small, kept⟩
  | projection expressions child ih =>
      obtain ⟨enough, inner⟩ := ih composed padded
      refine ⟨enough, fun fuel large started begun => ?_⟩
      obtain ⟨opened, opens, rfl⟩ := Option.map_eq_some_iff.mp begun
      refine @buffered_within _ (projectionExecutor expressions (child.createExecutor fuel)) id ?_
        { child := opened } (inner fuel large opened opens) (show 0 < BUSTUB_BATCH_SIZE by decide)
      intro before batch after within room answered
      obtain ⟨small, kept⟩ := project_within within room answered
      exact ⟨project_asks answered, small, kept⟩
  | _ => exact exact_stays composed padded rfl

theorem drain_more {source : Executor} {fuel : Nat} {state after final : source.State}
    {batch : Batch Row RID} {rest : List Row}
    (answered : source.next state BUSTUB_BATCH_SIZE = some (batch, after))
    (more : batch.status = true)
    (ends : source.drain BUSTUB_BATCH_SIZE fuel after = some (rest, final)) :
    source.drain BUSTUB_BATCH_SIZE (fuel + 1) state = some (batch.tuples ++ rest, final) := by
  simp [drain, answered, more, ends]

/-- A limit over a child whose rows come right, asked for whole batches. -/
theorem limit_drains {count fuel : Nat} {child : Executor} {rows : List (Row × RID)}
    (state : LimitState child) (delivers : child.Delivers false state.child rows)
    (within : BUSTUB_BATCH_SIZE ≤ count - state.emitted → Within child state.child)
    (enough : rows.length < fuel) :
    ∃ final, (limitExecutor count child).drain BUSTUB_BATCH_SIZE fuel state =
      some ((rows.take (count - state.emitted)).map Prod.fst, final) := by
  induction fuel generalizing state rows with
  | zero => omega
  | succ fuel ih =>
      by_cases ended : count ≤ state.emitted
      · refine ⟨state, ?_⟩
        simp [drain, limitExecutor, ended, Nat.sub_eq_zero_of_le ended]
      · have positive : 0 < BUSTUB_BATCH_SIZE := by decide
        have remaining : 0 < min BUSTUB_BATCH_SIZE (count - state.emitted) := by omega
        obtain ⟨batch, after, left, answered, right, -, later⟩ := delivers_next delivers remaining
        have goes : ¬ (count ≤ state.emitted ∨ BUSTUB_BATCH_SIZE = 0) := by omega
        have length := Batch.rows_length right.together
        cases more : batch.status with
        | false =>
            obtain ⟨rfl, -, rfl⟩ := answers_last right more
            refine ⟨{ state with child := after }, ?_⟩
            simp [drain, limitExecutor, goes, answered, more]
        | true =>
            have brings := List.length_pos_of_ne_nil (right.brings more)
            have shorter := answers_shorter right more
            by_cases exceeds : min BUSTUB_BATCH_SIZE (count - state.emitted) < batch.tuples.length
            -- the batch is cut: it is the last one
            · have last : count - state.emitted < BUSTUB_BATCH_SIZE := by
                by_contra whole
                have full : min BUSTUB_BATCH_SIZE (count - state.emitted) =
                  BUSTUB_BATCH_SIZE := by omega
                rw [full] at answered exceeds
                have small := within (by omega) state.child .refl batch after answered
                omega
              have cut : min BUSTUB_BATCH_SIZE (count - state.emitted) =
                count - state.emitted := by omega
              rw [cut] at answered exceeds
              have taken : (batch.tuples.take (count - state.emitted)).length =
                  count - state.emitted := by
                rw [List.length_take]
                omega
              obtain ⟨final, ends⟩ :=
                ih { child := after, emitted := count } later (by simp; omega) (by omega)
              refine ⟨final, ?_⟩
              have full : state.emitted + (count - state.emitted) = count := by omega
              have some : (batch.tuples.take (count - state.emitted)).isEmpty = false := by
                rw [List.isEmpty_eq_false_iff_exists_mem]
                exact List.exists_mem_of_length_pos (by omega)
              rw [Nat.sub_self, List.take_zero] at ends
              have next : (limitExecutor count child).next state BUSTUB_BATCH_SIZE =
                  Option.some (⟨true, batch.tuples.take (count - state.emitted),
                    batch.rids.take (count - state.emitted)⟩,
                      { child := after, emitted := count }) := by
                simp [limitExecutor, goes, cut, answered, more, exceeds, taken, full, some]
              rw [right.split, List.take_append_of_le_length (by omega), List.map_take,
                  Batch.map_rows right.together, drain_more next rfl ends]
              simp
            · have bounded : BUSTUB_BATCH_SIZE ≤ count - (state.emitted + batch.tuples.length) →
                  Within child after := by
                intro whole
                have full : min BUSTUB_BATCH_SIZE (count - state.emitted) =
                  BUSTUB_BATCH_SIZE := by omega
                rw [full] at answered
                exact within_step (within (by omega)) (.single ⟨batch, answered⟩)
              obtain ⟨final, ends⟩ :=
                ih { child := after, emitted := state.emitted + batch.tuples.length } later
                  bounded (by omega)
              refine ⟨final, ?_⟩
              have some : batch.tuples.isEmpty = false := by simpa using right.brings more
              have rest : count - state.emitted - batch.rows.length =
                  count - (state.emitted + batch.tuples.length) := by
                omega
              rw [right.split, List.take_append, List.take_of_length_le (by omega), rest,
                  List.map_append, Batch.map_rows right.together]
              have next : (limitExecutor count child).next state BUSTUB_BATCH_SIZE =
                  Option.some (⟨true, batch.tuples, batch.rids⟩,
                    { child := after, emitted := state.emitted + batch.tuples.length }) := by
                simp only [limitExecutor, goes, ↓reduceIte, answered, Option.bind_eq_bind,
                  Option.bind_some, more, exceeds, some]
                rfl
              have all := drain_more next rfl ends
              exact all

def Runnable : QueryPlan → Prop
  | limit _ child => child.Composed
  | plan => plan.Composed

theorem execute_of {fuel : Nat} {started final : (plan.createExecutor fuel).State}
    {resultSet : List Row}
    (begun : (plan.createExecutor fuel).init (plan.createExecutor fuel).fresh = some started)
    (ends : (plan.createExecutor fuel).drain BUSTUB_BATCH_SIZE fuel started =
      some (resultSet, final)) :
    plan.execute fuel = some resultSet := by
  simp [execute, begun, ends]

theorem composed_executes (composed : plan.Composed) (padded : plan.Padded) :
    ∃ enough, ∀ fuel, enough ≤ fuel → plan.execute fuel = some (plan.rows.map Prod.fst) := by
  obtain ⟨enough, serves⟩ := plan_serves composed padded
  refine ⟨max enough (plan.rows.length + 1), fun fuel large => ?_⟩
  obtain ⟨started, begun, delivers⟩ := (serves fuel (le_of_max_le_left large)).starts
  obtain ⟨drained, ends⟩ := drain_delivers delivers (by decide : 0 < BUSTUB_BATCH_SIZE)
    (le_of_max_le_right large : plan.rows.length < fuel)
  exact execute_of begun ends

/-- The engine brings, in their order, the rows that the plan means. -/
theorem engine_executes (runnable : plan.Runnable) (padded : plan.Padded) :
    ∃ enough, ∀ fuel, enough ≤ fuel → plan.execute fuel = some (plan.rows.map Prod.fst) := by
  cases plan with
  | limit count child =>
      obtain ⟨one, serves⟩ := plan_serves runnable padded
      obtain ⟨two, within⟩ := plan_within runnable padded
      refine ⟨max (max one two) (child.rows.length + 1), fun fuel large => ?_⟩
      have both := le_of_max_le_left large
      obtain ⟨started, begun, delivers⟩ := (serves fuel (le_of_max_le_left both)).starts
      obtain ⟨final, ends⟩ :=
        @limit_drains count fuel _ child.rows { child := started } (delivers_loosely delivers)
          (fun _ => within fuel (le_of_max_le_right both) started begun) (le_of_max_le_right large)
      have init : (limitExecutor count (child.createExecutor fuel)).init
        (limitExecutor count (child.createExecutor fuel)).fresh =
          some ({ child := started } : LimitState (child.createExecutor fuel)) := by
        simp [limitExecutor, begun]
      exact @execute_of (limit count child) fuel _ final _ init ends
  | _ => exact composed_executes runnable padded

/-- `SELECT * FROM numbers l JOIN (SELECT * FROM numbers WHERE x <> 0) r ON l.x = r.x WHERE l.x <>
0 LIMIT 3`. -/
def pairedNumbers : QueryPlan :=
  .limit 3 (.filter (fun values => notZero (values.take 1))
    (.nestedLoopJoin equalColumns (.values numberRows) (.filter notZero (.values numberRows))))

theorem paired_numbers_executed :
    ∃ enough, ∀ fuel, enough ≤ fuel →
      pairedNumbers.execute fuel = some (pairedNumbers.rows.map Prod.fst) :=
  @engine_executes pairedNumbers ⟨trivial, trivial, rfl⟩
    ⟨trivial, fun _ => trivial, fun _ _ _ _ => by decide⟩

end QueryPlan

end BusTub
