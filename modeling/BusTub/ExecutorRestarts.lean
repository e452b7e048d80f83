import BusTub.BatchContract
import BusTub.ExecutorTwins

/-!
Restarting. Over children that restart, an executor that is started again answers
as a new one does, when it is clean: a filter holds no row that passes from its
last child batch, a projection no row at all, and the map of an aggregation lists
its groups as a new map would.
-/

namespace BusTub

open BatchSource

/-- What `Init` leaves behind does not show. The aggregation's groups are those of
the rows that its child hands out. -/
def Operator.Clean (fuel : Nat) : (op : Operator) → (op.executor fuel).State → Prop
  | .filter predicate _, (state : BufferedState _) =>
      ∀ entry ∈ state.pending, holds (predicate entry.1.values) = false
  | .projection _ _, (state : BufferedState _) => state.pending = []
  | .aggregation order plan child, (state : AggregationState child) =>
      ∀ started rows drained, child.init child.fresh = some started →
        child.drain BUSTUB_BATCH_SIZE fuel started = some (rows, drained) →
          order.listing (state.aht.build plan rows).past =
            order.listing (AggregationTable.build plan {} rows).past
  | _, _ => True

def Yields (fuel : Nat) (child : Executor) : Prop :=
  ∃ started rows, child.init child.fresh = some started ∧ child.Delivers false started rows ∧
    rows.length < fuel

section Buffered
variable {fuel : Nat} {child : Executor} {state : BufferedState child}
  {predicate : Tuple → Option Bool} {expressions : List (Tuple → Value)}
  {first second : BufferedState child}

theorem leftover_nil (state : BufferedState child) :
    state.leftover (keepRow predicate) = [] ↔
      ∀ entry ∈ state.pending, holds (predicate entry.1.values) = false := by
  simp [BufferedState.leftover, emitRows, keepRow]

theorem filter_next_same (same : SameBuffer (keepRow predicate) first second) (size : Nat) :
    Twins (SameBuffer (keepRow predicate)) ((filterExecutor fuel predicate child).next first size)
      ((filterExecutor fuel predicate child).next second size) := by
  simp only [filterExecutor, same.leftover]
  exact filter_fetch_same same.child _

theorem filter_reached (restarts : child.Restarts)
    (reached : (filterExecutor fuel predicate child).Reached state) :
    child.Reached state.child := by
  have same : SameBuffer (keepRow predicate) state state := by
    apply reached_same (SameBuffer (keepRow predicate)) _ _ _ reached
    · exact ⟨rfl, paired_fresh⟩
    · exact fun now same => buffered_init restarts same.child.left same.child.right rfl
    · exact fun now same size => filter_next_same same size
  exact same.child.left

theorem project_next_same (same : SameBuffer (projectRow expressions) first second) (size : Nat) :
    Twins (SameBuffer (projectRow expressions))
      ((projectionExecutor expressions child).next first size)
      ((projectionExecutor expressions child).next second size) :=
  project_fetch_same same

theorem projection_reached (restarts : child.Restarts)
    (reached : (projectionExecutor expressions child).Reached state) :
    child.Reached state.child := by
  have same : SameBuffer (projectRow expressions) state state := by
    apply reached_same (SameBuffer (projectRow expressions)) _ _ _ reached
    · exact ⟨rfl, paired_fresh⟩
    · exact fun now same => buffered_init restarts same.child.left same.child.right rfl
    · exact fun now same size => project_next_same same size
  exact same.child.left

theorem filter_restarts (restarts : child.Restarts)
    (reached : (filterExecutor fuel predicate child).Reached state)
    (clean : state.leftover (keepRow predicate) = []) :
    Option.Rel (filterExecutor fuel predicate child).Alike
      ((filterExecutor fuel predicate child).init state)
      ((filterExecutor fuel predicate child).init (filterExecutor fuel predicate child).fresh) := by
  apply alike_started _ fun first second same size => filter_next_same same size
  exact buffered_init restarts (filter_reached restarts reached) .fresh (clean.trans rfl)

theorem projection_restarts (restarts : child.Restarts)
    (reached : (projectionExecutor expressions child).Reached state)
    (clean : state.pending = []) :
    Option.Rel (projectionExecutor expressions child).Alike
      ((projectionExecutor expressions child).init state)
      ((projectionExecutor expressions child).init
        (projectionExecutor expressions child).fresh) := by
  apply alike_started _ fun first second same size => project_next_same same size
  apply buffered_init restarts (projection_reached restarts reached) .fresh
  rw [BufferedState.leftover, clean]
  rfl

/-- The child started again hands out what it hands out first. -/
theorem started_again (restarts : child.Restarts) {state started : child.State}
    {rows : List (Row × RID)} (reached : child.Reached state)
    (begun : child.init child.fresh = some started) (delivers : child.Delivers false started rows) :
    ∃ again, child.init state = some again ∧ child.Delivers false again rows := by
  have related := restarts state reached
  rw [begun] at related
  obtain ⟨again, found, alike⟩ := rel_some_right related
  exact ⟨again, found, alike_delivers (alike_symm alike) delivers⟩

theorem filter_clean (restarts : child.Restarts)
    (reached : (filterExecutor fuel predicate child).Reached state)
    (yields : Yields fuel child) (same : Option.Rel (filterExecutor fuel predicate child).SameRows
      ((filterExecutor fuel predicate child).init state)
      ((filterExecutor fuel predicate child).init (filterExecutor fuel predicate child).fresh)) :
    state.leftover (keepRow predicate) = [] := by
  obtain ⟨started, rows, begun, delivers, enough⟩ := yields
  obtain ⟨again, found, delivers'⟩ :=
    started_again restarts (filter_reached restarts reached) begun delivers
  have front : (filterExecutor fuel predicate child).init state =
      some { state with child := again } := by
    simp [filterExecutor, found]
  have back : (filterExecutor fuel predicate child).init
    (filterExecutor fuel predicate child).fresh =
    some ({ child := started } : BufferedState child) := by
    simp [filterExecutor, begun]
  rw [front, back] at same
  cases same with
  | some same =>
      have left := filter_delivers predicate { state with child := again } delivers' enough
      have right := filter_delivers predicate { child := started } delivers enough
      -- what was left over is handed out in front of the child's rows
      exact List.append_left_eq_self.mp (same_rows_delivers same left right)

theorem projection_clean (restarts : child.Restarts)
    (reached : (projectionExecutor expressions child).Reached state)
    (yields : Yields fuel child) (same : Option.Rel (projectionExecutor expressions child).SameRows
      ((projectionExecutor expressions child).init state)
      ((projectionExecutor expressions child).init
        (projectionExecutor expressions child).fresh)) : state.pending = [] := by
  obtain ⟨started, rows, begun, delivers, -⟩ := yields
  obtain ⟨again, found, delivers'⟩ :=
    started_again restarts (projection_reached restarts reached) begun delivers
  have front : (projectionExecutor expressions child).init state =
      some { state with child := again } := by
    simp [projectionExecutor, found]
  have back : (projectionExecutor expressions child).init
    (projectionExecutor expressions child).fresh =
    some ({ child := started } : BufferedState child) := by
    simp [projectionExecutor, begun]
  rw [front, back] at same
  cases same with
  | some same =>
      have left := projection_delivers expressions { state with child := again } delivers' (by simp)
      have right := projection_delivers expressions { child := started } delivers (by simp)
      have nothing :=
        congrArg List.length (List.append_left_eq_self.mp (same_rows_delivers same left right))
      rw [BufferedState.leftover, project_rows] at nothing
      exact List.length_eq_zero_iff.mp nothing

end Buffered

section Others
variable {fuel : Nat} {child outer inner : Executor}

theorem limit_restarts {count : Nat} (restarts : child.Restarts) {state : LimitState child}
    (reached : (limitExecutor count child).Reached state) :
    Option.Rel (limitExecutor count child).Alike ((limitExecutor count child).init state)
      ((limitExecutor count child).init (limitExecutor count child).fresh) := by
  have inits {first second : LimitState child} (front : child.Reached first.child)
    (back : child.Reached second.child) :
      Option.Rel SameLimit ((limitExecutor count child).init first)
        ((limitExecutor count child).init second) :=
    rel_map (paired_init restarts front back) fun _ _ paired => ⟨rfl, paired⟩
  have same : SameLimit state state := by
    apply reached_same SameLimit _ _ _ reached
    · exact ⟨rfl, paired_fresh⟩
    · exact fun now same => inits same.child.left same.child.right
    · exact fun now same size => limit_next_same same size
  exact alike_started (inits same.child.left .fresh) fun first second same size =>
    limit_next_same same size

theorem nested_loop_restarts {plan : NestedLoopJoinPlan} (outerRestarts : outer.Restarts)
    (innerRestarts : inner.Restarts) {state : NestedLoopState outer inner}
    (reached : (nestedLoopJoinExecutor fuel plan outer inner).Reached state) :
    Option.Rel (nestedLoopJoinExecutor fuel plan outer inner).Alike
      ((nestedLoopJoinExecutor fuel plan outer inner).init state)
      ((nestedLoopJoinExecutor fuel plan outer inner).init
        (nestedLoopJoinExecutor fuel plan outer inner).fresh) := by
  have inits {first second : NestedLoopState outer inner} (front : outer.Reached first.left.state)
    (back : outer.Reached second.left.state) (right : inner.Reached first.right.state)
    (right' : inner.Reached second.right.state) :
    Option.Rel SameNestedLoop ((nestedLoopJoinExecutor fuel plan outer inner).init first)
      ((nestedLoopJoinExecutor fuel plan outer inner).init second) :=
    rel_map (paired_init outerRestarts front back) fun _ _ paired =>
      ⟨started_same paired, rfl, (by simp), (by simp), right, right'⟩
  have nexts (first second : NestedLoopState outer inner) (same : SameNestedLoop first second)
    (size : Nat) :
    Twins SameNestedLoop ((nestedLoopJoinExecutor fuel plan outer inner).next first size)
      ((nestedLoopJoinExecutor fuel plan outer inner).next second size) := by
    apply rel_bind (nested_loop_fetch_same innerRestarts same [])
    rintro ⟨out, after⟩ ⟨_, after'⟩ ⟨rfl, same⟩
    exact Option.Rel.some ⟨rfl, same⟩
  have same : SameNestedLoop state state := by
    apply reached_same SameNestedLoop _ _ _ reached
    · exact ⟨started_same paired_fresh, rfl, fun inside => absurd inside Bool.false_ne_true,
        fun inside => absurd inside Bool.false_ne_true, .fresh, .fresh⟩
    · exact fun now same =>
        inits same.left.state.left same.left.state.left same.reached same.reached
    · exact fun now same size => nexts now now same size
  exact alike_started (inits same.left.state.left .fresh same.reached .fresh) nexts

theorem hash_join_restarts {plan : HashJoinPlan} (outerRestarts : outer.Restarts)
    (innerRestarts : inner.Restarts) {state : HashJoinState outer inner}
    (reached : (hashJoinExecutor fuel plan outer inner).Reached state) :
    Option.Rel (hashJoinExecutor fuel plan outer inner).Alike
      ((hashJoinExecutor fuel plan outer inner).init state)
      ((hashJoinExecutor fuel plan outer inner).init
        (hashJoinExecutor fuel plan outer inner).fresh) := by
  have inits {first second : HashJoinState outer inner} (front : outer.Reached first.left.state)
    (back : outer.Reached second.left.state) (right : inner.Reached first.right)
      (right' : inner.Reached second.right) :
    Option.Rel SameHashJoin ((hashJoinExecutor fuel plan outer inner).init first)
      ((hashJoinExecutor fuel plan outer inner).init second) := by
    apply rel_bind (paired_init outerRestarts front back)
    intro started started' leftPaired
    apply rel_bind (paired_init innerRestarts right right')
    intro opened opened' paired
    apply rel_bind (paired_drain BUSTUB_BATCH_SIZE paired)
    rintro ⟨rows, drained⟩ ⟨_, drained'⟩ ⟨rfl, paired⟩
    exact Option.Rel.some ⟨started_same leftPaired, rfl, rfl, (by simp), (by simp),
      paired.left, paired.right⟩
  have nexts (first second : HashJoinState outer inner) (same : SameHashJoin first second)
    (size : Nat) :
    Twins SameHashJoin ((hashJoinExecutor fuel plan outer inner).next first size)
      ((hashJoinExecutor fuel plan outer inner).next second size) := by
    apply rel_bind (hash_join_fetch_same same [])
    rintro ⟨out, after⟩ ⟨_, after'⟩ ⟨rfl, same⟩
    exact Option.Rel.some ⟨rfl, same⟩
  have same : SameHashJoin state state := by
    apply reached_same SameHashJoin _ _ _ reached
    · exact ⟨started_same paired_fresh, rfl, rfl, fun inside => absurd inside Bool.false_ne_true,
        fun inside => absurd inside Bool.false_ne_true, .fresh, .fresh⟩
    · exact fun now same =>
        inits same.left.state.left same.left.state.left same.reached same.reached
    · exact fun now same size => nexts now now same size
  exact alike_started (inits same.left.state.left .fresh same.reached .fresh) nexts

theorem sort_restarts {stdSort : (Row → Row → Bool) → List Row → List Row} {less : Row → Row → Bool}
    (restarts : child.Restarts) {state : SortState child}
    (reached : (sortExecutor fuel stdSort less child).Reached state) :
    Option.Rel (sortExecutor fuel stdSort less child).Alike
      ((sortExecutor fuel stdSort less child).init state)
      ((sortExecutor fuel stdSort less child).init
        (sortExecutor fuel stdSort less child).fresh) := by
  have inits {first second : SortState child} (front : child.Reached first.child)
    (back : child.Reached second.child) :
      Option.Rel SameSort ((sortExecutor fuel stdSort less child).init first)
        ((sortExecutor fuel stdSort less child).init second) := by
    apply rel_bind (paired_init restarts front back)
    intro started started' paired
    apply rel_bind (paired_drain BUSTUB_BATCH_SIZE paired)
    rintro ⟨rows, drained⟩ ⟨_, drained'⟩ ⟨rfl, paired⟩
    exact Option.Rel.some ⟨rfl, rfl, paired.left, paired.right⟩
  have nexts (first second : SortState child) (same : SameSort first second) (size : Nat) :
      Twins SameSort ((sortExecutor fuel stdSort less child).next first size)
        ((sortExecutor fuel stdSort less child).next second size) := by
    obtain ⟨entries, cursor, reached, reached'⟩ := same
    simp only [sortExecutor, entries, cursor]
    exact Option.Rel.some ⟨rfl, rfl, rfl, reached, reached'⟩
  have same : SameSort state state := by
    apply reached_same SameSort _ _ _ reached
    · exact ⟨rfl, rfl, .fresh, .fresh⟩
    · exact fun now same => inits same.reached same.reached
    · exact fun now same size => nexts now now same size
  exact alike_started (inits same.reached .fresh) nexts

end Others

section Groups
variable {fuel : Nat} {order : MapOrder AggregateKey} {plan : AggregationPlan} {child : Executor}
  {state : AggregationState child} {aht : AggregationTable} {key : AggregateKey}
  {first second : AggregationState child}

def AggregationTable.Tidy (plan : AggregationPlan) (aht : AggregationTable) : Prop :=
  ∀ key ∈ MapCall.keys aht.past, (aht.ht.lookup key).isSome ∧ key.length = plan.groupBys.length

theorem clear_tidy (aht : AggregationTable) : aht.clear.Tidy plan := by
  simp [AggregationTable.Tidy, AggregationTable.clear, MapCall.keys]

theorem insert_initial_tidy (tidy : aht.Tidy plan)
    (length : key.length = plan.groupBys.length) : (aht.insertInitial plan key).Tidy plan := by
  intro other member
  have cases : other ∈ MapCall.keys aht.past ∨ other = key := by
    simpa [AggregationTable.insertInitial, MapCall.keys] using member
  by_cases same : other = key
  · subst same
    exact ⟨by simp [AggregationTable.insertInitial], length⟩
  · have old := tidy other (cases.resolve_right same)
    exact ⟨by simpa [AggregationTable.insertInitial,
      AList.lookup_insert_ne same] using old.1, old.2⟩

theorem insert_combine_tidy {value : AggregateValue} (tidy : aht.Tidy plan)
    (length : key.length = plan.groupBys.length) :
    (aht.insertCombine plan key value).Tidy plan := by
  have entered : (if (aht.ht.lookup key).isNone then aht.insertInitial plan key
      else aht).Tidy plan := by
    split
    · exact insert_initial_tidy tidy length
    · exact tidy
  intro other member
  obtain ⟨found, long⟩ := entered other member
  refine ⟨?_, long⟩
  by_cases same : other = key
  · subst same
    simp [AggregationTable.insertCombine]
  · simpa [AggregationTable.insertCombine, AList.lookup_insert_ne same] using found

theorem build_tidy (aht : AggregationTable) (rows : List Row) :
    (aht.build plan rows).Tidy plan := by
  have folded (rows : List Row) (aht : AggregationTable) (tidy : aht.Tidy plan) :
      (rows.foldl (fun aht row =>
        aht.insertCombine plan (plan.groupBys.map fun expr => expr row.values)
        (plan.aggregates.map fun expr => expr row.values)) aht).Tidy plan := by
    induction rows generalizing aht with
    | nil => exact tidy
    | cons row rows ih => exact ih _ (insert_combine_tidy tidy (by simp))
  unfold AggregationTable.build
  dsimp only
  split
  · rename_i empty
    have none : plan.groupBys = [] := by simpa using (Bool.and_eq_true_iff.mp empty).2
    exact insert_initial_tidy (folded rows _ (clear_tidy aht)) (by simp [none])
  · exact folded rows _ (clear_tidy aht)

/-- What the map holds does not depend on what it was used for before. -/
theorem build_ht (aht : AggregationTable) (rows : List Row) :
    (aht.build plan rows).ht = (AggregationTable.build plan {} rows).ht := by
  have combined {first second : AggregationTable} (same : first.ht = second.ht) (key : AggregateKey)
    (value : AggregateValue) :
      (first.insertCombine plan key value).ht = (second.insertCombine plan key value).ht := by
    simp only [AggregationTable.insertCombine, same]
    split <;> simp [AggregationTable.insertInitial, same]
  have folded (rows : List Row) (first second : AggregationTable) (same : first.ht = second.ht) :
      (rows.foldl (fun aht row =>
        aht.insertCombine plan (plan.groupBys.map fun expr => expr row.values)
        (plan.aggregates.map fun expr => expr row.values)) first).ht =
      (rows.foldl (fun aht row =>
        aht.insertCombine plan (plan.groupBys.map fun expr => expr row.values)
        (plan.aggregates.map fun expr => expr row.values)) second).ht := by
    induction rows generalizing first second with
    | nil => exact same
    | cons row rows ih => exact ih _ _ (combined same _ _)
  have tables := folded rows aht.clear (AggregationTable.clear {}) rfl
  simp only [AggregationTable.build, tables]
  split
  · simp only [AggregationTable.insertInitial, tables]
  · exact tables

/-- The rows that are handed out show the keys in the order of the listing. -/
theorem entries_keys (tidy : aht.Tidy plan) :
    ((aht.entries order).map entryRow).map (fun row => row.1.values.take plan.groupBys.length) =
      order.listing aht.past := by
  have listed (keys : List AggregateKey) (known : ∀ key ∈ keys, key ∈ MapCall.keys aht.past) :
      ((keys.filterMap fun key => (aht.ht.lookup key).map fun value =>
        (key, value)).map entryRow).map
        (fun row => row.1.values.take plan.groupBys.length) = keys := by
    induction keys with
    | nil => rfl
    | cons key keys ih =>
        obtain ⟨found, long⟩ := tidy key (known key List.mem_cons_self)
        obtain ⟨value, found⟩ := Option.isSome_iff_exists.mp found
        have rest := ih fun other member => known other (List.mem_cons_of_mem _ member)
        simp only [List.filterMap_cons, found, Option.map_some, List.map_cons, rest, entryRow,
          List.cons.injEq, and_true]
        rw [← long, List.take_left]
  exact listed _ fun key member => (order.perm aht.past).mem_iff.mp member

theorem entries_of_listing {first second : AggregationTable} (same : first.ht = second.ht)
    (listing : order.listing first.past = order.listing second.past) :
    first.entries order = second.entries order := by
  rw [AggregationTable.entries, AggregationTable.entries, same, listing]

theorem aggregation_next_same (same : SameAggregation first second) (size : Nat) :
    Twins SameAggregation ((aggregationExecutor fuel order plan child).next first size)
      ((aggregationExecutor fuel order plan child).next second size) := by
  obtain ⟨iterator, reached, reached'⟩ := same
  simp only [aggregationExecutor, iterator]
  exact Option.Rel.some ⟨rfl, rfl, reached, reached'⟩

theorem aggregation_init_same (restarts : child.Restarts) (front : child.Reached first.child)
    (back : child.Reached second.child)
    (listing : ∀ started rows drained, child.init second.child = some started →
      child.drain BUSTUB_BATCH_SIZE fuel started = some (rows, drained) →
        order.listing (first.aht.build plan rows).past =
          order.listing (second.aht.build plan rows).past) :
    Option.Rel SameAggregation ((aggregationExecutor fuel order plan child).init first)
      ((aggregationExecutor fuel order plan child).init second) := by
  have paired := paired_init restarts front back
  simp only [aggregationExecutor]
  generalize child.init first.child = started, begun : child.init second.child =
    started' at paired listing ⊢
  cases paired with
  | none => exact Option.Rel.none
  | @some started started' paired =>
      have drains : Twins child.Paired (child.drain BUSTUB_BATCH_SIZE fuel started) _ :=
        paired_drain _ paired
      simp only [Option.bind_eq_bind, Option.bind_some]
      generalize child.drain BUSTUB_BATCH_SIZE fuel started = drained,
        ended : child.drain BUSTUB_BATCH_SIZE fuel started' = drained' at drains ⊢
      cases drains with
      | none => exact Option.Rel.none
      | @some final final' same =>
          obtain ⟨rows, drained⟩ := final
          obtain ⟨rows', drained'⟩ := final'
          obtain ⟨rfl, paired⟩ : rows = rows' ∧ child.Paired drained drained' := same
          have tables : (first.aht.build plan rows).ht = (second.aht.build plan rows).ht :=
            (build_ht first.aht rows).trans (build_ht second.aht rows).symm
          exact Option.Rel.some ⟨entries_of_listing tables (listing _ _ _ rfl ended),
            paired.left, paired.right⟩

theorem aggregation_reached (restarts : child.Restarts)
    (reached : (aggregationExecutor fuel order plan child).Reached state) :
    child.Reached state.child := by
  have same : SameAggregation state state := by
    apply reached_same SameAggregation _ _ _ reached
    · exact ⟨rfl, .fresh, .fresh⟩
    · exact fun now same =>
        aggregation_init_same restarts same.reached same.reached fun _ _ _ _ _ => rfl
    · exact fun now same size => aggregation_next_same same size
  exact same.reached

theorem aggregation_restarts (restarts : child.Restarts)
    (reached : (aggregationExecutor fuel order plan child).Reached state)
    (clean : (Operator.aggregation order plan child).Clean fuel state) :
    Option.Rel (aggregationExecutor fuel order plan child).Alike
      ((aggregationExecutor fuel order plan child).init state)
      ((aggregationExecutor fuel order plan child).init
        (aggregationExecutor fuel order plan child).fresh) := by
  apply alike_started _ fun first second same size => aggregation_next_same same size
  exact aggregation_init_same restarts (aggregation_reached restarts reached) .fresh clean

theorem aggregation_started {started drained : child.State} {rows : List Row}
    (begun : child.init state.child = some started)
    (ends : child.drain BUSTUB_BATCH_SIZE fuel started = some (rows, drained)) :
    (aggregationExecutor fuel order plan child).init state =
      some {
        child := drained
        aht := state.aht.build plan rows
        ahtIterator := (state.aht.build plan rows).entries order } := by
  simp [aggregationExecutor, begun, ends]

theorem aggregation_clean (restarts : child.Restarts)
    (reached : (aggregationExecutor fuel order plan child).Reached state)
    (yields : Yields fuel child)
    (same : Option.Rel (aggregationExecutor fuel order plan child).SameRows
      ((aggregationExecutor fuel order plan child).init state)
      ((aggregationExecutor fuel order plan child).init
        (aggregationExecutor fuel order plan child).fresh)) :
    (Operator.aggregation order plan child).Clean fuel state := by
  obtain ⟨started, handed, begun, delivers, enough⟩ := yields
  obtain ⟨again, found, delivers'⟩ :=
    started_again restarts (aggregation_reached restarts reached) begun delivers
  have positive : 0 < BUSTUB_BATCH_SIZE := by decide
  obtain ⟨drained, ends⟩ := drain_delivers delivers positive enough
  obtain ⟨drained', ends'⟩ := drain_delivers delivers' positive enough
  rw [aggregation_started found ends', show (aggregationExecutor fuel order plan child).init
    (aggregationExecutor fuel order plan child).fresh =
      _ from aggregation_started begun ends] at same
  intro opened rows closed opens closes
  obtain rfl : started = opened := Option.some.inj (begun.symm.trans opens)
  obtain ⟨rfl, -⟩ : handed.map Prod.fst = rows ∧ drained = closed := by simpa [ends] using closes
  cases same with
  | some same =>
      have rows := same_rows_delivers same (aggregation_delivers _) (aggregation_delivers _)
      have shown := congrArg (List.map fun row => row.1.values.take plan.groupBys.length) rows
      rwa [entries_keys (build_tidy _ _), entries_keys (build_tidy _ _)] at shown

end Groups

theorem values_restarts (values : List Tuple) : (valuesExecutor values).Restarts :=
  fun _ _ => Option.Rel.some (alike_refl _)

/-- Started again from a clean state an executor answers as a new one that is
started; over children that hand out finitely many rows it brings the rows that a
new one brings only from a clean state. -/
theorem executors_restart (op : Operator) (fuel : Nat)
    (restarts : ∀ child ∈ op.children, child.Restarts) {state : (op.executor fuel).State}
    (reached : (op.executor fuel).Reached state) :
    (op.Clean fuel state →
      Option.Rel (op.executor fuel).Alike ((op.executor fuel).init state)
        ((op.executor fuel).init (op.executor fuel).fresh)) ∧
    ((∀ child ∈ op.children, Yields fuel child) →
      (Option.Rel (op.executor fuel).SameRows ((op.executor fuel).init state)
        ((op.executor fuel).init (op.executor fuel).fresh) ↔ op.Clean fuel state)) := by
  have settled (alike : op.Clean fuel state →
      Option.Rel (op.executor fuel).Alike ((op.executor fuel).init state)
        ((op.executor fuel).init (op.executor fuel).fresh))
      (clean : (∀ child ∈ op.children, Yields fuel child) →
        Option.Rel (op.executor fuel).SameRows ((op.executor fuel).init state)
          ((op.executor fuel).init (op.executor fuel).fresh) → op.Clean fuel state) :
      (op.Clean fuel state → Option.Rel (op.executor fuel).Alike ((op.executor fuel).init state)
        ((op.executor fuel).init (op.executor fuel).fresh)) ∧
      ((∀ child ∈ op.children, Yields fuel child) →
        (Option.Rel (op.executor fuel).SameRows ((op.executor fuel).init state)
          ((op.executor fuel).init (op.executor fuel).fresh) ↔ op.Clean fuel state)) := by
    refine ⟨alike, fun yields => ⟨clean yields, fun clean => ?_⟩⟩
    exact rel_imp (fun _ _ alike => alike_same_rows alike) (alike clean)
  cases op with
  | seqScan view filterPredicate =>
      exact settled (fun _ => Option.Rel.some (alike_refl _)) fun _ _ => trivial
  | indexScan view index plan =>
      exact settled (fun _ => rel_refl (fun _ => alike_refl _) _) fun _ _ => trivial
  | values rows => exact settled (fun _ => values_restarts rows state reached) fun _ _ => trivial
  | filter predicate child =>
      have restarts := restarts child List.mem_cons_self
      apply settled
      · exact fun clean => filter_restarts restarts reached ((leftover_nil state).mpr clean)
      · exact fun yields same => (leftover_nil state).mp
          (filter_clean restarts reached (yields child List.mem_cons_self) same)
  | projection expressions child =>
      have restarts := restarts child List.mem_cons_self
      apply settled
      · exact fun clean => projection_restarts restarts reached clean
      · exact fun yields same =>
          projection_clean restarts reached (yields child List.mem_cons_self) same
  | limit count child =>
      exact settled (fun _ => limit_restarts (restarts child List.mem_cons_self) reached) fun _ _ =>
        trivial
  | nestedLoopJoin plan left right =>
      exact settled (fun _ => nested_loop_restarts (restarts left List.mem_cons_self)
        (restarts right (List.mem_cons_of_mem _ List.mem_cons_self)) reached) fun _ _ => trivial
  | hashJoin plan left right =>
      exact settled (fun _ => hash_join_restarts (restarts left List.mem_cons_self)
        (restarts right (List.mem_cons_of_mem _ List.mem_cons_self)) reached) fun _ _ => trivial
  | sort stdSort less child =>
      exact settled (fun _ => sort_restarts (restarts child List.mem_cons_self) reached) fun _ _ =>
        trivial
  | aggregation order plan child =>
      have restarts := restarts child List.mem_cons_self
      apply settled
      · exact fun clean => aggregation_restarts restarts reached clean
      · exact fun yields same =>
          aggregation_clean restarts reached (yields child List.mem_cons_self) same

/-! The filter that refuses the first of five rows, started and asked for some of them. -/

theorem numbers_yield : Yields 6 (valuesExecutor numberRows) :=
  ⟨(0 : Nat), _, rfl, fun sizes positives =>
    meets_loose (values_delivers numberRows sizes positives), by decide⟩

theorem asked_reached (size : Nat) {batch : Batch Row RID}
    {state : BufferedState (valuesExecutor numberRows)}
    (asked : (filterExecutor 6 notZero (valuesExecutor numberRows)).next
      { child := (0 : Nat) } size = some
      (batch, state)) :
    (filterExecutor 6 notZero (valuesExecutor numberRows)).Reached state :=
  .next (.init .fresh rfl) asked

def afterOne : BufferedState (valuesExecutor numberRows) where
  child := (2 : Nat)
  childTuples := [⟨[⟨.integer, some (.number 1)⟩], RID.invalid⟩]
  childRids := [RID.invalid]

theorem asked_once_restarts :
    Option.Rel (filterExecutor 6 notZero (valuesExecutor numberRows)).Alike
        ((filterExecutor 6 notZero (valuesExecutor numberRows)).init afterOne)
        ((filterExecutor 6 notZero (valuesExecutor numberRows)).init { child := (0 : Nat) }) ∧
      (Option.Rel (filterExecutor 6 notZero (valuesExecutor numberRows)).SameRows
          ((filterExecutor 6 notZero (valuesExecutor numberRows)).init afterOne)
          ((filterExecutor 6 notZero (valuesExecutor numberRows)).init { child := (0 : Nat) }) ↔
        (Operator.filter notZero (valuesExecutor numberRows)).Clean 6 afterOne) := by
  have children (child : Executor)
      (member : child ∈ (Operator.filter notZero (valuesExecutor numberRows)).children) :
      child = valuesExecutor numberRows := by simpa [Operator.children] using member
  have restarts (child : Executor)
    (member : child ∈ (Operator.filter notZero (valuesExecutor numberRows)).children) :
      child.Restarts := by
    rw [children child member]
    exact values_restarts numberRows
  have settled :=
    executors_restart (.filter notZero (valuesExecutor numberRows)) 6 restarts (asked_reached 1 rfl)
  have clean : ∀ entry ∈ afterOne.pending, holds (notZero entry.1.values) = false := by
    simp [afterOne, BufferedState.pending]
  refine ⟨settled.1 clean, settled.2 fun child member => ?_⟩
  rw [children child member]
  exact numbers_yield

/-- Asked for two rows it keeps one back; started again it hands that one out first. -/
theorem kept_row_comes_again : (valuesExecutor numberRows).Restarts ∧
    ∃ state, (filterExecutor 6 notZero (valuesExecutor numberRows)).Reached state ∧
      ¬ Option.Rel (filterExecutor 6 notZero (valuesExecutor numberRows)).SameRows
        ((filterExecutor 6 notZero (valuesExecutor numberRows)).init state)
        ((filterExecutor 6 notZero (valuesExecutor numberRows)).init
          (filterExecutor 6 notZero (valuesExecutor numberRows)).fresh) := by
  refine ⟨values_restarts numberRows, _, asked_reached 2 rfl, fun same => ?_⟩
  cases same with
  | some same => exact absurd (same [1]) (by decide)

end BusTub
