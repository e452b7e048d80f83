import BusTub.HashJoinAgreement

/-!
The nested-loop join is the join of two row sequences, in their order, however
the children cut their rows into batches and whatever sizes `Next` is asked for,
if and only if there is a NULL for every column of a row that it pads.
-/

namespace BusTub

open BatchSource

/-- For each left row its concatenations with the right rows that match, or in a
LEFT join the padded row where none does. -/
def relationalJoin (plan : NestedLoopJoinPlan) (lefts rights : List Row) : List (Row × RID) :=
  lefts.flatMap fun left =>
    let matching := rights.filter fun right => plan.predicate left.values right.values = some true
    if matching = [] ∧ plan.joinType = .left then [joinTuple plan.rightSchema left none]
    else matching.map fun right => joinTuple plan.rightSchema left (some right)

section NestedLoops
variable {plan : NestedLoopJoinPlan} {outer inner : Executor} {rights : List (Row × RID)}

theorem joined_relational (plan : NestedLoopJoinPlan) (left : Row) (rows : List Row) :
    joinedRows plan left false rows = relationalJoin plan [left] rows := by
  have same : rows.filter (plan.accepts left) = rows.filter fun right =>
    plan.predicate left.values right.values = some true :=
    rfl
  rw [joined_false, same, relationalJoin, List.flatMap_singleton]
  dsimp only
  by_cases none : (rows.filter fun right => plan.predicate left.values right.values = some true) =
    []
  · by_cases padded : plan.joinType = .left
    · simp [none, padded, paddedRows]
    · simp [none, padded, paddedRows]
  · simp only [none, if_false, false_and]

theorem relational_cons (left : Row) (lefts rows : List Row) :
    relationalJoin plan (left :: lefts) rows = relationalJoin plan [left] rows ++
      relationalJoin plan lefts rows := by
  simp [relationalJoin]

/-- The rounds that the join takes: for each left row one to fetch it, one for
each right row, and one to see that there are no more. -/
theorem joined_in_order {Idle : inner.State → Prop}
    (restarts : ∀ state, Idle state → ∃ started, inner.init state = some started ∧
      inner.Delivers false started rights ∧ ∀ final, Drained inner started final → Idle final)
    (lefts : List Row) (pads : ∀ left ∈ lefts, plan.Pads left (rights.map Prod.fst))
    {state : inner.State} (idle : Idle state) :
    Joined false plan inner state lefts (relationalJoin plan lefts (rights.map Prod.fst))
      (lefts.length * (rights.length + 2)) := by
  induction lefts generalizing state with
  | nil =>
      rw [List.length_nil, Nat.zero_mul]
      exact .nil state
  | cons left lefts ih =>
      obtain ⟨started, begun, delivers, ends⟩ := restarts state idle
      obtain ⟨final, drained⟩ := drained_of delivers
      have later := ih (fun left member => pads left (List.mem_cons_of_mem _ member))
        (ends final drained)
      have rounds : (left :: lefts).length * (rights.length + 2) =
          rights.length + 2 + lefts.length * (rights.length + 2) := by
        rw [List.length_cons, Nat.succ_mul, Nat.add_comm]
      rw [relational_cons, ← joined_relational, rounds]
      exact .cons begun delivers drained (pads left List.mem_cons_self) later

theorem joined_delivers {fuel rounds : Nat} {opened : outer.State} {lefts out : List (Row × RID)}
    (delivers : outer.Delivers false opened lefts)
    (joined : Joined false plan inner inner.fresh (lefts.map Prod.fst) out rounds)
    (enough : rounds < fuel + 2) :
    (nestedLoopJoinExecutor (fuel + 2) plan outer inner).Delivers true
      { left := { state := opened }, right := { state := inner.fresh } } out := by
  have toJoin : ToJoin false plan
    ({ left := { state := opened }, right := { state := inner.fresh } } :
      NestedLoopState outer inner) out rounds :=
    ⟨fun _ => ⟨_, started_comes delivers, joined⟩, (by simp)⟩
  exact nested_loop_delivers toJoin enough

end NestedLoops

section Unpadded
variable {strict : Bool} {plan : NestedLoopJoinPlan} {outer inner : Executor}
  {out : List (Row × RID)}

inductive Unpadded (strict : Bool) (plan : NestedLoopJoinPlan) (inner : Executor) :
    inner.State → List Row → Nat → Prop where
  | here {state started final : inner.State} {left : Row} {lefts : List Row}
    {rows : List (Row × RID)} :
      inner.init state = some started → inner.Delivers strict started rows →
        Drained inner started final → ¬ plan.Pads left (rows.map Prod.fst) →
          Unpadded strict plan inner state (left :: lefts) (rows.length + 2)
  | later {state started final : inner.State} {left : Row} {lefts : List Row}
    {rows : List (Row × RID)} {work : Nat} :
      inner.init state = some started → inner.Delivers strict started rows →
        Drained inner started final → Unpadded strict plan inner final lefts work →
          Unpadded strict plan inner state (left :: lefts) (rows.length + 2 + work)

structure ToThrow (strict : Bool) (plan : NestedLoopJoinPlan) (state : NestedLoopState outer inner)
    (work : Nat) : Prop where
  between : state.currentLeft = none → ∃ lefts, Comes strict state.left lefts ∧
    Unpadded strict plan inner state.right.state lefts work
  inside : ∀ current, state.currentLeft = some current → ∃ lefts rows final,
    Comes strict state.left lefts ∧ Comes strict state.right rows ∧
      Drained inner state.right.state final ∧
        (state.currentMatchFound = false ∧ ¬ plan.Pads current rows ∧ work = rows.length + 1 ∨
          ∃ further, Unpadded strict plan inner final lefts further ∧
            work = rows.length + 1 + further)

/-- A call that asks for more rows than come before it reaches that row and throws. -/
theorem nested_loop_throws (fuel : Nat) {size rounds work : Nat}
    {state : NestedLoopState outer inner} (toThrow : ToThrow strict plan state work)
    (room : out.length + work ≤ size) :
    nestedLoopFetch (fuel + 2) plan outer inner size rounds state out = none := by
  induction rounds generalizing state work out with
  | zero => rfl
  | succ rounds ih =>
      unfold nestedLoopFetch
      cases current : state.currentLeft with
      | none =>
          obtain ⟨lefts, comes, unpadded⟩ := toThrow.between current
          obtain ⟨cursor, advanced, comes⟩ := advance_spec comes
          rw [advanced]
          cases unpadded with
          -- its right rows are still to be gone through
          | @here _ started final left lefts rows begun delivers drained missing =>
              have moved : ToThrow strict plan
                { left := cursor, right := { state := started }, currentLeft := some left,
                  currentMatchFound := false } (rows.length + 1) := by
                refine ⟨(by simp), fun now same => ?_⟩
                obtain rfl := Option.some.inj same
                exact ⟨lefts, rows.map Prod.fst, final, comes, started_comes delivers, drained,
                  Or.inl ⟨rfl, missing, by simp⟩⟩
              have notFull : ¬ size ≤ out.length := by omega
              simpa [notFull, begun] using ih moved (by omega)
          | @later _ started final left lefts rows further begun delivers drained unpadded =>
              have moved : ToThrow strict plan
                { left := cursor, right := { state := started }, currentLeft := some left,
                  currentMatchFound := false } (rows.length + 1 + further) := by
                refine ⟨(by simp), fun now same => ?_⟩
                obtain rfl := Option.some.inj same
                exact ⟨lefts, rows.map Prod.fst, final, comes, started_comes delivers, drained,
                  Or.inr ⟨further, unpadded, by simp⟩⟩
              have notFull : ¬ size ≤ out.length := by omega
              simpa [notFull, begun] using ih moved (by omega)
      | some left =>
          obtain ⟨lefts, rows, final, comes, rights, drained, reaches⟩ :=
            toThrow.inside left current
          obtain ⟨cursor, fetched, rights, ends, goes⟩ := fetch_right_spec fuel rights drained
          have notFull : ¬ size ≤ out.length := by
            rcases reaches with ⟨-, -, rfl⟩ | ⟨further, -, rfl⟩ <;> omega
          simp only [notFull, ↓reduceIte, fetched]
          cases rows with
          | nil =>
              rcases reaches with ⟨unmatched, missing, rfl⟩ | ⟨further, unpadded, rfl⟩
              · -- the row that cannot be padded is done
                have joins : plan.joinType = .left := by
                  by_contra inner
                  exact missing fun left => absurd left inner
                have throws : ¬ HasNulls plan.rightSchema := fun nulls => missing fun _ _ => nulls
                simp [unmatched, joins, build_throws throws]
              · have moved : ToThrow strict plan
                  { state with right := cursor, currentLeft := none } further := by
                  refine ⟨fun _ => ⟨lefts, comes, ?_⟩, (by simp)⟩
                  rw [show cursor.state = final from ends rfl]
                  exact unpadded
                simp only [List.length_nil] at room
                have passed := ih moved (show out.length + further ≤ size by omega)
                have padded := fun row : Row × RID =>
                  ih moved (show (out ++ [row]).length + further ≤ size by simp; omega)
                cases buildJoinTuple plan.rightSchema left none <;> simp [padded, passed]
          | cons found rows =>
              have drained := goes (List.cons_ne_nil found rows)
              simp only [List.length_cons] at reaches
              cases matched : holds (plan.predicate left.values found.values) with
              | true =>
                  rcases reaches with ⟨-, missing, -⟩ | ⟨further, unpadded, rfl⟩
                  · -- the row that cannot be padded has no match
                    refine absurd (fun _ none => ?_) missing
                    have refused := none found List.mem_cons_self
                    simp [NestedLoopJoinPlan.accepts, matched] at refused
                  · have moved : ToThrow strict plan
                      { left := state.left, right := cursor, currentLeft := some left,
                        currentMatchFound := true } (rows.length + 1 + further) := by
                      refine ⟨(by simp), fun now same => ?_⟩
                      obtain rfl := Option.some.inj same
                      exact ⟨lefts, rows, final, comes, rights, drained,
                        Or.inr ⟨further, unpadded, rfl⟩⟩
                    have throws := fun row : Row × RID => ih moved
                      (show (out ++ [row]).length + (rows.length + 1 + further) ≤ size by
                        simp; omega)
                    simpa [matched, build_matched, current] using throws _
              | false =>
                  have moved : ∃ work, ToThrow strict plan
                    { left := state.left, right := cursor, currentLeft := some left,
                      currentMatchFound := state.currentMatchFound } work ∧
                      out.length + work ≤ size := by
                    rcases reaches with ⟨unmatched, missing, rfl⟩ | ⟨further, unpadded, rfl⟩
                    · refine ⟨rows.length + 1, ⟨(by simp), fun now same => ?_⟩, by omega⟩
                      obtain rfl := Option.some.inj same
                      refine ⟨lefts, rows, final, comes, rights, drained,
                        Or.inl ⟨unmatched, fun pads => missing fun joins none => ?_, rfl⟩⟩
                      exact pads joins fun right member =>
                        none right (List.mem_cons_of_mem _ member)
                    · refine ⟨rows.length + 1 + further, ⟨(by simp), fun now same => ?_⟩, by omega⟩
                      obtain rfl := Option.some.inj same
                      exact ⟨lefts, rows, final, comes, rights, drained,
                        Or.inr ⟨further, unpadded, rfl⟩⟩
                  obtain ⟨work, moved, room⟩ := moved
                  simpa [matched, current] using ih moved room

theorem unpadded_in_order {rights : List (Row × RID)} (restarts : ∀ state, inner.Reached state →
      ∃ started, inner.init state = some started ∧ inner.Delivers false started rights)
    {lefts : List Row} (missing : ∃ left ∈ lefts, ¬ plan.Pads left (rights.map Prod.fst))
    {state : inner.State} (reached : inner.Reached state) :
    ∃ work, Unpadded false plan inner state lefts work := by
  induction lefts generalizing state with
  | nil => simp at missing
  | cons left lefts ih =>
      obtain ⟨started, begun, delivers⟩ := restarts state reached
      obtain ⟨final, drained⟩ := drained_of delivers
      rcases (List.exists_mem_cons_iff _ _ _).mp missing with missing | missing
      · exact ⟨_, .here begun delivers drained missing⟩
      · obtain ⟨work, unpadded⟩ := ih missing (drained_reached drained (reached.init begun))
        exact ⟨_, .later begun delivers drained unpadded⟩

theorem outputs_padded {lefts rights : List (Row × RID)} {opened : outer.State}
    (begun : outer.init outer.fresh = some opened) (delivers : outer.Delivers false opened lefts)
    (restarts : ∀ state, inner.Reached state →
      ∃ started, inner.init state = some started ∧ inner.Delivers false started rights)
    (fuel : Nat)
    (outputs : Outputs (nestedLoopJoinExecutor (fuel + 2) plan outer inner) out) :
    ∀ left ∈ lefts.map Prod.fst, plan.Pads left (rights.map Prod.fst) := by
  obtain ⟨first, started, outputs⟩ := outputs
  by_contra fails
  push Not at fails
  obtain ⟨work, unpadded⟩ := unpadded_in_order restarts fails .fresh
  simp only [nestedLoopJoinExecutor, begun, Option.map_some] at started
  obtain rfl := Option.some.inj started
  have toThrow : ToThrow false plan
    ({ left := { state := opened }, right := { state := inner.fresh } } :
      NestedLoopState outer inner) work :=
    ⟨fun _ => ⟨_, started_comes delivers, unpadded⟩, (by simp)⟩
  obtain ⟨batch, after, left, answered, -⟩ := delivers_next outputs (Nat.succ_pos work)
  have throws : nestedLoopFetch (fuel + 2) plan outer inner (work + 1) (fuel + 2) _ [] = none :=
    nested_loop_throws fuel toThrow (by simp)
  simp [nestedLoopJoinExecutor, throws] at answered

end Unpadded

section Joins
variable {plan : NestedLoopJoinPlan} {outer inner : Executor} {lefts rights : List (Row × RID)}

theorem padded_outputs
    (brings : ∃ started, outer.init outer.fresh = some started ∧ outer.Delivers false started lefts)
    (restarts : ∀ state, inner.Reached state →
      ∃ started, inner.init state = some started ∧ inner.Delivers false started rights) {fuel : Nat}
    (enough : lefts.length * (rights.length + 2) + 2 ≤ fuel)
    (pads : ∀ left ∈ lefts.map Prod.fst, plan.Pads left (rights.map Prod.fst)) :
    Outputs (nestedLoopJoinExecutor fuel plan outer inner)
      (relationalJoin plan (lefts.map Prod.fst) (rights.map Prod.fst)) := by
  obtain ⟨started, begun, delivers⟩ := brings
  obtain ⟨fuel, rfl⟩ := Nat.exists_eq_add_of_le' (by omega : 2 ≤ fuel)
  have again : ∀ state, inner.Reached state → ∃ started, inner.init state = some started ∧
      inner.Delivers false started rights ∧
      ∀ final, Drained inner started final → inner.Reached final := by
    intro state reached
    obtain ⟨started, begun, delivers⟩ := restarts state reached
    exact ⟨started, begun, delivers, fun final drained =>
      drained_reached drained (reached.init begun)⟩
  have joined := joined_in_order again (lefts.map Prod.fst) pads .fresh
  rw [List.length_map] at joined
  exact ⟨_, by simp [nestedLoopJoinExecutor, begun], joined_delivers delivers joined (by omega)⟩

end Joins

/-- The left child brings `lefts` after its `Init`, the right child `rights` after
every one of its own. -/
theorem nested_loop_join_is_relational (plan : NestedLoopJoinPlan) (outer inner : Executor)
    (lefts rights : List (Row × RID))
    (brings : ∃ started, outer.init outer.fresh = some started ∧ outer.Delivers false started lefts)
    (restarts : ∀ state, inner.Reached state →
      ∃ started, inner.init state = some started ∧ inner.Delivers false started rights) (fuel : Nat)
    (enough : lefts.length * (rights.length + 2) + 2 ≤ fuel) :
    Outputs (nestedLoopJoinExecutor fuel plan outer inner)
        (relationalJoin plan (lefts.map Prod.fst) (rights.map Prod.fst)) ↔
      ∀ left ∈ lefts.map Prod.fst, plan.Pads left (rights.map Prod.fst) := by
  constructor
  · intro outputs
    obtain ⟨started, begun, delivers⟩ := brings
    obtain ⟨fuel, rfl⟩ := Nat.exists_eq_add_of_le' (by omega : 2 ≤ fuel)
    exact outputs_padded begun delivers restarts fuel outputs
  · exact padded_outputs brings restarts enough

def nullableRow (number : Option Int) : Row := ⟨[⟨.integer, number.map .number⟩], RID.invalid⟩

def equalColumns : NestedLoopJoinPlan where
  joinType := .left
  rightSchema := [.integer]
  predicate left right :=
    match left, right with
    | [first], [second] => (first.compare .equal second).join
    | _, _ => none

/-- 1 has two partners, 2 has none beside the NULL. -/
theorem equal_columns_joined :
    Outputs (nestedLoopJoinExecutor 100 equalColumns
          (listedRows [nullableRow (some 1), nullableRow (some 2)])
          (listedRows [nullableRow (some 1), nullableRow none, nullableRow (some 1)]))
        (relationalJoin equalColumns [nullableRow (some 1), nullableRow (some 2)]
          [nullableRow (some 1), nullableRow none, nullableRow (some 1)]) ↔
      ∀ left ∈ [nullableRow (some 1), nullableRow (some 2)],
        equalColumns.Pads left [nullableRow (some 1), nullableRow none, nullableRow (some 1)] :=
  nested_loop_join_is_relational equalColumns
    (listedRows [nullableRow (some 1), nullableRow (some 2)])
    (listedRows [nullableRow (some 1), nullableRow none, nullableRow (some 1)])
    ([nullableRow (some 1), nullableRow (some 2)].map fun row => (row, row.rid))
    ([nullableRow (some 1), nullableRow none, nullableRow (some 1)].map fun row => (row, row.rid))
    ⟨_, rfl, listed_delivers _ _⟩ (fun _ _ => ⟨_, rfl, listed_delivers _ _⟩) 100 (by decide)

def withVectors : NestedLoopJoinPlan where
  joinType := .left
  rightSchema := [.integer, .vector]
  predicate left right :=
    match left, right with
    | [first], [second, _] => (first.compare .equal second).join
    | _, _ => none

/-- The one left row has no partner: there is no NULL of the VECTOR column to pad it with,
and the join throws where it should hand the row out. -/
theorem vector_column_throws :
    relationalJoin withVectors [nullableRow (some 1)] [] =
        [(⟨[⟨.integer, some (.number 1)⟩, ⟨.integer, none⟩, ⟨.vector, none⟩], RID.invalid⟩,
          RID.invalid)] ∧
      ∀ fuel rows, ¬ Outputs (nestedLoopJoinExecutor (fuel + 2) withVectors
        (listedRows [nullableRow (some 1)]) (listedRows [])) rows := by
  refine ⟨by decide, fun fuel rows => ?_⟩
  intro outputs
  have pads := outputs_padded rfl (listed_delivers [nullableRow (some 1)] _)
    (fun _ _ => ⟨_, rfl, listed_delivers [] _⟩) fuel outputs
  exact absurd (pads _ List.mem_cons_self rfl (by simp)) (by decide)

end BusTub
