import BusTub.HashJoinKeys
import BusTub.ExecutorContracts
import Mathlib.Data.List.Perm.Basic

/-!
The hash join that a nested-loop join is rewritten to hands out the rows of the
nested-loop join, whatever the batches and the order in which the children bring
theirs, exactly when the hashes of two keys and `operator==` of them say what the
predicate says of the rows. They do for keys whose columns have the same type or
are integers of any width.
-/

namespace BusTub

open BatchSource

/-! ### Children -/

def Supplies (child : Executor) (rows : List Row) : Prop :=
  ∀ state, child.Reached state → ∃ started out, child.init state = some started ∧
    child.Delivers false started out ∧ (out.map Prod.fst).Perm rows

/-- What an executor that was just made hands out. -/
def Outputs (executor : Executor) (out : List (Row × RID)) : Prop :=
  ∃ started, executor.init executor.fresh = some started ∧ executor.Delivers true started out

theorem outputs_unique {executor : Executor} {out other : List (Row × RID)}
    (front : Outputs executor out) (back : Outputs executor other) : out = other := by
  obtain ⟨started, begun, delivers⟩ := front
  obtain ⟨started', begun', delivers'⟩ := back
  obtain rfl : started = started' := by simpa [begun] using begun'
  exact delivers_unique delivers delivers'

def listedRows (rows : List Row) : Executor where
  State := List (Row × RID)
  fresh := []
  init _ := some (rows.map fun row => (row, row.rid))
  next rest size := some (handOut (rest.take size), rest.drop size)

theorem listed_delivers (rows : List Row) (rest : List (Row × RID)) :
    (listedRows rows).Delivers false rest rest := by
  apply delivers_of fun (now : List (Row × RID)) out => out = now
  · rintro now _ size rfl positive
    exact ⟨_, _, _, rfl, answers_take _ positive, (by simp), rfl⟩
  · rfl

theorem listed_supplies {rows listed : List Row} (perm : listed.Perm rows) :
    Supplies (listedRows listed) rows := by
  intro state _
  refine ⟨_, _, rfl, listed_delivers listed _, ?_⟩
  simpa [Function.comp_def] using perm

section NestedLoops
variable {outer inner : Executor} {plan : NestedLoopJoinPlan} {lefts rights : List Row}
  {rows others : List Row} {left : Row}

theorem joined_true (plan : NestedLoopJoinPlan) (left : Row) (rows : List Row) :
    joinedRows plan left true rows =
      (rows.filter (plan.accepts left)).map fun right =>
        joinTuple plan.rightSchema left (some right) := by
  induction rows with
  | nil => simp [joinedRows, paddedRows]
  | cons right rows ih =>
      cases accepted : holds (plan.predicate left.values right.values) <;>
        simp [joinedRows, NestedLoopJoinPlan.accepts, accepted, ih]

theorem joined_false (plan : NestedLoopJoinPlan) (left : Row) (rows : List Row) :
    joinedRows plan left false rows =
      if rows.filter (plan.accepts left) = [] then
        paddedRows plan.joinType plan.rightSchema left false
      else (rows.filter (plan.accepts left)).map fun right =>
        joinTuple plan.rightSchema left (some right) := by
  induction rows with
  | nil => rfl
  | cons right rows ih =>
      cases accepted : holds (plan.predicate left.values right.values) with
      | true => simp [joinedRows, NestedLoopJoinPlan.accepts, accepted, joined_true]
      | false => simpa [joinedRows, NestedLoopJoinPlan.accepts, accepted, List.filter_cons] using ih

theorem joined_perm (left : Row) (perm : rows.Perm others) :
    (joinedRows plan left false rows).Perm (joinedRows plan left false others) := by
  have kept := perm.filter (plan.accepts left)
  rw [joined_false, joined_false]
  by_cases none : rows.filter (plan.accepts left) = []
  · have nothing : others.filter (plan.accepts left) = [] := List.Perm.nil_eq (none ▸ kept) |>.symm
    simp [none, nothing]
  · have something : others.filter (plan.accepts left) ≠ [] :=
      fun nothing => none (kept.trans (by rw [nothing])).eq_nil
    simpa [none, something] using kept.map _

theorem pads_perm (perm : rows.Perm others) (pads : plan.Pads left rows) : plan.Pads left others :=
  fun joins none => pads joins fun right member => none right (perm.mem_iff.mp member)

/-- The right side is started for each left row and brings its rows in an order of its own. -/
theorem joined_supplied (supplies : Supplies inner rights) (lefts : List Row)
    (pads : ∀ left ∈ lefts, plan.Pads left rights) {state : inner.State}
    (reached : inner.Reached state) : ∃ rest work, Joined false plan inner state lefts rest work ∧
      rest.Perm (lefts.flatMap fun left => joinedRows plan left false rights) := by
  induction lefts generalizing state with
  | nil => exact ⟨[], 0, .nil state, .nil⟩
  | cons left lefts ih =>
      obtain ⟨started, rows, begun, delivers, perm⟩ := supplies state reached
      obtain ⟨final, drained⟩ := drained_of delivers
      obtain ⟨rest, work, joined, same⟩ :=
        ih (fun left member => pads left (List.mem_cons_of_mem _ member))
          (drained_reached drained (reached.init begun))
      have padded := pads_perm perm.symm (pads left List.mem_cons_self)
      refine ⟨_, _, .cons begun delivers drained padded joined, ?_⟩
      exact (joined_perm left perm).append same

theorem nested_loop_outputs (outerSupplies : Supplies outer lefts)
    (innerSupplies : Supplies inner rights) (pads : ∀ left ∈ lefts, plan.Pads left rights) :
    ∃ out bound, (∀ fuel, bound ≤ fuel →
      Outputs (nestedLoopJoinExecutor fuel plan outer inner) out) ∧
      out.Perm (lefts.flatMap fun left => joinedRows plan left false rights) := by
  obtain ⟨started, rows, begun, delivers, perm⟩ := outerSupplies _ .fresh
  obtain ⟨out, work, joined, same⟩ := joined_supplied innerSupplies (rows.map Prod.fst)
    (fun left member => pads left (perm.mem_iff.mp member)) .fresh
  refine ⟨out, work + 2, fun fuel enough => ?_, same.trans (perm.flatMap_right _)⟩
  obtain ⟨fuel, rfl⟩ := Nat.exists_eq_add_of_le' (by omega : 2 ≤ fuel)
  have toJoin : ToJoin false plan
    ({ left := { state := started }, right := { state := inner.fresh } } : NestedLoopState outer
      inner) out work :=
    ⟨fun _ => ⟨_, started_comes delivers, joined⟩, (by simp)⟩
  exact ⟨_, by simp [nestedLoopJoinExecutor, begun], nested_loop_delivers toJoin (by omega)⟩

theorem mem_joined {row : Row × RID} : row ∈ joinedRows plan left false rights ↔
    (∃ right ∈ rights, plan.accepts left right = true ∧
      row = joinTuple plan.rightSchema left (some right)) ∨
        (plan.joinType = .left ∧ rights.filter (plan.accepts left) = [] ∧
        row = joinTuple plan.rightSchema left none) := by
  rw [joined_false]
  by_cases none : rights.filter (plan.accepts left) = []
  · have nothing : ∀ right ∈ rights, ¬ plan.accepts left right = true := by simpa using none
    by_cases left : plan.joinType = .left <;> simp_all [paddedRows]
  · simp only [none, ↓reduceIte, List.mem_map, List.mem_filter]
    grind

end NestedLoops

section Tables
variable {plan : HashJoinPlan} {finds : HashJoinKey → HashJoinKey → Bool} {rows : List Row}
  {table : HashJoinTable} {key new : HashJoinKey}

def bucket (finds : HashJoinKey → HashJoinKey → Bool) (key : HashJoinKey)
    (table : HashJoinTable) : List Row :=
  ((table.find? fun entry => finds key entry.1).map Prod.snd).getD []

theorem bucket_cons (key : HashJoinKey) (entry : HashJoinKey × List Row) (table : HashJoinTable) :
    bucket finds key (entry :: table) = if finds key entry.1 then entry.2
      else bucket finds key table := by
  cases found : finds key entry.1 <;> simp [bucket, found]

/-- A lookup that finds the stored keys that the new key finds, and finds the new key. -/
theorem bucket_push_found (row : Row) (found : finds key new = true)
    (same : ∀ entry ∈ table, finds key entry.1 = finds new entry.1) :
    bucket finds key (HashJoinTable.push finds new row table) =
      bucket finds key table ++ [row] := by
  induction table with
  | nil => simp [HashJoinTable.push, bucket, found]
  | cons entry table ih =>
      have here := same entry List.mem_cons_self
      have later := ih fun entry member => same entry (List.mem_cons_of_mem _ member)
      cases stored : finds new entry.1 <;>
        simp [HashJoinTable.push, bucket_cons, here, stored, later]

theorem bucket_push_other (row : Row) (missed : finds key new = false)
    (other : ∀ entry ∈ table, finds new entry.1 = true → finds key entry.1 = false) :
    bucket finds key (HashJoinTable.push finds new row table) = bucket finds key table := by
  induction table with
  | nil => simp [HashJoinTable.push, bucket, missed]
  | cons entry table ih =>
      have later := ih fun entry member => other entry (List.mem_cons_of_mem _ member)
      cases stored : finds new entry.1 with
      | true =>
          simp [HashJoinTable.push, bucket_cons, stored, other entry List.mem_cons_self stored]
      | false => simp [HashJoinTable.push, bucket_cons, stored, later]

def Filed (plan : HashJoinPlan) (rows : List Row) (table : HashJoinTable) : Prop :=
  ∀ entry ∈ table, entry.2 ≠ [] ∧ ∀ row ∈ entry.2, row ∈ rows ∧ plan.rightKey row.values = entry.1

theorem push_filed {row : Row} (filed : Filed plan rows table)
    (equal : ∀ entry ∈ table, plan.finds (plan.rightKey row.values) entry.1 = true →
      plan.rightKey row.values = entry.1) :
    Filed plan (rows ++ [row])
      (HashJoinTable.push plan.finds (plan.rightKey row.values) row table) := by
  induction table with
  | nil => simp [HashJoinTable.push, Filed]
  | cons entry table ih =>
      have here := filed entry List.mem_cons_self
      have later := ih (fun entry member => filed entry (List.mem_cons_of_mem _ member))
        fun entry member => equal entry (List.mem_cons_of_mem _ member)
      cases stored : plan.finds (plan.rightKey row.values) entry.1 with
      | true =>
          have key := equal entry List.mem_cons_self stored
          intro kept member
          simp only [HashJoinTable.push, stored, ↓reduceIte, List.mem_cons] at member
          rcases member with rfl | member
          · refine ⟨by simp, fun row' member => ?_⟩
            rcases List.mem_append.mp member with member | member
            · exact ⟨List.mem_append_left _ (here.2 row' member).1, (here.2 row' member).2⟩
            · obtain rfl : row' = row := by simpa using member
              exact ⟨by simp, key⟩
          · have old := filed kept (List.mem_cons_of_mem _ member)
            exact ⟨old.1, fun row' member =>
              ⟨List.mem_append_left _ (old.2 row' member).1, (old.2 row' member).2⟩⟩
      | false =>
          intro kept member
          simp only [HashJoinTable.push, stored, Bool.false_eq_true, ↓reduceIte, List.mem_cons]
            at member
          rcases member with rfl | member
          · exact ⟨here.1, fun row' member =>
              ⟨List.mem_append_left _ (here.2 row' member).1, (here.2 row' member).2⟩⟩
          · exact later kept member

theorem build_concat (plan : HashJoinPlan) (rows : List Row) (row : Row) :
    plan.build (rows ++ [row]) = HashJoinTable.push plan.finds (plan.rightKey row.values) row
      (plan.build rows) := by
  simp [HashJoinPlan.build, List.foldl_append]

theorem lookup_bucket (plan : HashJoinPlan) (table : HashJoinTable) (left : Row) :
    plan.lookup table left = bucket plan.finds (plan.leftKey left.values) table := rfl

def KeysExact (plan : HashJoinPlan) (rows : List Row) : Prop :=
  ∀ row ∈ rows, ∀ other ∈ rows, plan.finds (plan.rightKey row.values) (plan.rightKey other.values) =
    true → plan.rightKey row.values = plan.rightKey other.values

theorem build_filed (exact : KeysExact plan rows) :
    Filed plan rows (plan.build rows) := by
  induction rows using List.reverseRecOn with
  | nil => simp [HashJoinPlan.build, Filed]
  | append_singleton rows row ih =>
      have filed := ih fun row member other member' =>
        exact row (List.mem_append_left _ member) other (List.mem_append_left _ member')
      rw [build_concat]
      apply push_filed filed
      intro entry member found
      obtain ⟨brings, rows⟩ := filed entry member
      obtain ⟨first, inside⟩ := List.exists_mem_of_ne_nil _ brings
      have key := (rows first inside).2
      rw [← key] at found ⊢
      exact exact row (by simp) first (List.mem_append_left _ (rows first inside).1) found

/-- A lookup that finds right rows of one key only, which find each other, comes to all of them. -/
theorem lookup_build (left : Row) (exact : KeysExact plan rows) (one : ∀ row ∈ rows, ∀ other ∈ rows,
      plan.finds (plan.leftKey left.values) (plan.rightKey row.values) = true →
        plan.finds (plan.leftKey left.values) (plan.rightKey other.values) = true →
        plan.rightKey row.values = plan.rightKey other.values)
    (files : rows.Pairwise fun first later =>
      plan.finds (plan.leftKey left.values) (plan.rightKey first.values) = true →
      plan.rightKey later.values = plan.rightKey first.values →
        plan.finds (plan.rightKey later.values) (plan.rightKey first.values) = true) :
    plan.lookup (plan.build rows) left =
      rows.filter fun row => plan.finds (plan.leftKey left.values) (plan.rightKey row.values) := by
  induction rows using List.reverseRecOn with
  | nil => simp [lookup_bucket, HashJoinPlan.build, bucket]
  | append_singleton rows row ih =>
      have front : KeysExact plan rows := fun first member other member' =>
        exact first (List.mem_append_left _ member) other (List.mem_append_left _ member')
      rw [List.pairwise_append] at files
      have before := ih front (fun first member other member' =>
        one first (List.mem_append_left _ member) other (List.mem_append_left _ member')) files.1
      have stored : ∀ entry ∈ plan.build rows, ∃ first ∈ rows, plan.rightKey first.values =
          entry.1 := by
        intro entry member
        obtain ⟨brings, filed⟩ := build_filed front entry member
        obtain ⟨first, inside⟩ := List.exists_mem_of_ne_nil _ brings
        exact ⟨first, filed first inside⟩
      rw [lookup_bucket] at before ⊢
      rw [build_concat, List.filter_append, ← before]
      cases found : plan.finds (plan.leftKey left.values) (plan.rightKey row.values) with
      | true =>
          rw [bucket_push_found row found]
          · simp [found]
          · intro entry member
            obtain ⟨first, inside, key⟩ := stored entry member
            rw [← key, Bool.eq_iff_iff]
            constructor
            · intro finds
              have same := one row (by simp) first (List.mem_append_left _ inside) found finds
              exact files.2.2 first inside row (by simp) finds same
            · intro finds
              rwa [← exact row (by simp) first (List.mem_append_left _ inside) finds]
      | false =>
          rw [bucket_push_other row found]
          · simp [found]
          · intro entry member finds
            obtain ⟨first, inside, key⟩ := stored entry member
            rw [← key] at finds ⊢
            rwa [← exact row (by simp) first (List.mem_append_left _ inside) finds]

/-- The rows that a lookup comes to, whichever they are, are right rows of one key that it finds. -/
theorem lookup_sound (exact : KeysExact plan rows) {left row : Row}
    (found : row ∈ plan.lookup (plan.build rows) left) :
    row ∈ rows ∧ plan.finds (plan.leftKey left.values) (plan.rightKey row.values) = true ∧
      ∀ other ∈ plan.lookup (plan.build rows) left, plan.rightKey other.values =
        plan.rightKey row.values := by
  have filed := build_filed exact
  rw [HashJoinPlan.lookup] at found ⊢
  cases entry : (plan.build rows).find? fun entry =>
    plan.finds (plan.leftKey left.values) entry.1 with
  | none => simp [entry] at found
  | some stored =>
      have finds := List.find?_some entry
      have rows := (filed stored (List.mem_of_find?_eq_some entry)).2
      simp only [entry, Option.map_some, Option.getD_some] at found ⊢
      have key := (rows row found).2
      exact ⟨(rows row found).1,
        by rwa [key], fun other member => (rows other member).2.trans key.symm⟩

theorem push_head (finds : HashJoinKey → HashJoinKey → Bool) (key : HashJoinKey)
    (entry : HashJoinKey × List Row) (row : Row) (table : HashJoinTable) :
    ∃ more rest, HashJoinTable.push finds key row (entry :: table) =
      (entry.1, entry.2 ++ more) :: rest := by
  cases stored : finds key entry.1 with
  | true => exact ⟨[row], table, by simp [HashJoinTable.push, stored]⟩
  | false =>
      exact ⟨[], HashJoinTable.push finds key row table, by simp [HashJoinTable.push, stored]⟩

theorem build_head (plan : HashJoinPlan) (first : Row) (rows : List Row) :
    ∃ more rest, plan.build (first :: rows) =
      (plan.rightKey first.values, first :: more) :: rest := by
  induction rows using List.reverseRecOn with
  | nil => exact ⟨[], [], rfl⟩
  | append_singleton rows row ih =>
      obtain ⟨more, rest, built⟩ := ih
      rw [← List.cons_append, build_concat, built]
      obtain ⟨again, rest, pushed⟩ := push_head plan.finds (plan.rightKey row.values)
        (plan.rightKey first.values, first :: more) row rest
      exact ⟨more ++ again, rest, pushed⟩

theorem lookup_head (plan : HashJoinPlan) {left first : Row} (rows : List Row)
    (found : plan.finds (plan.leftKey left.values) (plan.rightKey first.values) = true) :
    first ∈ plan.lookup (plan.build (first :: rows)) left := by
  obtain ⟨more, rest, built⟩ := build_head plan first rows
  simp [lookup_bucket, built, bucket_cons, found]

theorem push_holds (key : HashJoinKey) (row kept : Row)
    (holds : kept = row ∨ ∃ entry ∈ table, kept ∈ entry.2) :
    ∃ entry ∈ HashJoinTable.push finds key row table, kept ∈ entry.2 := by
  induction table with
  | nil => simpa [HashJoinTable.push] using holds
  | cons entry table ih =>
      cases stored : finds key entry.1 with
      | true =>
          simp only [HashJoinTable.push, stored, ↓reduceIte, List.exists_mem_cons_iff] at holds ⊢
          simp only [List.mem_append, List.mem_singleton]
          tauto
      | false =>
          simp only [HashJoinTable.push, stored, Bool.false_eq_true, ↓reduceIte,
            List.exists_mem_cons_iff] at holds ⊢
          rcases holds with same | here | later
          · exact Or.inr (ih (Or.inl same))
          · exact Or.inl here
          · exact Or.inr (ih (Or.inr later))

theorem build_holds (plan : HashJoinPlan) :
    ∀ row ∈ rows, ∃ entry ∈ plan.build rows, row ∈ entry.2 := by
  induction rows using List.reverseRecOn with
  | nil => simp
  | append_singleton rows last ih =>
      intro row member
      rw [build_concat]
      apply push_holds
      rcases List.mem_append.mp member with member | member
      · exact Or.inr (ih row member)
      · exact Or.inl (List.mem_singleton.mp member)

/-- A lookup that comes to no rows finds none of the right keys. -/
theorem lookup_none (exact : KeysExact plan rows) {left : Row}
    (none : plan.lookup (plan.build rows) left = []) :
    ∀ row ∈ rows, plan.finds (plan.leftKey left.values) (plan.rightKey row.values) = false := by
  intro row member
  have filed := build_filed exact
  obtain ⟨entry, stored, holds⟩ := build_holds plan row member
  rw [(filed entry stored).2 row holds |>.2, ← Bool.not_eq_true]
  intro finds
  rw [HashJoinPlan.lookup] at none
  cases found : (plan.build rows).find? fun entry =>
    plan.finds (plan.leftKey left.values) entry.1 with
  | none => exact absurd finds (by simpa using List.find?_eq_none.mp found entry stored)
  | some first =>
      have brings := (filed first (List.mem_of_find?_eq_some found)).1
      exact brings (by simpa [found] using none)

end Tables

section HashJoins
variable {outer inner : Executor} {plan : HashJoinPlan} {lefts : List Row}

theorem hash_join_outputs {opened : inner.State} {out : List (Row × RID)}
    (supplies : Supplies outer lefts) (opens : inner.init inner.fresh = some opened)
    (delivers : inner.Delivers false opened out)
    (pads : ∀ left ∈ lefts, plan.Pads (plan.build (out.map Prod.fst)) left) :
    ∃ rows bound, (∀ fuel, bound ≤ fuel → Outputs (hashJoinExecutor fuel plan outer inner) rows) ∧
      rows.Perm (lefts.flatMap (lookedUp plan (plan.build (out.map Prod.fst)))) := by
  obtain ⟨started, rows, begun, brings, perm⟩ := supplies _ .fresh
  let table := plan.build (out.map Prod.fst)
  let work := ((rows.map Prod.fst).map (matchRounds plan table)).sum
  refine ⟨_, work + out.length + 1, fun fuel enough => ?_, perm.flatMap_right _⟩
  obtain ⟨drained, ends⟩ :=
    drain_delivers delivers (by decide : 0 < BUSTUB_BATCH_SIZE) (by omega : out.length < fuel)
  let state : HashJoinState outer inner :=
    { left := { state := started }, right := drained, hashTable := table }
  have toMatch : ToMatch false plan state
    ((rows.map Prod.fst).flatMap (lookedUp plan table)) work :=
    ⟨fun _ =>
      ⟨_, started_comes brings, fun left member => pads left (perm.mem_iff.mp member), rfl,
        rfl⟩, (by simp)⟩
  exact ⟨state,
    by simp [hashJoinExecutor, begun, opens, ends, state,
    table], hash_join_delivers toMatch (by omega)⟩

theorem mem_looked_up {left : Row} {row : Row × RID} {table : HashJoinTable} :
    row ∈ lookedUp plan table left ↔
      (∃ right ∈ plan.lookup table left, row = joinTuple plan.rightSchema left (some right)) ∨
      (plan.joinType = .left ∧ plan.lookup table left = [] ∧
      row = joinTuple plan.rightSchema left none) := by
  cases matched : plan.lookup table left with
  | nil =>
      by_cases left : plan.joinType = .left <;>
        simp [lookedUp, matchedRows, paddedRows, matched, left]
  | cons right rows => simp [lookedUp, matchedRows, matched, eq_comm]

end HashJoins

section Predicates
variable {column : TupleIdx → Nat → Option Value} {expr : Expression}
  {keys : List (Expression × Expression)}

theorem and_answer (left right : Expression) :
    ((Expression.logic left right .and).evaluateOn column).bind Value.getBoolAsCmpBool =
      ((left.evaluateOn column).bind Value.getBoolAsCmpBool).bind fun first =>
        ((right.evaluateOn column).bind Value.getBoolAsCmpBool).map fun second =>
          LogicType.and.perform first second := by
  cases lhs : left.evaluateOn column with
  | none => simp [Expression.evaluateOn, lhs]
  | some first =>
      cases rhs : right.evaluateOn column with
      | none =>
          cases answer : first.getBoolAsCmpBool <;> simp [Expression.evaluateOn, lhs, rhs, answer]
      | some second =>
          cases answer : first.getBoolAsCmpBool with
          | none => simp [Expression.evaluateOn, lhs, rhs, answer]
          | some held =>
              cases answered : second.getBoolAsCmpBool <;>
                simp [Expression.evaluateOn, lhs, rhs, answer, answered]

theorem and_holds {first second : Option Bool} :
    LogicType.and.perform first second = some true ↔ first = some true ∧ second = some true := by
  cases first with
  | none => cases second <;> simp [LogicType.perform]
  | some holds =>
      cases second with
      | none => cases holds <;> simp [LogicType.perform]
      | some other => cases holds <;> cases other <;> simp [LogicType.perform]

theorem comparison_answer {left right : Expression} {compType : ComparisonType}
    {answer : Option Bool} :
    ((Expression.comparison left right compType).evaluateOn column).bind Value.getBoolAsCmpBool =
      some answer ↔ ∃ first second, left.evaluateOn column = some first ∧
        right.evaluateOn column = some second ∧ first.compare compType second = some answer := by
  cases lhs : left.evaluateOn column with
  | none => simp [Expression.evaluateOn, lhs]
  | some first =>
      cases rhs : right.evaluateOn column with
      | none => simp [Expression.evaluateOn, lhs, rhs]
      | some second =>
          cases compared : first.compare compType second <;>
            simp [Expression.evaluateOn, lhs, rhs, compared]

/-- The keys are columns, a left and a right one for each conjunct. -/
theorem extracted_columns
    (extracted : extractEquiConditions expr = some keys) :
    keys ≠ [] ∧ ∀ key ∈ keys, (∃ colIdx retType, key.1 = .columnValue .left colIdx retType) ∧
        ∃ colIdx retType, key.2 = .columnValue .right colIdx retType := by
  fun_induction extractEquiConditions expr generalizing keys with
  | case1 left right ihLeft ihRight =>
      simp only [Option.bind_eq_bind, Option.bind_eq_some_iff] at extracted
      obtain ⟨first, front, second, back, same⟩ := extracted
      obtain rfl := Option.some.inj same
      obtain ⟨brings, columns⟩ := ihLeft front
      refine ⟨by simp [brings], fun key member => ?_⟩
      rcases List.mem_append.mp member with member | member
      · exact columns key member
      · exact (ihRight back).2 key member
  | case2 => simp at extracted
  | case3 leftCol leftType rightIdx =>
      obtain rfl := Option.some.inj extracted
      cases rightIdx with
      | left => contradiction
      | right => simpa using ⟨⟨_, _, rfl⟩, _, _, rfl⟩
  | case4 leftIdx leftCol leftType rightIdx =>
      obtain rfl := Option.some.inj extracted
      cases leftIdx with
      | left => contradiction
      | right =>
          cases rightIdx with
          | left => simpa using ⟨⟨_, _, rfl⟩, _, _, rfl⟩
          | right => contradiction
  | case5 => simp at extracted

/-- Where the predicate holds the columns of every key compare equal, one way round. -/
theorem extracted_equal (extracted : extractEquiConditions expr = some keys)
    (answer : (expr.evaluateOn column).bind Value.getBoolAsCmpBool = some (some true)) :
    ∀ key ∈ keys, ∃ first second, key.1.evaluateOn column = some first ∧
      key.2.evaluateOn column = some second ∧
      (first.compare .equal second = some (some true) ∨
      second.compare .equal first = some (some true)) := by
  fun_induction extractEquiConditions expr generalizing keys with
  | case1 left right ihLeft ihRight =>
      simp only [Option.bind_eq_bind, Option.bind_eq_some_iff] at extracted
      obtain ⟨first, front, second, back, same⟩ := extracted
      obtain rfl := Option.some.inj same
      rw [and_answer] at answer
      obtain ⟨front', lhs, answer⟩ := Option.bind_eq_some_iff.mp answer
      obtain ⟨back', rhs, answer⟩ := Option.map_eq_some_iff.mp answer
      obtain ⟨rfl, rfl⟩ := and_holds.mp answer
      intro key member
      rcases List.mem_append.mp member with member | member
      · exact ihLeft front lhs key member
      · exact ihRight back rhs key member
  | case2 => simp at extracted
  | case3 =>
      obtain rfl := Option.some.inj extracted
      obtain ⟨first, second, front, back, compared⟩ := comparison_answer.mp answer
      simpa using ⟨first, front, second, back, Or.inl compared⟩
  | case4 =>
      obtain rfl := Option.some.inj extracted
      obtain ⟨first, second, front, back, compared⟩ := comparison_answer.mp answer
      simpa using ⟨second, back, first, front, Or.inr compared⟩
  | case5 => simp at extracted

end Predicates

/-! ### Keys -/

theorem equal_keys_brings {key stored : HashJoinKey} (length : key.length = stored.length)
    (equal : equalKeys key stored = some true) : ∀ value ∈ stored, value.datum.isSome := by
  induction key generalizing stored with
  | nil =>
      obtain rfl : stored = [] := List.length_eq_zero_iff.mp length.symm
      simp
  | cons first key ih =>
      cases stored with
      | nil => simp at length
      | cons second stored =>
          simp only [equalKeys, Option.bind_eq_bind, Option.bind_eq_some_iff] at equal
          obtain ⟨answer, compared, rest⟩ := equal
          by_cases holds : answer = some true
          · obtain ⟨_, datum, -, brings, -⟩ := Value.compare_brings (holds ▸ compared)
            have later := ih (by simpa using length) (by simpa [holds] using rest)
            simpa [brings] using later
          · simp [holds] at rest

theorem equal_keys_exact {key stored : HashJoinKey}
    (types : key.map Value.typeId = stored.map Value.typeId)
    (equal : equalKeys key stored = some true) : key = stored := by
  induction key generalizing stored with
  | nil =>
      obtain rfl : stored = [] := by simpa using types.symm
      rfl
  | cons first key ih =>
      cases stored with
      | nil => simp at types
      | cons second stored =>
          simp only [List.map_cons, List.cons.injEq] at types
          simp only [equalKeys, Option.bind_eq_bind, Option.bind_eq_some_iff] at equal
          obtain ⟨answer, compared, rest⟩ := equal
          by_cases holds : answer = some true
          · rw [Value.equal_same_type types.1 (holds ▸ compared),
              ih types.2 (by simpa [holds] using rest)]
          · simp [holds] at rest

theorem equal_keys_self {key : HashJoinKey} (comes : (equalKeys key key).isSome)
    (brings : ∀ value ∈ key, value.datum.isSome) : equalKeys key key = some true := by
  induction key with
  | nil => rfl
  | cons value key ih =>
      obtain ⟨answer, equal⟩ := Option.isSome_iff_exists.mp comes
      simp only [equalKeys, Option.bind_eq_bind, Option.bind_eq_some_iff] at equal
      obtain ⟨compared, same, rest⟩ := equal
      obtain ⟨datum, here⟩ := Option.isSome_iff_exists.mp (brings value List.mem_cons_self)
      obtain rfl := Value.equal_self here same
      have later := ih (by simpa using Option.isSome_of_eq_some rest) fun value member =>
        brings value (List.mem_cons_of_mem _ member)
      simp [equalKeys, same, later]

theorem finds_key {key stored : HashJoinKey} (found : findsKey key stored = some true) :
    hashKey key = hashKey stored ∧ equalKeys key stored = some true := by
  unfold findsKey at found
  split at found
  · rename_i hash
    exact ⟨hash, found⟩
  · simp at found

/-- The keys that expressions of columns make of rows of one schema have the same types. -/
theorem key_types (keyExprs : List Expression) (tuple other : Tuple)
    (columns : ∀ expr ∈ keyExprs, ∃ side colIdx retType, expr = .columnValue side colIdx retType)
    (types : tuple.map Value.typeId = other.map Value.typeId) :
    (makeJoinKey keyExprs tuple).map (List.map Value.typeId) =
      (makeJoinKey keyExprs other).map (List.map Value.typeId) := by
  induction keyExprs with
  | nil => rfl
  | cons expr keyExprs ih =>
      obtain ⟨side, colIdx, retType, rfl⟩ := columns expr List.mem_cons_self
      have later := ih fun expr member => columns expr (List.mem_cons_of_mem _ member)
      have here : tuple[colIdx]?.map Value.typeId = other[colIdx]?.map Value.typeId := by
        rw [← List.getElem?_map, ← List.getElem?_map, types]
      simp only [makeJoinKey, List.mapM_cons, Expression.evaluate, Expression.evaluateOn] at later ⊢
      cases first : tuple[colIdx]? with
      | none => cases second : other[colIdx]? <;> simp_all
      | some value =>
          cases second : other[colIdx]? with
          | none => simp_all
          | some same =>
              have type : value.typeId = same.typeId := by simpa [first, second] using here
              simp only [Option.bind_eq_bind, Option.bind_some, Option.pure_def]
              generalize (keyExprs.mapM fun expr => expr.evaluateOn fun _ colIdx =>
                tuple[colIdx]?) = front at later ⊢
              generalize (keyExprs.mapM fun expr => expr.evaluateOn fun _ colIdx =>
                other[colIdx]?) = back at later ⊢
              cases front <;> cases back <;> simp_all

theorem key_length {keyExprs : List Expression} {tuple : Tuple} {key : HashJoinKey}
    (made : makeJoinKey keyExprs tuple = some key) : key.length = keyExprs.length := by
  induction keyExprs generalizing key with
  | nil => simp_all [makeJoinKey]
  | cons expr keyExprs ih =>
      simp only [makeJoinKey, List.mapM_cons, Option.bind_eq_bind, Option.bind_eq_some_iff]
        at made ih
      obtain ⟨value, -, rest, made, same⟩ := made
      obtain rfl := Option.some.inj same
      simp [ih made]

section Agreement
variable {node : NestedLoopJoinPlanNode} {hashNode : HashJoinPlanNode}
  {leftSchema rightSchema : Schema} {lefts rights : List Row} {key stored : HashJoinKey}
  {left right : Row} {built : List Row} {answer : Bool} {column : TupleIdx → Nat → Option Value}
  {keys : List (Expression × Expression)}

/-- Neither join throws on these rows: the predicate, the keys and the comparisons
of keys all come back, and a left row that is padded can be. -/
structure ComesBack (node : NestedLoopJoinPlanNode) (hashNode : HashJoinPlanNode)
    (rightSchema : Schema) (lefts rights : List Row) : Prop where
  predicate : ∀ left ∈ lefts, ∀ right ∈ rights, (node.answer left right).isSome
  leftKeys : ∀ left ∈ lefts, (makeJoinKey hashNode.leftKeyExpressions left.values).isSome
  rightKeys : ∀ right ∈ rights, (makeJoinKey hashNode.rightKeyExpressions right.values).isSome
  probes : ∀ left ∈ lefts, ∀ right ∈ rights,
    (findsKey (hashNode.leftKey left) (hashNode.rightKey right)).isSome
  builds : rights.Pairwise fun first later =>
    (findsKey (hashNode.rightKey first) (hashNode.rightKey later)).isSome ∧
      (findsKey (hashNode.rightKey later) (hashNode.rightKey first)).isSome
  pads : node.joinType = .left → ∀ left ∈ lefts,
    (∀ right ∈ rights, node.answer left right ≠ some (some true)) ∨
      (∀ right ∈ rights, findsKey (hashNode.leftKey left) (hashNode.rightKey right) ≠ some true) →
        HasNulls rightSchema

/-- Two keys have one hash and are equal exactly when the predicate holds of the
rows, and the right keys that a left key finds are one. -/
structure KeysDecide (node : NestedLoopJoinPlanNode) (hashNode : HashJoinPlanNode)
    (lefts rights : List Row) : Prop where
  found : ∀ left ∈ lefts, ∀ right ∈ rights,
    node.answer left right = some (some true) ↔
      findsKey (hashNode.leftKey left) (hashNode.rightKey right) = some true
  one : ∀ left ∈ lefts, ∀ first ∈ rights, ∀ second ∈ rights,
    findsKey (hashNode.leftKey left) (hashNode.rightKey first) = some true →
      findsKey (hashNode.leftKey left) (hashNode.rightKey second) = some true →
        hashNode.rightKey first = hashNode.rightKey second

/-- Over any children that supply the rows the two joins hand out the same rows. -/
def JoinsAgree (node : NestedLoopJoinPlanNode) (hashNode : HashJoinPlanNode) (rightSchema : Schema)
    (lefts rights : List Row) : Prop :=
  ∀ outer inner, Supplies outer lefts → Supplies inner rights →
    ∃ bound, ∀ fuel, bound ≤ fuel →
      ∃ out others, Outputs (nestedLoopJoinExecutor fuel (node.plan rightSchema) outer inner) out ∧
        Outputs (hashJoinExecutor fuel (hashNode.plan rightSchema) outer inner) others ∧
        out.Perm others

theorem accepts_iff :
    (node.plan rightSchema).accepts left right = true ↔
      node.answer left right = some (some true) := by
  simp only [NestedLoopJoinPlan.accepts, NestedLoopJoinPlanNode.plan, holds, decide_eq_true_eq,
    Option.join_eq_some_iff,
    NestedLoopJoinPlanNode.answer]

theorem finds_iff :
    (hashNode.plan rightSchema).finds key stored = true ↔ findsKey key stored = some true := by
  simp [HashJoinPlanNode.plan]

theorem rewritten_keys (rewritten : node.asHashJoin = some hashNode) :
    ∃ keys, extractEquiConditions node.predicate = some keys ∧ hashNode.joinType = node.joinType ∧
      hashNode.leftKeyExpressions = keys.map Prod.fst ∧
      hashNode.rightKeyExpressions = keys.map Prod.snd := by
  obtain ⟨keys, extracted, rfl⟩ := Option.map_eq_some_iff.mp rewritten
  exact ⟨keys, extracted, rfl, rfl, rfl⟩

theorem right_key_types (rewritten : node.asHashJoin = some hashNode) {row other : Row}
    (fits : Tuple.Fits rightSchema row.values) (fits' : Tuple.Fits rightSchema other.values) :
    (hashNode.rightKey row).map Value.typeId = (hashNode.rightKey other).map Value.typeId := by
  obtain ⟨keys, extracted, -, -, rightKeys⟩ := rewritten_keys rewritten
  have types :=
    key_types hashNode.rightKeyExpressions row.values other.values ?_ (fits.trans fits'.symm)
  · unfold HashJoinPlanNode.rightKey
    revert types
    cases makeJoinKey hashNode.rightKeyExpressions row.values <;>
      cases makeJoinKey hashNode.rightKeyExpressions other.values <;> simp
  · intro expr member
    rw [rightKeys] at member
    obtain ⟨key, inside, rfl⟩ := List.mem_map.mp member
    obtain ⟨colIdx, retType, same⟩ := ((extracted_columns extracted).2 key inside).2
    exact ⟨_, colIdx, retType, same⟩

theorem right_keys_exact (rewritten : node.asHashJoin = some hashNode)
    (fits : ∀ right ∈ rights, Tuple.Fits rightSchema right.values) :
    KeysExact (hashNode.plan rightSchema) rights := by
  intro row member other member' found
  exact equal_keys_exact (right_key_types rewritten (fits row member) (fits other member'))
    (finds_key (finds_iff.mp found)).2

/-- The value of a column of the right side, if it is not NULL, is not that of a padded row. -/
theorem column_not_padded {right : Row} {colIdx : Nat} {value : Value} {datum : Datum}
    (evaluated : right.values[colIdx]? = some value) (brings : value.datum = some datum) :
    right.values ≠ rightSchema.map fun typeId => ⟨typeId, none⟩ := by
  intro padded
  have member : value ∈ right.values := List.mem_of_getElem? evaluated
  rw [padded] at member
  obtain ⟨typeId, -, rfl⟩ := List.mem_map.mp member
  simp at brings

theorem answer_not_padded (rewritten : node.asHashJoin = some hashNode)
    (answer : node.answer left right = some (some true)) :
    right.values ≠ rightSchema.map fun typeId => ⟨typeId, none⟩ := by
  obtain ⟨keys, extracted, -, -, -⟩ := rewritten_keys rewritten
  obtain ⟨brings, columns⟩ := extracted_columns extracted
  obtain ⟨key, member⟩ := List.exists_mem_of_ne_nil _ brings
  obtain ⟨-, colIdx, retType, same⟩ := columns key member
  obtain ⟨first, second, -, evaluated, compared⟩ := extracted_equal extracted answer key member
  rw [same] at evaluated
  rcases compared with compared | compared
  · obtain ⟨_, _, -, datum, -⟩ := Value.compare_brings compared
    exact column_not_padded evaluated datum
  · obtain ⟨_, _, datum, -⟩ := Value.compare_brings compared
    exact column_not_padded evaluated datum

/-- The keys of two rows have one length and the right one is not NULL where the left finds it. -/
theorem found_brings (rewritten : node.asHashJoin = some hashNode)
    (comes : ComesBack node hashNode rightSchema lefts rights) (inLefts : left ∈ lefts)
    (inRights : right ∈ rights)
    (found : findsKey (hashNode.leftKey left) (hashNode.rightKey right) = some true) :
    ∀ value ∈ hashNode.rightKey right, value.datum.isSome := by
  obtain ⟨keys, -, -, leftKeys, rightKeys⟩ := rewritten_keys rewritten
  obtain ⟨leftKey, leftMade⟩ := Option.isSome_iff_exists.mp (comes.leftKeys left inLefts)
  obtain ⟨rightKey, rightMade⟩ := Option.isSome_iff_exists.mp (comes.rightKeys right inRights)
  apply equal_keys_brings _ (finds_key found).2
  simp only [HashJoinPlanNode.leftKey, HashJoinPlanNode.rightKey, leftMade, rightMade,
    Option.getD_some]
  rw [key_length leftMade, key_length rightMade, leftKeys, rightKeys, List.length_map,
    List.length_map]

theorem found_not_padded (rewritten : node.asHashJoin = some hashNode)
    (comes : ComesBack node hashNode rightSchema lefts rights) (inLefts : left ∈ lefts)
    (inRights : right ∈ rights)
    (found : findsKey (hashNode.leftKey left) (hashNode.rightKey right) = some true) :
    right.values ≠ rightSchema.map fun typeId => ⟨typeId, none⟩ := by
  obtain ⟨keys, extracted, -, -, rightKeys⟩ := rewritten_keys rewritten
  obtain ⟨some, columns⟩ := extracted_columns extracted
  obtain ⟨key, keys, rfl⟩ := List.exists_cons_of_ne_nil some
  obtain ⟨-, colIdx, retType, same⟩ := columns key List.mem_cons_self
  obtain ⟨rightKey, made⟩ := Option.isSome_iff_exists.mp (comes.rightKeys right inRights)
  have brings := found_brings rewritten comes inLefts inRights found
  simp only [HashJoinPlanNode.rightKey, made, Option.getD_some] at brings
  rw [rightKeys, List.map_cons, same, makeJoinKey, List.mapM_cons] at made
  simp only [Option.bind_eq_bind, Option.bind_eq_some_iff] at made
  obtain ⟨value, evaluated, rest, -, whole⟩ := made
  obtain rfl := Option.some.inj whole
  obtain ⟨datum, here⟩ := Option.isSome_iff_exists.mp (brings value List.mem_cons_self)
  exact column_not_padded evaluated here

theorem nested_pads (comes : ComesBack node hashNode rightSchema lefts rights) :
    ∀ left ∈ lefts, (node.plan rightSchema).Pads left rights := by
  intro left member joins none
  refine comes.pads joins left member (Or.inl fun right inside answer => ?_)
  have refused := none right inside
  simp [accepts_iff.mpr answer] at refused

theorem hash_pads (rewritten : node.asHashJoin = some hashNode)
    (comes : ComesBack node hashNode rightSchema lefts rights)
    (exact : KeysExact (hashNode.plan rightSchema) built) (perm : built.Perm rights) :
    ∀ left ∈ lefts,
      (hashNode.plan rightSchema).Pads ((hashNode.plan rightSchema).build built) left := by
  intro left member joins none
  obtain ⟨keys, -, sameType, -, -⟩ := rewritten_keys rewritten
  refine comes.pads (sameType ▸ joins) left member (Or.inr fun right inside found => ?_)
  have missed := lookup_none exact none right (perm.mem_iff.mpr inside)
  exact Bool.false_ne_true (missed.symm.trans (finds_iff.mpr found))

/-! ### Where the keys decide -/

/-- For one left row the table holds the rows that the predicate accepts. -/
theorem joined_looked_up (rewritten : node.asHashJoin = some hashNode)
    (fits : ∀ right ∈ rights, Tuple.Fits rightSchema right.values)
    (comes : ComesBack node hashNode rightSchema lefts rights)
    (decide : KeysDecide node hashNode lefts rights) (perm : built.Perm rights) {left : Row}
    (inLefts : left ∈ lefts) :
    joinedRows (node.plan rightSchema) left false built =
      lookedUp (hashNode.plan rightSchema) ((hashNode.plan rightSchema).build built) left := by
  obtain ⟨keys, -, sameType, -, -⟩ := rewritten_keys rewritten
  have inRights : ∀ right ∈ built, right ∈ rights := fun right member => perm.mem_iff.mp member
  have exact : KeysExact (hashNode.plan rightSchema) built := fun first member second member' =>
    right_keys_exact rewritten fits first (inRights first member) second (inRights second member')
  have looked := lookup_build left exact (fun first member second member' found found' =>
    decide.one left inLefts first (inRights first member) second (inRights second member')
      (finds_iff.mp found)
      (finds_iff.mp found')) (by
    have symmetric := perm.symm.pairwise comes.builds fun both => ⟨both.2, both.1⟩
    refine List.Pairwise.imp_of_mem (fun {first later} member member' both found same =>
      ?_) symmetric
    have brings := found_brings rewritten comes inLefts (inRights first member) (finds_iff.mp found)
    have equal : hashNode.rightKey later = hashNode.rightKey first := same
    apply finds_iff.mpr
    change findsKey (hashNode.rightKey later) (hashNode.rightKey first) = some true
    have comes := both.2
    rw [equal] at comes ⊢
    simp only [findsKey, ↓reduceIte] at comes ⊢
    exact equal_keys_self comes brings)
  have filtered : built.filter ((node.plan rightSchema).accepts left) =
      (hashNode.plan rightSchema).lookup ((hashNode.plan rightSchema).build built) left := by
    rw [looked]
    apply List.filter_congr
    intro right member
    rw [Bool.eq_iff_iff, accepts_iff, decide.found left inLefts right (inRights right member)]
    exact finds_iff.symm
  rw [joined_false, filtered, lookedUp]
  cases (hashNode.plan rightSchema).lookup ((hashNode.plan rightSchema).build built) left with
  | nil => simp [matchedRows, NestedLoopJoinPlanNode.plan, HashJoinPlanNode.plan, sameType]
  | cons right rows => simp [matchedRows, NestedLoopJoinPlanNode.plan, HashJoinPlanNode.plan]

theorem joins_agree_of (rewritten : node.asHashJoin = some hashNode)
    (fits : ∀ right ∈ rights, Tuple.Fits rightSchema right.values)
    (comes : ComesBack node hashNode rightSchema lefts rights)
    (decide : KeysDecide node hashNode lefts rights) :
    JoinsAgree node hashNode rightSchema lefts rights := by
  intro outer inner outerSupplies innerSupplies
  obtain ⟨out, bound, outputs, nested⟩ :=
    nested_loop_outputs outerSupplies innerSupplies (nested_pads comes)
  obtain ⟨opened, built, opens, delivers, perm⟩ := innerSupplies _ .fresh
  have exact : KeysExact (hashNode.plan rightSchema) (built.map Prod.fst) :=
    fun first member second member' => right_keys_exact rewritten fits first
      (perm.mem_iff.mp member) second (perm.mem_iff.mp member')
  obtain ⟨others, bound', outputs', hashed⟩ :=
    hash_join_outputs outerSupplies opens delivers (hash_pads rewritten comes exact perm)
  refine ⟨max bound bound', fun fuel enough =>
    ⟨out, others, outputs fuel (by omega), outputs' fuel (by omega), ?_⟩⟩
  refine nested.trans (List.Perm.trans ?_ hashed.symm)
  apply List.Perm.flatMap_left
  intro left member
  rw [← joined_looked_up rewritten fits comes decide perm member]
  exact joined_perm left perm.symm

/-! ### What agreement says of the keys -/

/-- A joined row is that of a left and a right row, where the left rows have one width. -/
theorem same_joined_rows {left other : Row} (sameWidth : left.values.length = other.values.length)
    {right : Option Row} {found : Row}
    (same : joinTuple rightSchema left (some found) = joinTuple rightSchema other right) :
    left.values = other.values ∧
      found.values = (right.map Row.values).getD
        (rightSchema.map fun typeId => ⟨typeId, none⟩) := by
  simp only [joinTuple, Option.map_some, Option.getD_some, Prod.mk.injEq, Row.mk.injEq, and_true]
    at same
  exact List.append_inj same sameWidth

/-- Children that bring their rows in a chosen order tell the rows of the two joins apart, or
not. -/
theorem joins_members (rewritten : node.asHashJoin = some hashNode)
    (comes : ComesBack node hashNode rightSchema lefts rights)
    (agree : JoinsAgree node hashNode rightSchema lefts rights)
    (exact : KeysExact (hashNode.plan rightSchema) built) (perm : built.Perm rights)
    (row : Row × RID) :
    (row ∈ lefts.flatMap fun left => joinedRows (node.plan rightSchema) left false rights) ↔
      row ∈ lefts.flatMap
        (lookedUp (hashNode.plan rightSchema) ((hashNode.plan rightSchema).build built)) := by
  have outer := listed_supplies (List.Perm.refl lefts)
  have inner := listed_supplies perm
  obtain ⟨bound, agrees⟩ := agree _ _ outer inner
  obtain ⟨out, enough, outputs, nested⟩ := nested_loop_outputs outer inner (nested_pads comes)
  obtain ⟨others, enough', outputs', hashed⟩ := hash_join_outputs outer rfl
    (listed_delivers built (built.map fun row => (row, row.rid)))
    (hash_pads rewritten comes (by simpa [Function.comp_def] using exact)
      (by simpa [Function.comp_def] using perm))
  obtain ⟨rows, rows', brings, brings', same⟩ := agrees (max bound (max enough enough')) (by omega)
  obtain rfl := outputs_unique brings (outputs _ (by omega))
  obtain rfl := outputs_unique brings' (outputs' _ (by omega))
  rw [← nested.mem_iff, same.mem_iff, hashed.mem_iff]
  simp [Function.comp_def]

section Members
variable {left right : Row}

theorem member_accepted (sameWidth : ∀ other ∈ lefts, left.values.length = other.values.length)
    (notPadded : right.values ≠ rightSchema.map fun typeId => ⟨typeId, none⟩)
    (member : joinTuple rightSchema left (some right) ∈
      lefts.flatMap fun left => joinedRows (node.plan rightSchema) left false rights) :
    node.answer left right = some (some true) := by
  obtain ⟨other, inLefts, member⟩ := List.mem_flatMap.mp member
  rcases mem_joined.mp member with ⟨found, -, accepted, same⟩ | ⟨-, -, same⟩
  · obtain ⟨sameLeft, sameRight⟩ := same_joined_rows (sameWidth other inLefts) same
    have answer := accepts_iff.mp accepted
    simpa [NestedLoopJoinPlanNode.answer, sameLeft,
      show right.values = found.values from sameRight] using answer
  · exact absurd (same_joined_rows (sameWidth other inLefts) same).2 notPadded

theorem member_looked_up (sameWidth : ∀ other ∈ lefts, left.values.length = other.values.length)
    (notPadded : right.values ≠ rightSchema.map fun typeId => ⟨typeId, none⟩)
    {table : HashJoinTable} (member : joinTuple rightSchema left (some right) ∈ lefts.flatMap
      (lookedUp (hashNode.plan rightSchema) table)) :
    ∃ found ∈ (hashNode.plan rightSchema).lookup table left, found.values = right.values := by
  obtain ⟨other, inLefts, member⟩ := List.mem_flatMap.mp member
  rcases mem_looked_up.mp member with ⟨found, looked, same⟩ | ⟨-, -, same⟩
  · obtain ⟨sameLeft, sameRight⟩ := same_joined_rows (sameWidth other inLefts) same
    have key : (hashNode.plan rightSchema).lookup table left =
        (hashNode.plan rightSchema).lookup table other := by
      simp only [HashJoinPlan.lookup, sameLeft]
    exact ⟨found, key ▸ looked, sameRight.symm⟩
  · exact absurd (same_joined_rows (sameWidth other inLefts) same).2 notPadded

end Members

theorem keys_decide_of (rewritten : node.asHashJoin = some hashNode)
    (leftFits : ∀ left ∈ lefts, Tuple.Fits leftSchema left.values)
    (rightFits : ∀ right ∈ rights, Tuple.Fits rightSchema right.values)
    (comes : ComesBack node hashNode rightSchema lefts rights)
    (agree : JoinsAgree node hashNode rightSchema lefts rights) :
    KeysDecide node hashNode lefts rights := by
  have sameWidth : ∀ left ∈ lefts, ∀ other ∈ lefts, left.values.length = other.values.length :=
    fun left member other member' =>
      (Tuple.fits_length (leftFits left member)).trans
        (Tuple.fits_length (leftFits other member')).symm
  have exact : ∀ built : List Row, built.Perm rights →
      KeysExact (hashNode.plan rightSchema) built :=
    fun built perm first member second member' =>
      right_keys_exact rewritten rightFits first (perm.mem_iff.mp member) second
        (perm.mem_iff.mp member')
  -- an accepted pair is looked up whichever order the right rows come in
  have looked : ∀ built : List Row, built.Perm rights → ∀ left ∈ lefts, ∀ right ∈ rights,
      node.answer left right = some (some true) → ∃ found ∈ (hashNode.plan rightSchema).lookup
        ((hashNode.plan rightSchema).build built) left, found.values = right.values := by
    intro built perm left inLefts right inRights answer
    apply member_looked_up (sameWidth left inLefts) (answer_not_padded rewritten answer)
    apply (joins_members rewritten comes agree (exact built perm) perm _).mp
    exact List.mem_flatMap.mpr ⟨left, inLefts,
      mem_joined.mpr (Or.inl ⟨right, inRights, accepts_iff.mpr answer, rfl⟩)⟩
  have found : ∀ left ∈ lefts, ∀ right ∈ rights, node.answer left right = some (some true) ↔
      findsKey (hashNode.leftKey left) (hashNode.rightKey right) = some true := by
    intro left inLefts right inRights
    constructor
    · intro answer
      obtain ⟨other, inside, same⟩ :=
        looked rights (List.Perm.refl _) left inLefts right inRights answer
      have finds := finds_iff.mp (lookup_sound (exact rights (List.Perm.refl _)) inside).2.1
      simpa only [HashJoinPlanNode.plan, HashJoinPlanNode.leftKey, HashJoinPlanNode.rightKey,
        same] using finds
    · intro finds
      -- with this row first in the table the lookup comes to it
      have perm := (List.perm_cons_erase inRights).symm
      have inside :=
        lookup_head (hashNode.plan rightSchema) (rights.erase right) (finds_iff.mpr finds)
      apply member_accepted (sameWidth left inLefts)
        (found_not_padded rewritten comes inLefts inRights finds)
      apply (joins_members rewritten comes agree (exact _ perm) perm _).mpr
      exact List.mem_flatMap.mpr ⟨left, inLefts, mem_looked_up.mpr (Or.inl ⟨right, inside, rfl⟩)⟩
  refine ⟨found, fun left inLefts first inRights second inRights' finds finds' => ?_⟩
  have perm := (List.perm_cons_erase inRights).symm
  have inside := lookup_head (hashNode.plan rightSchema) (rights.erase first) (finds_iff.mpr finds)
  obtain ⟨other, inside', same⟩ := looked _ perm left inLefts second inRights'
    ((found left inLefts second inRights').mpr finds')
  have keys := (lookup_sound (exact _ perm) inside).2.2 other inside'
  simpa only [HashJoinPlanNode.plan, HashJoinPlanNode.rightKey, same, eq_comm] using keys

/-- The two joins come to their ends and hand out the same rows, over any children
that supply the left and the right rows in whatever order and batches, if and only
if they come to their ends and the keys say what the predicate says. -/
theorem hash_join_agrees (rewritten : node.asHashJoin = some hashNode)
    (leftFits : ∀ left ∈ lefts, Tuple.Fits leftSchema left.values)
    (rightFits : ∀ right ∈ rights, Tuple.Fits rightSchema right.values) :
    (ComesBack node hashNode rightSchema lefts rights ∧
      JoinsAgree node hashNode rightSchema lefts rights) ↔
      (ComesBack node hashNode rightSchema lefts rights ∧
      KeysDecide node hashNode lefts rights) := by
  constructor
  · rintro ⟨comes, agree⟩
    exact ⟨comes, keys_decide_of rewritten leftFits rightFits comes agree⟩
  · rintro ⟨comes, decide⟩
    exact ⟨comes, joins_agree_of rewritten rightFits comes decide⟩

/-! ### Keys of like types -/

def TypeId.hashedAlike (left right : TypeId) : Bool :=
  left.isInteger && right.isInteger || left =
    right && (left = .boolean || left = .decimal || left = .varchar)

theorem alike_symm (left right : TypeId) : left.hashedAlike right = right.hashedAlike left := by
  cases left <;> cases right <;> rfl

end Agreement

/-! ### One row each side -/

def numberRow (number : Int) : Row := { values := [⟨.integer, some (.number number)⟩] }

def textRow (text : List UInt8) : Row := { values := [⟨.varchar, some (.text text)⟩] }

def onFirstColumns (leftType rightType : TypeId) : NestedLoopJoinPlanNode where
  joinType := .inner
  predicate := .comparison (.columnValue .left 0 leftType) (.columnValue .right 0 rightType) .equal

def byFirstColumns (leftType rightType : TypeId) : HashJoinPlanNode where
  joinType := .inner
  leftKeyExpressions := [.columnValue .left 0 leftType]
  rightKeyExpressions := [.columnValue .right 0 rightType]

theorem equal_numbers_agree :
    (onFirstColumns .integer .integer).asHashJoin = some (byFirstColumns .integer .integer) ∧
    ((ComesBack (onFirstColumns .integer .integer) (byFirstColumns .integer .integer)
      [.integer] [numberRow 1]
        [numberRow 1] ∧
          JoinsAgree (onFirstColumns .integer .integer) (byFirstColumns .integer .integer)
          [.integer] [numberRow 1]
          [numberRow 1]) ↔
      (ComesBack (onFirstColumns .integer .integer) (byFirstColumns .integer .integer)
        [.integer] [numberRow 1] [numberRow 1] ∧
        KeysDecide (onFirstColumns .integer .integer) (byFirstColumns .integer .integer)
          [numberRow 1] [numberRow 1])) :=
  ⟨rfl, @hash_join_agrees (onFirstColumns .integer .integer) (byFirstColumns .integer .integer)
    [.integer] [.integer] [numberRow 1] [numberRow 1] rfl (by simp [Tuple.Fits, numberRow])
    (by simp [Tuple.Fits, numberRow])⟩

/-- The integer 1 equals the text '1', and their hashes differ: the hash join misses the row. -/
theorem number_misses_text :
    (onFirstColumns .integer .varchar).asHashJoin = some (byFirstColumns .integer .varchar) ∧
      ComesBack (onFirstColumns .integer .varchar) (byFirstColumns .integer .varchar) [.varchar]
      [numberRow 1] [textRow [49]] ∧
        ¬ JoinsAgree (onFirstColumns .integer .varchar) (byFirstColumns .integer .varchar)
        [.varchar] [numberRow 1]
        [textRow [49]] := by
  have comes : ComesBack (onFirstColumns .integer .varchar)
    (byFirstColumns .integer .varchar) [.varchar]
    [numberRow 1] [textRow [49]] := by
    refine ⟨?_, ?_, ?_, ?_, List.pairwise_singleton _ _, (by simp [onFirstColumns])⟩
    · simp only [List.mem_singleton, forall_eq]
      decide
    · simp only [List.mem_singleton, forall_eq]
      decide
    · simp only [List.mem_singleton, forall_eq]
      decide
    · simp only [List.mem_singleton, forall_eq]
      decide
  refine ⟨rfl, comes, fun agree => ?_⟩
  have decided :=
    (@keys_decide_of (onFirstColumns .integer .varchar) (byFirstColumns .integer .varchar)
      [.integer] [.varchar] _ _ rfl (by simp [Tuple.Fits, numberRow])
      (by simp [Tuple.Fits, textRow]) comes agree).found
      (numberRow 1) List.mem_cons_self (textRow [49]) List.mem_cons_self
  exact absurd (decided.mp (by decide)) (by decide)

end BusTub
