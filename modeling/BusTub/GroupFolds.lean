import BusTub.ExecutorRestarts
import BusTub.Listing
import BusTub.SortOrder

/-!
What `AggregationExecutor` computes for COUNT(*), COUNT, SUM, MIN and MAX of
INTEGER expressions: the keys of its map, `CombineAggregateValues`, and the rows
as one left fold for each group.
-/

namespace BusTub

open BatchSource LexicographicOrder

/-! ### The plan -/

inductive AggregationType where
  | countStarAggregate
  | countAggregate
  | sumAggregate
  | minAggregate
  | maxAggregate
  deriving DecidableEq

structure AggregationPlanNode where
  groupBys : List Expression
  aggregates : List Expression
  aggTypes : List AggregationType

namespace Value

/-- `IntegerType::Add` of two INTEGER values, `none` where it throws. -/
def add (left right : Value) : Option Value :=
  match left.datum, right.datum with
  | some (.number first), some (.number second) =>
      if -(1 <<< 31 : Nat) ≤ first + second ∧ first + second < (1 <<< 31 : Nat) then some
        (.integer (first + second)) else none
  | none, _ | _, none => some ⟨.integer, none⟩
  | _, _ => none

def pick (comparison : ComparisonType) (left right : Value) : Option Value :=
  if left.isNull || right.isNull then some ⟨.integer, none⟩
  else (left.compare comparison right).map fun answer => if answer = some true then left else right

end Value

def generateInitialAggregateValue (aggTypes : List AggregationType) : AggregateValue :=
  aggTypes.map fun aggType => if aggType = .countStarAggregate then .integer 0 else ⟨.integer, none⟩

def combineOne (aggType : AggregationType) (result input : Value) : Option Value :=
  match aggType with
  | .countStarAggregate => result.add (.integer 1)
  | .countAggregate =>
      if input.isNull then some result else if result.isNull then some (.integer 1)
      else result.add (.integer 1)
  | .sumAggregate =>
      if input.isNull then some result else if result.isNull then some input else result.add input
  | .minAggregate =>
      if input.isNull then some result else if result.isNull then
        some input else result.pick .lessThan input
  | .maxAggregate =>
      if input.isNull then some result else if result.isNull then some input
      else result.pick .greaterThanOrEqual input

def combineAggregateValues : List AggregationType → AggregateValue → AggregateValue →
    Option AggregateValue
  | aggType :: aggTypes, result :: results, input :: inputs => do
      let combined ← combineOne aggType result input
      let others ← combineAggregateValues aggTypes results inputs
      return combined :: others
  | _, results, _ => some results

def equalGroups : AggregateKey → AggregateKey → Option Bool
  | left :: lefts, right :: rights =>
      if left.isNull ≠ right.isNull then some false
      else if left.isNull then equalGroups lefts rights
      else do
        let answer ← left.compare .equal right
        if answer = some true then equalGroups lefts rights else return false
  | _, _ => some true

def findsGroup (key stored : AggregateKey) : Option Bool :=
  if hashKey key = hashKey stored then equalGroups key stored else some false

namespace AggregationPlanNode

def makeAggregateKey (node : AggregationPlanNode) (tuple : Tuple) : AggregateKey :=
  node.groupBys.map fun expr => (expr.evaluate tuple).getD ⟨.integer, none⟩

def plan (node : AggregationPlanNode) : AggregationPlan where
  groupBys := node.groupBys.map fun expr tuple => (expr.evaluate tuple).getD ⟨.integer, none⟩
  aggregates := node.aggregates.map fun expr tuple => (expr.evaluate tuple).getD ⟨.integer, none⟩
  generateInitialAggregateValue := generateInitialAggregateValue node.aggTypes
  combineAggregateValues result input :=
    (combineAggregateValues node.aggTypes result input).getD result

end AggregationPlanNode

/-! ### The fold -/

def AggregationType.start : AggregationType → Option Int
  | .countStarAggregate => some 0
  | _ => none

/-- COUNT(*) counts every row; the others pass over a NULL, and begin with the
first input that is none. -/
def AggregationType.step : AggregationType → Option Int → Option Int → Option Int
  | .countStarAggregate, result, _ => result.map (· + 1)
  | _, result, none => result
  | .countAggregate, result, some _ => some (result.getD 0 + 1)
  | .sumAggregate, result, some number => some (result.getD 0 + number)
  | .minAggregate, result, some number => some (min (result.getD number) number)
  | .maxAggregate, result, some number => some (max (result.getD number) number)

def AggregationType.fold (aggType : AggregationType) (inputs : List (Option Int)) : Option Int :=
  inputs.foldl aggType.step aggType.start

/-- An INTEGER; the least of the 32-bit numbers is NULL. -/
def InRange (number : Int) : Prop := -2147483648 < number ∧ number < 2147483648

def ofNumber (number : Option Int) : Value := ⟨.integer, number.map .number⟩

def inputOf (expr : Expression) (row : Row) : Option Int :=
  (expr.evaluate row.values).bind fun value => value.datum.bind Value.getAsInteger

namespace AggregationPlanNode

def group (node : AggregationPlanNode) (rows : List Row) (key : AggregateKey) : List Row :=
  rows.filter fun row => node.makeAggregateKey row.values = key

def folded (node : AggregationPlanNode) (rows : List Row) : AggregateValue :=
  List.zipWith (fun aggType expr => ofNumber (aggType.fold (rows.map (inputOf expr)))) node.aggTypes
    node.aggregates

/-- The running values of a group, `none` where an addition throws. -/
def combined (node : AggregationPlanNode) (rows : List Row) : Option AggregateValue :=
  rows.foldlM (fun result row => combineAggregateValues node.aggTypes result
    (node.aggregates.map fun expr => (expr.evaluate row.values).getD ⟨.integer, none⟩))
    (generateInitialAggregateValue node.aggTypes)

def aggregated (node : AggregationPlanNode) (rows : List Row) : AggregateValue :=
  (node.combined rows).getD []

def Combines (node : AggregationPlanNode) (rows : List Row) : Prop :=
  ∀ key, (node.combined (node.group rows key)).isSome

def listedKeys (node : AggregationPlanNode) (rows : List Row) : List AggregateKey :=
  if node.groupBys = [] then [[]] else (rows.map fun row => node.makeAggregateKey row.values).dedup

def rowsOf (node : AggregationPlanNode) (aggregate : List Row → AggregateValue)
    (rows : List Row) : List Row :=
  (node.listedKeys rows).map fun key => ⟨key ++ aggregate (node.group rows key), RID.invalid⟩

def reference (node : AggregationPlanNode) (rows : List Row) : List Row :=
  node.rowsOf node.folded rows

/-- Each group-by expression has a type, such as INTEGER or VARCHAR; the aggregated
ones are INTEGER. -/
structure Typed (node : AggregationPlanNode) (rows : List Row) : Prop where
  aligned : node.aggregates.length = node.aggTypes.length
  keys : ∃ types : List TypeId, ∀ row ∈ rows, Cells (types.map Sortable)
    (node.makeAggregateKey row.values)
  inputs : ∀ expr ∈ node.aggregates, ∀ row ∈ rows, expr.evaluate row.values =
    some (ofNumber (inputOf expr row))
  range : ∀ expr ∈ node.aggregates, ∀ row ∈ rows, ∀ number, inputOf expr row = some number →
    InRange number

/-- What the aggregate of a column has been on the way through a group. -/
def Passes (node : AggregationPlanNode) (rows : List Row) (aggType : AggregationType)
    (number : Int) : Prop :=
  ∃ key expr done left, (aggType, expr) ∈ node.aggTypes.zip node.aggregates ∧
    node.group rows key = done ++ left ∧ aggType.fold (done.map (inputOf expr)) = some number

/-- No running value of a group leaves 32 bits. -/
def NoOverflow (node : AggregationPlanNode) (rows : List Row) : Prop :=
  ∀ aggType number, node.Passes rows aggType number → -2147483648 ≤ number ∧ number < 2147483648

end AggregationPlanNode

section Combining
variable {aggType : AggregationType} {result input : Option Int} {number : Int}

theorem integer_in_range (range : InRange number) :
    Value.integer number = ofNumber (some number) := by
  obtain ⟨low, high⟩ := range
  have kept : number.bmod (1 <<< 32) = number := by
    rw [show (1 <<< 32 : Nat) = 4294967296 from rfl]
    apply Int.bmod_eq_of_le <;> omega
  simp only [Value.integer, kept, ofNumber, Option.map_some, Value.mk.injEq, true_and]
  rw [if_neg (by simp only [Nat.reduceShiftLeft, Nat.cast_ofNat]; omega)]

theorem add_in_range {first second : Int} (range : InRange (first + second)) :
    (ofNumber (some first)).add (ofNumber (some second)) =
      some (ofNumber (some (first + second))) := by
  rw [← integer_in_range range]
  obtain ⟨low, high⟩ := range
  simp only [Value.add, ofNumber, Option.map_some, Nat.reduceShiftLeft, Nat.cast_ofNat]
  rw [if_pos (by omega)]

theorem pick_min (first second : Int) :
    (ofNumber (some first)).pick .lessThan (ofNumber (some second)) =
      some (ofNumber (some (min first second))) := by
  have compared : (ofNumber (some first)).compare .lessThan (ofNumber (some second)) = some
    (some (decide (first < second))) := by
    simp [Value.compare, ofNumber, TypeId.checkComparable, TypeId.isInteger, orderData,
      ComparisonType.admits, integers_lt]
  rw [Value.pick, compared]
  by_cases less : first < second
  · simp [ofNumber, Value.isNull, less, min_eq_left (le_of_lt less)]
  · simp [ofNumber, Value.isNull, less, min_eq_right (not_lt.mp less)]

theorem pick_max (first second : Int) :
    (ofNumber (some first)).pick .greaterThanOrEqual (ofNumber (some second)) =
      some (ofNumber (some (max first second))) := by
  have compared : (ofNumber (some first)).compare .greaterThanOrEqual (ofNumber (some second)) =
      some (some (decide (second ≤ first))) := by
    have above : second ≤ first ↔ second < first ∨ first = second := by omega
    simp [Value.compare, ofNumber, TypeId.checkComparable, TypeId.isInteger, orderData,
      ComparisonType.admits, integers_gt, above]
  rw [Value.pick, compared]
  by_cases greater : second ≤ first
  · simp [ofNumber, Value.isNull, greater]
  · simp [ofNumber, Value.isNull, greater, le_of_lt (not_le.mp greater)]

theorem one_in_range : Value.integer 1 = ofNumber (some 1) := by
  apply integer_in_range
  simp [InRange]

theorem combine_one (counting : aggType = .countStarAggregate → result ≠ none)
    (range : ∀ number, aggType.step result input = some number → InRange number) :
    combineOne aggType (ofNumber result) (ofNumber input) =
      some (ofNumber (aggType.step result input)) := by
  cases aggType with
  | countStarAggregate =>
      cases result with
      | none => exact absurd rfl (counting rfl)
      | some count =>
          rw [combineOne, one_in_range]
          exact add_in_range (range _ rfl)
  | countAggregate =>
      cases input with
      | none => simp [combineOne, AggregationType.step, ofNumber, Value.isNull]
      | some number =>
          cases result with
          | none => simp [combineOne, AggregationType.step, ofNumber, Value.isNull, one_in_range]
          | some count =>
              have added := add_in_range (range _ rfl)
              simpa [combineOne, AggregationType.step, Value.isNull, one_in_range,
                ofNumber] using added
  | sumAggregate =>
      cases input with
      | none => simp [combineOne, AggregationType.step, ofNumber, Value.isNull]
      | some number =>
          cases result with
          | none => simp [combineOne, AggregationType.step, ofNumber, Value.isNull]
          | some sum =>
              have added := add_in_range (range _ rfl)
              simpa [combineOne, AggregationType.step, Value.isNull, ofNumber] using added
  | minAggregate =>
      cases input with
      | none => simp [combineOne, AggregationType.step, ofNumber, Value.isNull]
      | some number =>
          cases result with
          | none => simp [combineOne, AggregationType.step, ofNumber, Value.isNull]
          | some least =>
              have picked := pick_min least number
              simpa [combineOne, AggregationType.step, Value.isNull, ofNumber] using picked
  | maxAggregate =>
      cases input with
      | none => simp [combineOne, AggregationType.step, ofNumber, Value.isNull]
      | some number =>
          cases result with
          | none => simp [combineOne, AggregationType.step, ofNumber, Value.isNull]
          | some most =>
              have picked := pick_max most number
              simpa [combineOne, AggregationType.step, Value.isNull, ofNumber] using picked

theorem fold_snoc (aggType : AggregationType) (inputs : List (Option Int)) (input : Option Int) :
    aggType.fold (inputs ++ [input]) = aggType.step (aggType.fold inputs) input := by
  simp [AggregationType.fold]

theorem count_star_fold (inputs : List (Option Int)) :
    AggregationType.countStarAggregate.fold inputs = some (inputs.length : Int) := by
  induction inputs using List.reverseRecOn with
  | nil => rfl
  | append_singleton inputs input ih =>
      rw [fold_snoc, ih]
      simp [AggregationType.step]

theorem counting_fold (counting : aggType = .countStarAggregate) (inputs : List (Option Int)) :
    aggType.fold inputs ≠ none := by
  rw [counting, count_star_fold]
  simp

def combineColumn (aggType : AggregationType) (inputs : List (Option Int)) : Option Value :=
  inputs.foldlM (fun result input => combineOne aggType result (ofNumber input))
    (ofNumber aggType.start)

def PassesLeast (aggType : AggregationType) (inputs : List (Option Int)) : Prop :=
  ∃ done left, inputs = done ++ left ∧ aggType.fold done = some (-2147483648)

structure Fits (aggType : AggregationType) (inputs : List (Option Int)) : Prop where
  range : ∀ number, some number ∈ inputs → InRange number
  running : ∀ done left, inputs = done ++ left → ∀ number, aggType.fold done = some number →
    -2147483648 ≤ number ∧ number < 2147483648

theorem combine_column_snoc (aggType : AggregationType) (inputs : List (Option Int))
    (input : Option Int) :
    combineColumn aggType (inputs ++ [input]) =
      (combineColumn aggType inputs).bind fun result =>
        combineOne aggType result (ofNumber input) := by
  simp [combineColumn, List.foldlM_append]

section Columns
variable {inputs : List (Option Int)} {sum : Int} {value : Value}

theorem fits_init (fits : Fits aggType (inputs ++ [input])) : Fits aggType inputs where
  range number member := fits.range number (List.mem_append_left _ member)
  running done left split := fits.running done (left ++ [input]) (by rw [split, List.append_assoc])

theorem fits_last (fits : Fits aggType (inputs ++ [input]))
    (folded : aggType.fold (inputs ++ [input]) = some number) :
    -2147483648 ≤ number ∧ number < 2147483648 :=
  fits.running _ [] (List.append_nil _).symm number folded

theorem passes_init (passes : PassesLeast aggType inputs) :
    PassesLeast aggType (inputs ++ [input]) := by
  obtain ⟨done, left, rfl, least⟩ := passes
  exact ⟨done, left ++ [input], List.append_assoc .., least⟩

theorem passes_snoc : PassesLeast aggType (inputs ++ [input]) ↔
    PassesLeast aggType inputs ∨ aggType.fold (inputs ++ [input]) = some (-2147483648) := by
  constructor
  · rintro ⟨done, left, split, least⟩
    rcases List.eq_nil_or_concat left with rfl | ⟨front, last, rfl⟩
    · rw [List.append_nil] at split
      exact Or.inr (split ▸ least)
    · rw [List.concat_eq_append, ← List.append_assoc] at split
      exact Or.inl ⟨done, front, (List.append_inj' split rfl).1, least⟩
  · rintro (passes | least)
    · exact passes_init passes
    · exact ⟨_, [], (List.append_nil _).symm, least⟩

/-- A step keeps the result, takes the input for it, counts, or adds. -/
theorem step_cases {running input : Option Int}
    (stepped : aggType.step running input = some number) :
    running = some number ∨ input = some number ∨
      (∃ earlier, number = earlier + 1 ∧ (running = some earlier ∨ earlier = 0)) ∨
      ∃ earlier own, aggType = .sumAggregate ∧ running = some earlier ∧ input = some own ∧
        number = earlier + own := by
  cases aggType <;> cases running <;> cases input <;>
    simp only [AggregationType.step, Option.map_some, Option.map_none, Option.getD_some,
      Option.getD_none, Option.some.injEq, reduceCtorEq] at stepped <;> grind

theorem other_above (other : aggType ≠ .sumAggregate)
    (range : ∀ number, some number ∈ inputs → InRange number)
    (folded : aggType.fold inputs = some number) : -2147483648 < number := by
  induction inputs using List.reverseRecOn generalizing number with
  | nil =>
      cases aggType <;> simp [AggregationType.fold, AggregationType.start] at folded
      omega
  | append_singleton inputs input ih =>
      have before {earlier : Int} :=
        @ih earlier fun number member => range number (List.mem_append_left _ member)
      rw [fold_snoc] at folded
      rcases step_cases folded with kept | here | ⟨earlier, rfl, kept | rfl⟩ | ⟨_, _, isSum, _⟩
      · exact before kept
      · exact (range number (by simp [here])).1
      · exact (before kept).trans (Int.lt_add_one_iff.mpr le_rfl)
      · decide
      · exact absurd isSum other

theorem passes_sum (range : ∀ number, some number ∈ inputs → InRange number)
    (passes : PassesLeast aggType inputs) :
    aggType = .sumAggregate := by
  obtain ⟨done, left, rfl, least⟩ := passes
  by_contra other
  have above :=
    other_above other (fun number member => range number (List.mem_append_left _ member)) least
  exact absurd above (by decide)

theorem add_least {first second : Int} (least : first + second = -2147483648) :
    (ofNumber (some first)).add (ofNumber (some second)) = some (ofNumber none) := by
  simp only [Value.add, ofNumber, Option.map_some, least]
  rfl

def Restarted (sum : Int) (value : Value) : Prop :=
  sum = -2147483648 ∧ value = ofNumber none ∨ value = ofNumber (some (sum + 2147483648))

theorem restarted_apart (restarted : Restarted sum value) :
    value ≠ ofNumber (some sum) := by
  rcases restarted with ⟨-, rfl⟩ | rfl
  · simp [ofNumber]
  · simp only [ofNumber, Option.map_some, ne_eq, Value.mk.injEq, Option.some.injEq,
      Datum.number.injEq, true_and]
    omega

theorem restarted_step {value next : Value} (restarted : Restarted sum value)
    (combined : combineOne .sumAggregate value (ofNumber input) = some next)
    (fits : ∀ number, AggregationType.step .sumAggregate (some sum) input = some number →
      -2147483648 ≤ number ∧ number < 2147483648) :
    ∃ number, AggregationType.step .sumAggregate (some sum) input = some number ∧
      Restarted number next := by
  cases input with
  | none =>
      obtain rfl : value = next := by simpa [combineOne, ofNumber, Value.isNull] using combined
      exact ⟨sum, rfl, restarted⟩
  | some own =>
      refine ⟨sum + own, rfl, Or.inr ?_⟩
      have range := fits (sum + own) rfl
      rcases restarted with ⟨rfl, rfl⟩ | rfl
      · obtain rfl : ofNumber (some own) = next := by
          simpa [combineOne, ofNumber, Value.isNull] using combined
        congr 2
        omega
      · have added : (ofNumber (some (sum + 2147483648))).add (ofNumber (some own)) =
            some next := by
          simpa [combineOne, ofNumber, Value.isNull] using combined
        simp only [Value.add, ofNumber, Option.map_some, Nat.reduceShiftLeft, Nat.cast_ofNat]
          at added
        split at added
        case isFalse => cases added
        case isTrue small =>
          rw [← Option.some.inj added, integer_in_range ⟨by omega, by omega⟩]
          congr 2
          omega

/-- A column comes to its fold until the fold is the number that is NULL, and from then on to
another. -/
theorem column_follows (fits : Fits aggType inputs)
    (combined : combineColumn aggType inputs = some value) :
    ¬PassesLeast aggType inputs ∧ value = ofNumber (aggType.fold inputs) ∨
      PassesLeast aggType inputs ∧ ∃ sum, aggType.fold inputs = some sum ∧ Restarted sum value := by
  induction inputs using List.reverseRecOn generalizing value with
  | nil =>
      refine Or.inl ⟨?_, (Option.some.inj combined).symm⟩
      rintro ⟨done, left, split, least⟩
      obtain ⟨rfl, rfl⟩ := List.append_eq_nil_iff.mp split.symm
      cases aggType <;> simp [AggregationType.fold, AggregationType.start] at least
  | append_singleton inputs input ih =>
      rw [combine_column_snoc, Option.bind_eq_some_iff] at combined
      obtain ⟨earlier, before, now⟩ := combined
      have here {own : Int} (own' : input = some own) : InRange own :=
        fits.range own (by simp [own'])
      rcases ih (fits_init fits) before with ⟨above, rfl⟩ | ⟨passed, sum, folded, restarted⟩
      · by_cases least : aggType.fold (inputs ++ [input]) = some (-2147483648)
        · have passes : PassesLeast aggType (inputs ++ [input]) := passes_snoc.mpr (Or.inr least)
          obtain rfl := passes_sum fits.range passes
          refine Or.inr ⟨passes, _, least, Or.inl ⟨rfl, ?_⟩⟩
          rw [fold_snoc] at least
          cases input with
          | none =>
              have least : AggregationType.sumAggregate.fold inputs = some (-2147483648) := by
                simpa [AggregationType.step] using least
              exact absurd ⟨_, [], (List.append_nil _).symm, least⟩ above
          | some own =>
              cases result : AggregationType.sumAggregate.fold inputs with
              | none =>
                  have low := (here rfl).1
                  simp [result, AggregationType.step] at least
                  omega
              | some sum =>
                  simp only [result, AggregationType.step, Option.getD_some, Option.some.injEq]
                    at least
                  simp only [result, combineOne, ofNumber, Option.map_some, Value.isNull] at now
                  exact (Option.some.inj (now.symm.trans (add_least least)))
        -- no running value is the number that is NULL
        · refine Or.inl ⟨fun passes => (passes_snoc.mp passes).elim above least, ?_⟩
          have range (number : Int) (folded : aggType.fold (inputs ++ [input]) = some number) :
              InRange number := by
            have bounds := fits_last fits folded
            have other : number ≠ -2147483648 := fun same => least (same ▸ folded)
            exact ⟨by omega, bounds.2⟩
          rw [fold_snoc] at range ⊢
          rw [combine_one (fun counting => counting_fold counting _) range] at now
          exact (Option.some.inj now).symm
      -- a sum that has begun again stays 2147483648 above the fold
      · obtain rfl := passes_sum (fits_init fits).range passed
        rw [fold_snoc, folded]
        exact Or.inr ⟨passes_init passed, restarted_step restarted now fun number folded' =>
          fits_last fits (by rw [fold_snoc, folded, folded'])⟩

/-- A column comes to its fold unless the fold has been the number that is NULL. -/
theorem column_right (fits : Fits aggType inputs) :
    combineColumn aggType inputs = some (ofNumber (aggType.fold inputs)) ↔
      ¬PassesLeast aggType inputs := by
  constructor
  · intro right passes
    rcases column_follows fits right with ⟨above, -⟩ | ⟨-, sum, folded, restarted⟩
    · exact above passes
    · exact restarted_apart restarted (by rw [folded])
  · intro above
    induction inputs using List.reverseRecOn with
    | nil => rfl
    | append_singleton inputs input ih =>
        have before := ih (fits_init fits) fun passes => above (passes_init passes)
        have range (number : Int) (folded : aggType.fold (inputs ++ [input]) = some number) :
            InRange number := by
          have bounds := fits_last fits folded
          have other : number ≠ -2147483648 :=
            fun same => above (passes_snoc.mpr (Or.inr (same ▸ folded)))
          exact ⟨by omega, bounds.2⟩
        rw [fold_snoc] at range
        rw [combine_column_snoc, before, Option.bind_some, fold_snoc]
        exact combine_one (fun counting => counting_fold counting _) range

end Columns

section Rows
variable {aggTypes : List AggregationType} {exprs : List Expression} {node : AggregationPlanNode}
  {rows : List Row}

/-- `CombineAggregateValues` goes through the columns one by one. -/
theorem combine_columns (row : Row) (aligned : exprs.length = aggTypes.length)
    {column : AggregationType × Expression → Option Value}
    (inputs : ∀ expr ∈ exprs, expr.evaluate row.values = some (ofNumber (inputOf expr row))) :
    (((aggTypes.zip exprs).mapM column).bind fun results => combineAggregateValues aggTypes results
        (exprs.map fun expr => (expr.evaluate row.values).getD ⟨.integer, none⟩)) =
      (aggTypes.zip exprs).mapM fun part =>
        (column part).bind fun result =>
          combineOne part.1 result (ofNumber (inputOf part.2 row)) := by
  induction aggTypes generalizing exprs with
  | nil =>
      cases exprs with
      | nil => rfl
      | cons _ _ => cases aligned
  | cons aggType aggTypes ih =>
      cases exprs with
      | nil => cases aligned
      | cons expr exprs =>
          have later := ih (by simpa using aligned) fun other member =>
            inputs other (List.mem_cons_of_mem _ member)
          have here := inputs expr List.mem_cons_self
          simp only [List.zip_cons_cons, List.mapM_cons, Option.bind_eq_bind,
            Option.pure_def, ← later, List.map_cons, here, Option.getD_some]
          cases column (aggType, expr) with
          | none => rfl
          | some result =>
              cases (aggTypes.zip exprs).mapM column with
              | none => simp
              | some results => simp [combineAggregateValues]

theorem initial_folded (aligned : node.aggregates.length = node.aggTypes.length) :
    generateInitialAggregateValue node.aggTypes = node.folded [] := by
  obtain ⟨groupBys, exprs, aggTypes⟩ := node
  simp only [AggregationPlanNode.folded, List.map_nil] at aligned ⊢
  unfold generateInitialAggregateValue
  induction aggTypes generalizing exprs with
  | nil => rfl
  | cons aggType aggTypes ih =>
      cases exprs with
      | nil => cases aligned
      | cons expr exprs =>
          rw [List.map_cons, List.zipWith_cons_cons, ih exprs (by simpa using aligned)]
          cases aggType <;> rfl

theorem typed_init {row : Row} (typed : node.Typed (rows ++ [row])) :
    node.Typed rows where
  aligned := typed.aligned
  keys := typed.keys.imp fun _ keys other member => keys other (List.mem_append_left _ member)
  inputs expr member other among := typed.inputs expr member other (List.mem_append_left _ among)
  range expr member other among := typed.range expr member other (List.mem_append_left _ among)

theorem folded_columns (node : AggregationPlanNode) (rows : List Row) :
    node.folded rows = (node.aggTypes.zip node.aggregates).map fun part =>
      ofNumber (part.1.fold (rows.map (inputOf part.2))) := by
  rw [AggregationPlanNode.folded, List.zip, List.map_zipWith]

theorem combined_columns (typed : node.Typed rows) :
    node.combined rows = (node.aggTypes.zip node.aggregates).mapM fun part =>
      combineColumn part.1 (rows.map (inputOf part.2)) := by
  induction rows using List.reverseRecOn with
  | nil =>
      have initial : node.combined [] = some (node.folded []) :=
        congrArg some (initial_folded typed.aligned)
      rw [initial, folded_columns]
      exact (Listing.map_m_each fun part _ => rfl).symm
  | append_singleton rows row ih =>
      have before := ih (typed_init typed)
      have inputs := fun expr member => typed.inputs expr member row (by simp)
      have last : node.combined (rows ++ [row]) = (node.combined rows).bind fun results =>
          combineAggregateValues node.aggTypes results
            (node.aggregates.map fun expr => (expr.evaluate row.values).getD ⟨.integer, none⟩) := by
        simp [AggregationPlanNode.combined, List.foldlM_append]
      rw [last, before, combine_columns row typed.aligned inputs]
      simp [combine_column_snoc]

end Rows

theorem fold_bounded {bound : Int} (positive : 1 ≤ bound) (aggType : AggregationType)
    (inputs : List (Option Int))
    (small : ∀ number, some number ∈ inputs → -bound ≤ number ∧ number ≤ bound) {number : Int}
    (folded : aggType.fold inputs = some number) :
    -(bound * inputs.length) ≤ number ∧ number ≤ bound * inputs.length := by
  induction inputs using List.reverseRecOn generalizing number with
  | nil =>
      cases aggType <;> simp [AggregationType.fold, AggregationType.start] at folded
      simp [← folded]
  | append_singleton inputs input ih =>
      have before {earlier : Int} :=
        @ih (fun number member => small number (List.mem_append_left _ member)) earlier
      have length : bound * ((inputs ++ [input]).length : Int) = bound * inputs.length + bound := by
        rw [List.length_append, List.length_singleton]
        push_cast
        rw [mul_add, mul_one]
      have nonneg : 0 ≤ bound * (inputs.length : Int) :=
        Int.mul_nonneg (by omega) (Int.natCast_nonneg _)
      rw [fold_snoc] at folded
      rw [length]
      rcases step_cases folded with kept | here | ⟨earlier, rfl, kept | rfl⟩ |
          ⟨earlier, own, -, kept, here, rfl⟩
      · have := before kept
        omega
      · have := small number (by simp [here])
        omega
      · have := before kept
        omega
      · omega
      · have := before kept
        have := small own (by simp [here])
        omega

end Combining

section Groups
variable {node : AggregationPlanNode} {rows done : List Row} {row : Row} {key : AggregateKey}
  {aht : AggregationTable} {aggType : AggregationType}

theorem group_snoc (node : AggregationPlanNode) (done : List Row) (row : Row) (key : AggregateKey) :
    node.group (done ++ [row]) key =
      if node.makeAggregateKey row.values = key then node.group done key ++ [row]
      else node.group done key := by
  unfold AggregationPlanNode.group
  rw [List.filter_append]
  split <;> simp_all

theorem group_nonempty : node.group rows key ≠ [] ↔ key ∈ rows.map fun row =>
    node.makeAggregateKey row.values := by
  simp [AggregationPlanNode.group, List.filter_eq_nil_iff]

theorem column_fits {rows : List Row} (typed : node.Typed rows) (fits : node.NoOverflow rows)
    {expr : Expression}
    (member : (aggType, expr) ∈ node.aggTypes.zip node.aggregates) (key : AggregateKey) :
    Fits aggType ((node.group rows key).map (inputOf expr)) where
  range number among := by
    obtain ⟨row, inGroup, same⟩ := List.mem_map.mp among
    exact typed.range expr (List.of_mem_zip member).2 row (List.mem_filter.mp inGroup).1 number same
  running done left split number folded := by
    obtain ⟨front, back, group, rfl, rfl⟩ := List.map_eq_append_iff.mp split
    exact fits aggType number ⟨key, expr, front, back, member, group, folded⟩

theorem typed_group (typed : node.Typed rows) (key : AggregateKey) :
    node.Typed (node.group rows key) where
  aligned := typed.aligned
  keys := typed.keys.imp fun _ keys row member => keys row (List.mem_filter.mp member).1
  inputs expr member row among := typed.inputs expr member row (List.mem_filter.mp among).1
  range expr member row among := typed.range expr member row (List.mem_filter.mp among).1

/-- The aggregates of a group are the folds unless a sum has been the number that is NULL. -/
theorem group_folds_iff (typed : node.Typed rows) (fits : node.NoOverflow rows) :
    (∀ key, node.combined (node.group rows key) = some (node.folded (node.group rows key))) ↔
      ¬node.Passes rows .sumAggregate (-2147483648) := by
  have columns (key : AggregateKey) : node.combined (node.group rows key) =
      some (node.folded (node.group rows key)) ↔ ∀ part ∈ node.aggTypes.zip node.aggregates,
        ¬PassesLeast part.1 ((node.group rows key).map (inputOf part.2)) := by
    rw [combined_columns (typed_group typed key), folded_columns, Listing.map_m_each_iff]
    exact forall₂_congr fun part member => column_right (column_fits typed fits member key)
  simp only [columns]
  constructor
  · rintro right ⟨key, expr, done, left, member, split, least⟩
    refine right key _ member ⟨done.map (inputOf expr), left.map (inputOf expr), ?_, least⟩
    rw [split, List.map_append]
  · rintro above key ⟨aggType, expr⟩ member passes
    obtain rfl := passes_sum (column_fits typed fits member key).range passes
    obtain ⟨done, left, split, least⟩ := passes
    obtain ⟨front, back, group, rfl, rfl⟩ := List.map_eq_append_iff.mp split
    exact above ⟨key, expr, front, back, member, group, least⟩

structure Grouped (node : AggregationPlanNode) (done : List Row)
    (aht : AggregationTable) : Prop where
  values : ∀ key, aht.ht.lookup key =
    if node.group done key = [] then none else node.combined (node.group done key)
  unique : (MapCall.keys aht.past).Nodup
  keys : ∀ key, key ∈ MapCall.keys aht.past ↔ node.group done key ≠ []

theorem grouped_clear (node : AggregationPlanNode) (aht : AggregationTable) :
    Grouped node [] aht.clear where
  values := fun key => rfl
  unique := List.nodup_nil
  keys := fun key => by simp [AggregationTable.clear, MapCall.keys, AggregationPlanNode.group]

theorem few_rows_fit {bound : Int} (positive : 1 ≤ bound) (few : bound * rows.length < 2147483648)
    (small : ∀ expr ∈ node.aggregates, ∀ row ∈ rows, ∀ number, inputOf expr row = some number →
      -bound ≤ number ∧ number ≤ bound) {number : Int}
    (passes : node.Passes rows aggType number) : InRange number := by
  obtain ⟨key, expr, done, left, member, split, folded⟩ := passes
  have inside (row : Row) (among : row ∈ done) : row ∈ rows := by
    have grouped : row ∈ node.group rows key := by
      rw [split]
      exact List.mem_append_left _ among
    exact (List.mem_filter.mp grouped).1
  have length : done.length ≤ rows.length := by
    have whole := congrArg List.length split
    have part : (node.group rows key).length ≤ rows.length := List.length_filter_le _ _
    rw [List.length_append] at whole
    omega
  have bounded := fold_bounded positive aggType (done.map (inputOf expr)) ?_ folded
  · have most : bound * (done.length : Int) ≤ bound * rows.length :=
      Int.mul_le_mul_of_nonneg_left (by exact_mod_cast length) (by omega)
    rw [List.length_map] at bounded
    exact ⟨by omega, by omega⟩
  · intro own among
    obtain ⟨row, inDone, same⟩ := List.mem_map.mp among
    exact small expr (List.of_mem_zip member).2 row (inside row inDone) own same

theorem combined_snoc (node : AggregationPlanNode) (done : List Row) (row : Row) :
    node.combined (done ++ [row]) = (node.combined done).bind fun results =>
      combineAggregateValues node.aggTypes results
        (node.aggregates.map fun expr => (expr.evaluate row.values).getD ⟨.integer, none⟩) := by
  simp [AggregationPlanNode.combined, List.foldlM_append]

theorem combines_init (combines : node.Combines (done ++ [row])) : node.Combines done := by
  intro key
  have whole := combines key
  rw [group_snoc] at whole
  split at whole
  · rw [combined_snoc] at whole
    obtain ⟨result, there⟩ := Option.isSome_iff_exists.mp whole
    obtain ⟨before, first, -⟩ := Option.bind_eq_some_iff.mp there
    exact Option.isSome_iff_exists.mpr ⟨before, first⟩
  · exact whole

theorem grouped_entered (grouped : Grouped node done aht) (combines : node.Combines done)
    (key : AggregateKey) :
    ((if (aht.ht.lookup key).isNone then aht.insertInitial node.plan key else aht).ht.lookup key) =
        node.combined (node.group done key) ∧
      (∀ other, other ≠ key →
        (if (aht.ht.lookup key).isNone then aht.insertInitial node.plan key
          else aht).ht.lookup other =
        aht.ht.lookup other) ∧
      (MapCall.keys (if (aht.ht.lookup key).isNone then aht.insertInitial node.plan key
        else aht).past).Nodup ∧ ∀ other, other ∈ MapCall.keys
        (if (aht.ht.lookup key).isNone then aht.insertInitial node.plan key else aht).past ↔
        node.group done other ≠ [] ∨ other = key := by
  have values := grouped.values key
  by_cases empty : node.group done key = []
  · rw [if_pos empty] at values
    have absent : key ∉ MapCall.keys aht.past := fun member => (grouped.keys key).mp member empty
    rw [values, Option.isNone_none, if_pos rfl]
    refine ⟨?_, ?_, ?_, ?_⟩
    · rw [empty]
      simp [AggregationTable.insertInitial, AggregationPlanNode.plan, AggregationPlanNode.combined]
    · intro other different
      simp [AggregationTable.insertInitial, AList.lookup_insert_ne different]
    · simp only [AggregationTable.insertInitial, MapCall.keys]
      exact List.Nodup.append grouped.unique (List.nodup_singleton key) (by simpa using absent)
    · intro other
      simp [AggregationTable.insertInitial, MapCall.keys, grouped.keys]
  · rw [if_neg empty] at values
    obtain ⟨result, there⟩ := Option.isSome_iff_exists.mp (combines key)
    -- the key has an entry, and none is made
    rw [values, there, Option.isNone_some, if_neg (by decide)]
    refine ⟨values.trans there, fun _ _ => rfl, grouped.unique, fun other => ?_⟩
    rw [grouped.keys]
    refine ⟨Or.inl, ?_⟩
    rintro (some | rfl)
    · exact some
    · exact empty

theorem grouped_step (grouped : Grouped node done aht) (combines : node.Combines (done ++ [row])) :
    Grouped node (done ++ [row])
      (aht.insertCombine node.plan (node.plan.groupBys.map fun expr => expr row.values)
      (node.plan.aggregates.map fun expr => expr row.values)) := by
  have key : (node.plan.groupBys.map fun expr => expr row.values) =
      node.makeAggregateKey row.values := by
    simp [AggregationPlanNode.plan, AggregationPlanNode.makeAggregateKey]
  have value : (node.plan.aggregates.map fun expr => expr row.values) =
      node.aggregates.map fun expr => (expr.evaluate row.values).getD ⟨.integer, none⟩ := by
    simp [AggregationPlanNode.plan]
  rw [key, value]
  have whole := combines (node.makeAggregateKey row.values)
  rw [group_snoc, if_pos rfl, combined_snoc] at whole
  generalize ownKey : node.makeAggregateKey row.values = own at whole
  obtain ⟨found, others, unique, keys⟩ := grouped_entered grouped (combines_init combines) own
  obtain ⟨next, there⟩ := Option.isSome_iff_exists.mp whole
  obtain ⟨result, before, combined⟩ := Option.bind_eq_some_iff.mp there
  constructor
  · intro other
    rw [group_snoc, ownKey]
    by_cases same : own = other
    · subst same
      rw [if_pos rfl, if_neg (List.append_ne_nil_of_right_ne_nil _ (List.cons_ne_nil row [])),
        combined_snoc, there]
      simp only [AggregationTable.insertCombine, AList.lookup_insert, found, before,
        Option.getD_some]
      simp only [AggregationPlanNode.plan, combined, Option.getD_some]
    · simp only [AggregationTable.insertCombine, AList.lookup_insert_ne (Ne.symm same),
        others other (Ne.symm same), same,
        if_false]
      exact grouped.values other
  · exact unique
  · intro other
    rw [group_snoc, ownKey]
    simp only [AggregationTable.insertCombine, keys]
    by_cases same : own = other
    · simp [same]
    · simp [same, Ne.symm same]

theorem grouped_fold (aht : AggregationTable) : ∀ done, node.Combines done →
    Grouped node done (done.foldl
    (fun aht row => aht.insertCombine node.plan (node.plan.groupBys.map fun expr => expr row.values)
      (node.plan.aggregates.map fun expr => expr row.values)) aht.clear) := by
  intro done
  induction done using List.reverseRecOn with
  | nil => exact fun _ => grouped_clear node aht
  | append_singleton done row ih =>
      intro combines
      rw [List.foldl_append, List.foldl_cons, List.foldl_nil]
      exact grouped_step (ih (combines_init combines)) combines

theorem entries_of_grouped (grouped : Grouped node rows aht) (combines : node.Combines rows)
    (order : MapOrder AggregateKey) :
    (aht.entries order).Perm
      ((rows.map fun row => node.makeAggregateKey row.values).dedup.map fun key =>
      (key, node.aggregated (node.group rows key))) := by
  have listed : aht.entries order =
      (order.listing aht.past).map fun key => (key, node.aggregated (node.group rows key)) := by
    rw [AggregationTable.entries, ← List.filterMap_eq_map]
    apply List.filterMap_congr
    intro key member
    have some := (grouped.keys key).mp ((order.perm aht.past).mem_iff.mp member)
    obtain ⟨result, there⟩ := Option.isSome_iff_exists.mp (combines key)
    rw [grouped.values, if_neg some, there]
    simp [AggregationPlanNode.aggregated, there]
  rw [listed]
  apply List.Perm.map
  apply (order.perm aht.past).trans
  rw [List.perm_ext_iff_of_nodup grouped.unique (List.nodup_dedup _)]
  intro key
  rw [grouped.keys, group_nonempty, List.mem_dedup]

/-- The executor's rows are the keys with what their groups come to. -/
theorem build_rows (combines : node.Combines rows) (aht : AggregationTable)
    (order : MapOrder AggregateKey) :
    (((aht.build node.plan rows).entries order).map entryRow).map Prod.fst |>.Perm
      (node.rowsOf node.aggregated rows) := by
  have grouped := grouped_fold aht rows combines
  have sameRows (keys : List AggregateKey) :
      ((keys.map fun key => (key, node.aggregated (node.group rows key))).map entryRow).map
        Prod.fst =
        keys.map fun key =>
          (⟨key ++ node.aggregated (node.group rows key), RID.invalid⟩ : Row) := by
    simp [entryRow, Function.comp_def]
  have noGroups : node.plan.groupBys.isEmpty = true ↔ node.groupBys = [] := by
    simp [AggregationPlanNode.plan]
  unfold AggregationTable.build
  dsimp only
  generalize rows.foldl
    (fun aht row => aht.insertCombine node.plan (node.plan.groupBys.map fun expr => expr row.values)
    (node.plan.aggregates.map fun expr => expr row.values)) aht.clear = built at grouped
  split
  · rename_i single
    obtain ⟨empty, none⟩ := Bool.and_eq_true_iff.mp single
    -- no entry, so no row
    have noRow : rows = [] := by
      cases rows with
      | nil => rfl
      | cons row rows =>
          have found := grouped.values (node.makeAggregateKey row.values)
          have some : node.group (row :: rows) (node.makeAggregateKey row.values) ≠ [] := by
            simp [AggregationPlanNode.group]
          rw [if_neg some] at found
          have member := AList.lookup_isSome.mp
            (by rw [found]; exact combines _ : (built.ht.lookup
              (node.makeAggregateKey row.values)).isSome)
          rw [AList.mem_keys, AList.keys, List.isEmpty_iff.mp empty] at member
          cases member
    subst noRow
    have listing := (order.perm (built.insertInitial node.plan []).past)
    have keys : MapCall.keys (built.insertInitial node.plan []).past = [[]] := by
      have none : MapCall.keys built.past = [] := by
        apply List.eq_nil_iff_forall_not_mem.mpr
        intro key member
        exact (grouped.keys key).mp member rfl
      simp [AggregationTable.insertInitial, MapCall.keys, none]
    rw [keys, List.perm_singleton] at listing
    rw [AggregationTable.entries, listing, AggregationPlanNode.rowsOf,
        AggregationPlanNode.listedKeys, if_pos (noGroups.mp none)]
    simp [AggregationTable.insertInitial, AggregationPlanNode.plan, entryRow,
      AggregationPlanNode.aggregated, AggregationPlanNode.combined, AggregationPlanNode.group]
  · rename_i several
    have perm := ((entries_of_grouped grouped combines order).map entryRow).map Prod.fst
    rw [sameRows] at perm
    apply perm.trans
    unfold AggregationPlanNode.rowsOf AggregationPlanNode.listedKeys
    by_cases none : node.groupBys = []
    · -- every row has the empty key
      have keys : (rows.map fun row => node.makeAggregateKey row.values) =
          rows.map fun _ => [] := by
        simp [AggregationPlanNode.makeAggregateKey, none]
      have some : rows ≠ [] := by
        rintro rfl
        apply several
        rw [Bool.and_eq_true_iff]
        refine ⟨?_, noGroups.mpr none⟩
        rw [List.isEmpty_iff]
        apply List.eq_nil_iff_forall_not_mem.mpr
        rintro ⟨key, value⟩ member
        have found := AList.mem_lookup_iff.mpr member
        rw [grouped.values] at found
        cases found
      have once : (rows.map fun _ => ([] : AggregateKey)).dedup = [[]] := by
        obtain ⟨row, others, rfl⟩ := List.exists_cons_of_ne_nil some
        rw [List.map_const', List.replicate_dedup (by simp)]
      rw [if_pos none, keys, once]
    · rw [if_neg none]

theorem listed_length (listed : key ∈ node.listedKeys rows) :
    key.length = node.groupBys.length := by
  unfold AggregationPlanNode.listedKeys at listed
  split at listed
  · rename_i none
    obtain rfl := List.mem_singleton.mp listed
    simp [none]
  · obtain ⟨row, -, rfl⟩ := List.mem_map.mp (List.mem_dedup.mp listed)
    simp [AggregationPlanNode.makeAggregateKey]

theorem listed_key (some : node.group rows key ≠ []) : key ∈ node.listedKeys rows := by
  have among := group_nonempty.mp some
  unfold AggregationPlanNode.listedKeys
  split
  · rename_i none
    obtain ⟨row, -, rfl⟩ := List.mem_map.mp among
    simp [AggregationPlanNode.makeAggregateKey, none]
  · exact List.mem_dedup.mpr among

/-- Rows with the same keys are the same rows when they have the same aggregates. -/
theorem rows_of_perm_iff {first second : List Row → AggregateValue} :
    (node.rowsOf first rows).Perm (node.rowsOf second rows) ↔
      ∀ key ∈ node.listedKeys rows, first (node.group rows key) = second (node.group rows key) := by
  constructor
  · intro perm key member
    have among := perm.subset (List.mem_map.mpr ⟨key, member, rfl⟩)
    obtain ⟨other, there, same⟩ := List.mem_map.mp among
    have values : other ++ second (node.group rows other) = key ++ first (node.group rows key) :=
      congrArg Row.values same
    obtain ⟨rfl, aggregates⟩ :=
      List.append_inj values ((listed_length there).trans (listed_length member).symm)
    exact aggregates.symm
  · intro same
    unfold AggregationPlanNode.rowsOf
    rw [List.map_congr_left fun key member => by rw [same key member]]

end Groups

section Keys
variable {types : List TypeId} {left right : AggregateKey}

theorem equal_groups_cons {typeId : TypeId} {a b : Value} (one : Sortable typeId a)
    (two : Sortable typeId b) :
    equalGroups (a :: left) (b :: right) = if a = b then equalGroups left right
      else some false := by
  have tie := tie_iff one two
  rw [equalGroups]
  cases here : a.datum with
  | none =>
      have null : a.isNull = true := by simp [Value.isNull, here]
      cases there : b.datum with
      | none =>
          have null' : b.isNull = true := by simp [Value.isNull, there]
          have same : a = b := tie.mpr (Or.inl (by simp [null, null']))
          rw [if_neg (by simp [null, null']), if_pos null, if_pos same]
      | some second =>
          have apart : a.isNull ≠ b.isNull := by simp [Value.isNull, here, there]
          rw [if_pos apart, if_neg fun same => apart (by rw [same])]
  | some first =>
      cases there : b.datum with
      | none =>
          have apart : a.isNull ≠ b.isNull := by simp [Value.isNull, here, there]
          rw [if_pos apart, if_neg fun same => apart (by rw [same])]
      | some second =>
          rw [if_neg (by simp [Value.isNull, here, there]), if_neg (by simp [Value.isNull, here]),
            compare_sortable one two here there]
          have equal : a = b ↔
              ComparisonType.equal.admits (some (orderSame first second)) = true := by
            rw [tie, compare_sortable one two here there]
            simp [Value.isNull, here, there]
          simp [equal]

theorem equal_groups_iff (front : Cells (types.map Sortable) left)
    (back : Cells (types.map Sortable) right) :
    equalGroups left right = some true ↔ left = right := by
  induction types generalizing left right with
  | nil =>
      cases front
      cases back
      simp [equalGroups]
  | cons typeId types ih =>
      cases front with
      | @cons _ a _ left one front =>
          cases back with
          | @cons _ b _ right two back =>
              rw [equal_groups_cons one two, List.cons.injEq]
              by_cases same : a = b
              · simp [same, ih front back]
              · simp [same]

/-- A lookup in the map of the source finds the key that is the same, NULL for NULL
and value for value, and no other: hash and `operator==` agree on them. -/
theorem finds_group_iff (front : Cells (types.map Sortable) left)
    (back : Cells (types.map Sortable) right) :
    findsGroup left right = some true ↔ left = right := by
  unfold findsGroup
  constructor
  · intro found
    split at found
    · exact (equal_groups_iff front back).mp found
    · cases found
  · rintro rfl
    rw [if_pos rfl]
    exact (equal_groups_iff front back).mpr rfl

end Keys

/-! ### The executor -/

theorem drain_reached {child : Executor} {size fuel : Nat} {state final : child.State}
    {rows : List Row} (drained : child.drain size fuel state = some (rows, final))
    (reached : child.Reached state) :
    child.Reached final := by
  induction fuel generalizing state rows with
  | zero => cases drained
  | succ fuel ih =>
      rw [drain, Option.bind_eq_bind, Option.bind_eq_some_iff] at drained
      obtain ⟨⟨batch, after⟩, answered, rest⟩ := drained
      dsimp only at rest
      split at rest
      · rw [Option.bind_eq_bind, Option.bind_eq_some_iff] at rest
        obtain ⟨⟨later, last⟩, drained, same⟩ := rest
        obtain ⟨rfl, rfl⟩ : batch.tuples ++ later = rows ∧ last = final := by simpa using same
        exact ih drained (reached.next answered)
      · obtain ⟨rfl, rfl⟩ : ([] : List Row) = rows ∧ after = final := by simpa using rest
        exact reached.next answered

theorem aggregation_child_reached {fuel : Nat} {order : MapOrder AggregateKey}
    {plan : AggregationPlan} {child : Executor} {state : AggregationState child}
    (reached : (aggregationExecutor fuel order plan child).Reached state) :
    child.Reached state.child := by
  apply reached_keeps (fun now : AggregationState child => child.Reached now.child)
    .fresh _ _ reached
  · intro before after ih begun
    obtain ⟨started, init, rest⟩ := Option.bind_eq_some_iff.mp begun
    obtain ⟨⟨rows, final⟩, drained, same⟩ := Option.bind_eq_some_iff.mp rest
    obtain rfl := Option.some.inj same
    exact drain_reached drained (ih.init init)
  · intro before size batch after ih answered
    simp only [aggregationExecutor, Option.some.injEq] at answered
    obtain ⟨_, rfl⟩ := answered
    exact ih

/-- Nothing throws, two keys of rows are told apart just when they are not the same, and whenever
the executor is started, from whatever state, it hands out the rows of the reference, in the order
of the library's listing. -/
structure FoldsGroups (node : AggregationPlanNode) (order : MapOrder AggregateKey)
    (child : Executor) (rows : List Row) (fuel : Nat) : Prop where
  combines : node.Combines rows
  keys : ∀ first ∈ rows, ∀ second ∈ rows,
    (findsGroup (node.makeAggregateKey first.values) (node.makeAggregateKey second.values) =
      some true ↔ node.makeAggregateKey first.values = node.makeAggregateKey second.values)
  rows : ∀ state, (aggregationExecutor fuel order node.plan child).Reached state →
    ∃ started out, (aggregationExecutor fuel order node.plan child).init state = some started ∧
      (aggregationExecutor fuel order node.plan child).Delivers true started out ∧
        (out.map Prod.fst).Perm (node.reference rows)

section Executors
variable {node : AggregationPlanNode} {order : MapOrder AggregateKey} {child : Executor}
  {rows : List (Row × RID)} {fuel : Nat}

/-- The executor hands out the keys with what their groups come to. -/
theorem aggregation_starts
    (restarts : ∀ state, child.Reached state → ∃ started, child.init state = some started ∧
      child.Delivers false started rows) (enough : rows.length < fuel)
    (combines : node.Combines (rows.map Prod.fst))
    {state : AggregationState child}
    (reached : (aggregationExecutor fuel order node.plan child).Reached state) :
    ∃ started out, (aggregationExecutor fuel order node.plan child).init state = some started ∧
      (aggregationExecutor fuel order node.plan child).Delivers true started out ∧
        (out.map Prod.fst).Perm (node.rowsOf node.aggregated (rows.map Prod.fst)) := by
  obtain ⟨started, begun, delivers⟩ := restarts state.child (aggregation_child_reached reached)
  obtain ⟨final, drained⟩ := drain_delivers delivers (by decide : 0 < BUSTUB_BATCH_SIZE) enough
  exact ⟨_, _, aggregation_started begun drained, aggregation_delivers _,
    build_rows combines _ order⟩

theorem folds_groups_iff
    (restarts : ∀ state, child.Reached state → ∃ started, child.init state = some started ∧
      child.Delivers false started rows) (typed : node.Typed (rows.map Prod.fst))
    (fits : node.NoOverflow (rows.map Prod.fst)) (enough : rows.length < fuel) :
    FoldsGroups node order child (rows.map Prod.fst) fuel ↔
      ¬node.Passes (rows.map Prod.fst) .sumAggregate (-2147483648) := by
  rw [← group_folds_iff typed fits]
  constructor
  · intro folds key
    obtain ⟨started, out, begun, delivers, right⟩ := folds.rows _ .fresh
    obtain ⟨started', out', begun', delivers', comes⟩ :=
      @aggregation_starts node order child rows fuel restarts enough folds.combines _ .fresh
    obtain rfl := Option.some.inj (begun.symm.trans begun')
    obtain rfl := delivers_unique delivers delivers'
    obtain ⟨result, there⟩ := Option.isSome_iff_exists.mp (folds.combines key)
    by_cases empty : node.group (rows.map Prod.fst) key = []
    · rw [empty]
      exact congrArg some (initial_folded typed.aligned)
    · have same := rows_of_perm_iff.mp (comes.symm.trans right) key (listed_key empty)
      rw [← same, AggregationPlanNode.aggregated, there]
      rfl
  · intro right
    have combines : node.Combines (rows.map Prod.fst) := fun key => by rw [right key]; rfl
    refine ⟨combines, fun first front second back => ?_, fun state reached => ?_⟩
    · obtain ⟨types, keys⟩ := typed.keys
      exact finds_group_iff (keys first front) (keys second back)
    · obtain ⟨started, out, begun, delivers, comes⟩ :=
        @aggregation_starts node order child rows fuel restarts enough combines state reached
      refine ⟨started, out, begun, delivers, comes.trans (rows_of_perm_iff.mpr fun key _ => ?_)⟩
      rw [AggregationPlanNode.aggregated, right key]
      rfl

end Executors

/-- The executor does so just when no running sum comes to the number that is NULL. -/
theorem aggregation_is_fold (node : AggregationPlanNode) (order : MapOrder AggregateKey)
    (child : Executor) (rows : List (Row × RID))
    (restarts : ∀ state, child.Reached state → ∃ started, child.init state = some started ∧
      child.Delivers false started rows)
    (typed : node.Typed (rows.map Prod.fst))
    (fits : node.NoOverflow (rows.map Prod.fst)) (fuel : Nat)
    (enough : rows.length < fuel) :
    FoldsGroups node order child (rows.map Prod.fst) fuel ↔
      ¬node.Passes (rows.map Prod.fst) .sumAggregate (-2147483648) :=
  folds_groups_iff restarts typed fits enough

def insertionOrder (Key : Type) : MapOrder Key where
  listing := MapCall.keys
  perm := fun _ => List.Perm.refl _

/-- `SELECT x, COUNT(*), SUM(x) FROM t GROUP BY x`. -/
def countEach : AggregationPlanNode where
  groupBys := [.columnValue .left 0 .integer]
  aggregates := [.constantValue (.integer 1), .columnValue .left 0 .integer]
  aggTypes := [.countStarAggregate, .sumAggregate]

def someRows : List (Row × RID) :=
  [nullableRow none, nullableRow (some 5), nullableRow none].map fun row => (row, row.rid)

theorem some_row {row : Row} (member : row ∈ someRows.map Prod.fst) :
    row = nullableRow none ∨ row = nullableRow (some 5) := by
  simpa [someRows, or_comm, or_assoc] using member

theorem some_typed : countEach.Typed (someRows.map Prod.fst) where
  aligned := rfl
  keys := by
    refine ⟨[.integer], fun row member => ?_⟩
    rcases some_row member with rfl | rfl
    · exact .cons ⟨by decide, rfl, by rintro _ ⟨⟩⟩ .nil
    · exact .cons ⟨by decide, rfl, by rintro _ ⟨⟩; rfl⟩ .nil
  inputs := by
    intro expr expected row member
    simp only [countEach, List.mem_cons, List.not_mem_nil, or_false] at expected
    rcases expected with rfl | rfl <;> rcases some_row member with rfl | rfl <;> rfl
  range := by
    intro expr expected row member number input
    simp only [countEach, List.mem_cons, List.not_mem_nil, or_false] at expected
    rcases expected with rfl | rfl <;> rcases some_row member with rfl | rfl <;> cases input <;>
      simp [InRange]

theorem some_fit {aggType : AggregationType} {number : Int}
    (passes : countEach.Passes (someRows.map Prod.fst) aggType number) : InRange number := by
  refine few_rows_fit (by decide : (1 : Int) ≤ 5) (by decide) ?_ passes
  intro expr expected row member number input
  simp only [countEach, List.mem_cons, List.not_mem_nil, or_false] at expected
  rcases expected with rfl | rfl <;> rcases some_row member with rfl |
    rfl <;> cases input <;> decide

theorem two_groups_counted :
    FoldsGroups countEach (insertionOrder AggregateKey)
      (listedRows [nullableRow none, nullableRow (some 5), nullableRow none])
        (someRows.map Prod.fst) 4 := by
  refine (aggregation_is_fold countEach (insertionOrder AggregateKey)
    (listedRows [nullableRow none, nullableRow (some 5), nullableRow none]) someRows
    (fun _ _ => ⟨_, rfl, listed_delivers _ _⟩) some_typed (fun _ _ passes => ?_) 4 (by decide)).mpr
      fun passes => ?_
  · have range := some_fit passes
    exact ⟨range.1.le, range.2⟩
  · exact absurd (some_fit passes).1 (by decide)

/-- `SELECT SUM(x) FROM t`. -/
def sumAll : AggregationPlanNode where
  groupBys := []
  aggregates := [.columnValue .left 0 .integer]
  aggTypes := [.sumAggregate]

def lowRows : List (Row × RID) :=
  [nullableRow (some (-2147483647)), nullableRow (some (-1)), nullableRow (some 5)].map fun row =>
    (row, row.rid)

theorem low_row {row : Row} (member : row ∈ lowRows.map Prod.fst) :
    row = nullableRow (some (-2147483647)) ∨ row = nullableRow (some (-1)) ∨
      row = nullableRow (some 5) := by
  simpa [lowRows] using member

theorem low_typed : sumAll.Typed (lowRows.map Prod.fst) where
  aligned := rfl
  keys := ⟨[], fun _ _ => .nil⟩
  inputs := by
    intro expr expected row member
    obtain rfl := List.mem_singleton.mp expected
    rcases low_row member with rfl | rfl | rfl <;> rfl
  range := by
    intro expr expected row member number input
    obtain rfl := List.mem_singleton.mp expected
    rcases low_row member with rfl | rfl | rfl <;> cases input <;> simp [InRange]

theorem low_sums_fit : sumAll.NoOverflow (lowRows.map Prod.fst) := by
  rintro aggType number ⟨key, expr, done, left, member, split, folded⟩
  obtain ⟨rfl, rfl⟩ : aggType = .sumAggregate ∧ expr = .columnValue .left 0 .integer := by
    simpa [sumAll] using member
  have whole : done <+: lowRows.map Prod.fst ∨ done = [] := by
    by_cases none : key = []
    · subst none
      exact Or.inl ⟨left, by rw [← split]; rfl⟩
    · have empty : sumAll.group (lowRows.map Prod.fst) key = [] :=
        List.filter_eq_nil_iff.mpr fun _ _ same => none (of_decide_eq_true same).symm
      exact Or.inr (List.append_eq_nil_iff.mp (split.symm.trans empty)).1
  have begins : done ∈ (lowRows.map Prod.fst).inits := by
    rcases whole with front | rfl
    · exact (List.mem_inits _ _).mpr front
    · exact (List.mem_inits _ _).mpr List.nil_prefix
  simp only [lowRows, List.map_cons, List.map_nil, List.inits, List.mem_cons, List.not_mem_nil,
    or_false] at begins
  rcases begins with rfl | rfl | rfl | rfl <;> cases folded <;> decide

/-- The second sum is NULL, and the third row's number is taken for the first. -/
theorem least_sum_restarts :
    ¬∀ (node : AggregationPlanNode) (order : MapOrder AggregateKey) (child : Executor)
      (rows : List (Row × RID)), (∀ state, child.Reached state → ∃ started,
        child.init state = some started ∧ child.Delivers false started rows) →
      node.Typed (rows.map Prod.fst) → node.NoOverflow (rows.map Prod.fst) →
      ∀ fuel, rows.length < fuel → FoldsGroups node order child (rows.map Prod.fst) fuel := by
  intro claim
  have folds := claim sumAll (insertionOrder AggregateKey)
    (listedRows [nullableRow (some (-2147483647)), nullableRow (some (-1)), nullableRow (some 5)])
      lowRows
    (fun _ _ => ⟨_, rfl, listed_delivers _ _⟩) low_typed low_sums_fit 4 (by decide)
  refine (folds_groups_iff (fun _ _ => ⟨_, rfl, listed_delivers _ _⟩) low_typed low_sums_fit
    (by decide)).mp folds ?_
  exact ⟨[], .columnValue .left 0 .integer,
    [nullableRow (some (-2147483647)), nullableRow (some (-1))], [nullableRow (some 5)], by
      decide, rfl, rfl⟩

end BusTub
