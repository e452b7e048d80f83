import BusTub.LexicographicOrder
import BusTub.RelationalJoin

/-!
The order of `ExternalMergeSortExecutor`: the keys that `GenerateSortKey` makes,
`TupleComparator` on them, and the order that the ORDER BY list asks for. The two
differ in where a NULL goes when the list does not say.
-/

namespace BusTub

open BatchSource LexicographicOrder

/-! ### Keys and comparator -/

inductive OrderByType where
  | default
  | asc
  | desc
  deriving DecidableEq

inductive OrderByNullType where
  | default
  | nullsFirst
  | nullsLast
  deriving DecidableEq

structure OrderBy where
  direction : OrderByType
  nullOrder : OrderByNullType
  expr : Expression

abbrev SortKey := List Value

def generateSortKey (orderBys : List OrderBy) (tuple : Tuple) : Option SortKey :=
  orderBys.mapM fun item => item.expr.evaluate tuple

abbrev SortEntry := SortKey × Tuple

/-- The loop of `TupleComparator::operator()`, given where each item has its NULLs. -/
def compareKeys (nullsFirst : OrderBy → Bool) : List OrderBy → SortKey → SortKey → Bool
  | item :: items, a :: left, b :: right =>
      if a.isNull && b.isNull then compareKeys nullsFirst items left right
      else if a.isNull || b.isNull then a.isNull == nullsFirst item
      else if a.compare .equal b = some (some true) then compareKeys nullsFirst items left right
      else if item.direction = .desc then a.compare .greaterThan b = some (some true)
      else a.compare .lessThan b = some (some true)
  | _, _, _ => false

namespace TupleComparator

def nullsFirst (item : OrderBy) : Bool :=
  item.nullOrder = .nullsFirst || (item.nullOrder = .default && item.direction = .desc)

def call (orderBys : List OrderBy) (entryA entryB : SortEntry) : Bool :=
  compareKeys nullsFirst orderBys entryA.1 entryB.1

def less (orderBys : List OrderBy) (left right : Row) : Bool :=
  compareKeys nullsFirst orderBys ((generateSortKey orderBys left.values).getD [])
    ((generateSortKey orderBys right.values).getD [])

end TupleComparator

/-- `NULLS FIRST` and `NULLS LAST` decide; without them NULLs stand first going up
and last going down. -/
def asksNullsFirst (item : OrderBy) : Bool :=
  match item.nullOrder with
  | .nullsFirst => true
  | .nullsLast => false
  | .default => item.direction ≠ .desc

def outOfOrder (orderBys : List OrderBy) (left right : Row) : Bool :=
  compareKeys asksNullsFirst orderBys ((generateSortKey orderBys right.values).getD [])
    ((generateSortKey orderBys left.values).getD [])

/-! ### Values of one type -/

def TypeId.stores : TypeId → Datum → Bool
  | .decimal, .decimal _ | .varchar, .text _ | .vector, .text _ => true
  | .decimal, _ | .varchar, _ | .vector, _ => false
  | _, .number _ => true
  | _, _ => false

/-- Values of a type that has an order, which VECTOR and TIMESTAMP have not. -/
def Sortable (typeId : TypeId) (value : Value) : Prop :=
  typeId.checkComparable typeId = true ∧ value.typeId = typeId ∧ ∀ datum, value.datum = some datum →
    typeId.stores datum = true

section Values
variable {typeId : TypeId} {first second third : Datum} {a b c : Value} {left right : Int}

def orderSame : Datum → Datum → Ordering
  | .number left, .number right => orderIntegers left right
  | .decimal left, .decimal right => orderDecimals left right
  | .text left, .text right => compareStrings left right
  | _, _ => .eq

theorem order_same (ordered : typeId.checkComparable typeId = true)
    (left : typeId.stores first = true) (right : typeId.stores second = true) :
    orderData typeId first typeId second = some (some (orderSame first second)) := by
  cases typeId <;> cases first <;> cases second <;>
    simp_all [TypeId.stores, TypeId.checkComparable, orderData, orderSame, TypeId.isInteger,
      castToVarchar]

theorem compare_sortable (left : Sortable typeId a) (right : Sortable typeId b)
    (here : a.datum = some first) (there : b.datum = some second) (comparison : ComparisonType) :
    a.compare comparison b = some (some (comparison.admits (some (orderSame first second)))) := by
  obtain ⟨ordered, typed, stores⟩ := left
  obtain ⟨_, typed', stores'⟩ := right
  simp [Value.compare, typed, typed', ordered, here, there,
    order_same ordered (stores first here) (stores' second there)]

theorem bytes_apart (first second : UInt8) :
    first < second ∧ ¬second < first ∧ second ≠ first ∨ first = second ∨ second < first ∧
      ¬first < second ∧ first ≠ second := by
  by_cases same : first = second
  · exact Or.inr (Or.inl same)
  · rcases UInt8.lt_or_lt_of_ne same with less | greater
    · exact Or.inl ⟨less, UInt8.lt_asymm less, Ne.symm same⟩
    · exact Or.inr (Or.inr ⟨greater, UInt8.lt_asymm greater, same⟩)

theorem strings_swap (left right : List UInt8) : compareStrings left right = .gt ↔
    compareStrings right left = .lt := by
  induction left generalizing right with
  | nil => cases right <;> simp [compareStrings]
  | cons first left ih =>
      cases right with
      | nil => simp [compareStrings]
      | cons second right =>
          rcases bytes_apart first second with ⟨less, notGreater, apart⟩ | equal |
            ⟨greater, notLess, apart⟩
          · simp [compareStrings, less, notGreater, apart]
          · subst equal
            simpa [compareStrings] using ih right
          · simp [compareStrings, greater, notLess, apart]

theorem strings_trans {left middle right : List UInt8} (front : compareStrings left middle = .lt)
    (back : compareStrings middle right = .lt) : compareStrings left right = .lt := by
  induction left generalizing middle right with
  | nil =>
      cases right with
      | nil => cases middle <;> simp [compareStrings] at back
      | cons _ _ => rfl
  | cons first left ih =>
      cases middle with
      | nil => simp [compareStrings] at front
      | cons second middle =>
          cases right with
          | nil => simp [compareStrings] at back
          | cons third right =>
              simp only [compareStrings] at front back ⊢
              rcases bytes_apart first second with ⟨less, _, _⟩ | rfl | ⟨_, notLess, apart⟩
              · rcases bytes_apart second third with ⟨less', _, _⟩ | rfl | ⟨_, notLess', apart'⟩
                · simp [UInt8.lt_trans less less']
                · simp [less]
                · simp [notLess', apart'] at back
              · simp only [UInt8.lt_irrefl, if_false, if_true] at front
                rcases bytes_apart first third with ⟨less', _, _⟩ | rfl | ⟨_, notLess', apart'⟩
                · simp [less']
                · simp only [UInt8.lt_irrefl, if_false, if_true] at back ⊢
                  exact ih front back
                · simp [notLess', apart'] at back
              · simp [notLess, apart] at front

theorem integers_lt : orderIntegers left right = .lt ↔ left < right := by
  grind [orderIntegers]

theorem integers_gt : orderIntegers left right = .gt ↔ right < left := by
  grind [orderIntegers]

theorem decimals_lt {left right : Rat} : orderDecimals left right = .lt ↔ left < right := by
  unfold orderDecimals
  rcases lt_trichotomy left right with less | rfl | greater
  · simp [less]
  · simp
  · simp [not_lt_of_gt greater, ne_of_gt greater]

theorem decimals_gt {left right : Rat} : orderDecimals left right = .gt ↔ right < left := by
  unfold orderDecimals
  rcases lt_trichotomy left right with less | rfl | greater
  · simp [less, not_lt_of_gt less]
  · simp
  · simp [not_lt_of_gt greater, ne_of_gt greater, greater]

theorem order_same_swap (first second : Datum) : orderSame first second = .gt ↔
    orderSame second first = .lt := by
  cases first with
  | number _ => cases second <;> simp [orderSame, integers_lt, integers_gt]
  | decimal _ => cases second <;> simp [orderSame, decimals_lt, decimals_gt]
  | text _ => cases second <;> simp [orderSame, strings_swap]

theorem order_same_trans (front : orderSame first second = .lt)
    (back : orderSame second third = .lt) :
    orderSame first third = .lt := by
  cases first with
  | number _ =>
      cases second <;> cases third <;> simp_all [orderSame, integers_lt]
      omega
  | decimal _ =>
      cases second <;> cases third <;> simp_all [orderSame, decimals_lt]
      exact lt_trans front back
  | text _ =>
      cases second <;> cases third <;> simp_all [orderSame]
      exact strings_trans front back

theorem order_same_eq (ordered : typeId.checkComparable typeId = true)
    (left : typeId.stores first = true) (right : typeId.stores second = true)
    (equal : orderSame first second = .eq) : first = second :=
  Value.order_same_type (by rw [order_same ordered left right, equal])

end Values

/-! ### One item, and the list -/

/-- What one item says of two values that are not the same. -/
def OrderBy.before (nullsFirst : Bool) (item : OrderBy) (a b : Value) : Bool :=
  if a.isNull && b.isNull then false
  else if a.isNull || b.isNull then a.isNull == nullsFirst
  else if item.direction = .desc then a.compare .greaterThan b = some (some true)
  else a.compare .lessThan b = some (some true)

section Items
variable {typeId : TypeId} {item : OrderBy} {a b : Value} {nullsFirst : OrderBy → Bool}
  {types : List TypeId} {items : List OrderBy} {left right : SortKey}

theorem before_data (one : Sortable typeId a) (two : Sortable typeId b) {first second : Datum}
    (here : a.datum = some first) (there : b.datum = some second) (flag : Bool) :
    item.before flag a b =
      decide ((if item.direction = .desc then orderSame second first else orderSame first second) =
        .lt) := by
  simp only [OrderBy.before, Value.isNull, here, there, Option.isNone_some,
    Bool.and_self, Bool.or_self, Bool.false_eq_true,
    if_false, compare_sortable one two here there, ComparisonType.admits]
  split
  · simp [order_same_swap]
  · simp

theorem before_linear (typeId : TypeId) (item : OrderBy) (flag : Bool) :
    LinearOn (Sortable typeId) (item.before flag) := by
  constructor
  · intro a one
    cases here : a.datum with
    | none => simp [OrderBy.before, Value.isNull, here]
    | some first =>
        have never : orderSame first first ≠ .lt := fun less => by
          have greater := (order_same_swap first first).mpr less
          rw [less] at greater
          cases greater
        rw [before_data one one here here, ite_self]
        exact decide_eq_false never
  · intro a b c one two three front back
    cases here : a.datum with
    | none =>
        cases there : b.datum with
        | none => simp [OrderBy.before, Value.isNull, here, there] at front
        | some second =>
            cases beyond : c.datum with
            | none =>
                simp only [OrderBy.before, Value.isNull, here, there, beyond] at front back
                simp_all
            | some third =>
                simp only [OrderBy.before, Value.isNull, here, there, beyond] at front ⊢
                simp_all
    | some first =>
        cases there : b.datum with
        | none =>
            cases beyond : c.datum with
            | none => simp [OrderBy.before, Value.isNull, there, beyond] at back
            | some third =>
                simp only [OrderBy.before, Value.isNull, here, there, beyond] at front back
                simp_all
        | some second =>
            cases beyond : c.datum with
            | none =>
                simp only [OrderBy.before, Value.isNull, here, there, beyond] at back ⊢
                simp_all
            | some third =>
                rw [before_data one two here there, decide_eq_true_eq] at front
                rw [before_data two three there beyond, decide_eq_true_eq] at back
                rw [before_data one three here beyond, decide_eq_true_eq]
                split at front
                · rename_i descending
                  rw [if_pos descending] at back ⊢
                  exact order_same_trans back front
                · rename_i ascending
                  rw [if_neg ascending] at back ⊢
                  exact order_same_trans front back
  · intro a b one two different
    cases here : a.datum with
    | none =>
        cases there : b.datum with
        | none =>
            obtain ⟨typed, datum⟩ := a
            obtain ⟨typed', datum'⟩ := b
            simp only at here there
            exact absurd (by rw [here, there, show typed = typed' from one.2.1.trans two.2.1.symm])
              different
        | some second => cases flag <;> simp [OrderBy.before, Value.isNull, here, there]
    | some first =>
        cases there : b.datum with
        | none => cases flag <;> simp [OrderBy.before, Value.isNull, here, there]
        | some second =>
            rw [before_data one two here there, before_data two one there here, decide_eq_true_eq,
              decide_eq_true_eq]
            have decided : orderSame first second = .lt ∨ orderSame second first = .lt := by
              cases order : orderSame first second with
              | lt => exact Or.inl rfl
              | gt => exact Or.inr ((order_same_swap first second).mp order)
              | eq =>
                  have data := order_same_eq one.1 (one.2.2 first here) (two.2.2 second there) order
                  obtain ⟨typed, datum⟩ := a
                  obtain ⟨typed', datum'⟩ := b
                  simp only at here there
                  exact absurd
                    (by rw [here, there, data, show typed = typed' from one.2.1.trans two.2.1.symm])
                      different
            split
            · exact decided.symm
            · exact decided

/-- Whether the comparator goes on to the next item: when the values are the same. -/
theorem tie_iff (one : Sortable typeId a) (two : Sortable typeId b) :
    a = b ↔ (a.isNull && b.isNull) = true ∨ (a.isNull || b.isNull) = false ∧ a.compare .equal b =
      some (some true) := by
  constructor
  · rintro rfl
    cases here : a.datum with
    | none => exact Or.inl (by simp [Value.isNull, here])
    | some first =>
        right
        refine ⟨by simp [Value.isNull, here], ?_⟩
        rw [compare_sortable one one here here]
        cases order : orderSame first first with
        | eq => rfl
        | lt =>
            have greater := (order_same_swap first first).mpr order
            rw [order] at greater
            cases greater
        | gt =>
            have less := (order_same_swap first first).mp order
            rw [order] at less
            cases less
  · rintro (both | ⟨_, equal⟩)
    · obtain ⟨typed, datum⟩ := a
      obtain ⟨typed', datum'⟩ := b
      simp only [Value.isNull, Bool.and_eq_true, Option.isNone_iff_eq_none] at both
      rw [both.1, both.2, show typed = typed' from one.2.1.trans two.2.1.symm]
    · exact Value.equal_same_type (one.2.1.trans two.2.1.symm) equal

theorem compare_cons (one : Sortable typeId a) (two : Sortable typeId b) :
    compareKeys nullsFirst (item :: items) (a :: left) (b :: right) =
      if a = b then compareKeys nullsFirst items left right
      else item.before (nullsFirst item) a b := by
  have tie := tie_iff one two
  simp only [compareKeys, OrderBy.before]
  by_cases both : (a.isNull && b.isNull) = true
  · rw [if_pos both, if_pos (tie.mpr (Or.inl both))]
  · rw [if_neg both]
    by_cases either : (a.isNull || b.isNull) = true
    · have different : a ≠ b := fun same => by
        rcases tie.mp same with nulls | ⟨data, _⟩
        · exact both nulls
        · rw [either] at data
          cases data
      rw [if_pos either, if_neg different, if_neg both, if_pos either]
    · have data : (a.isNull || b.isNull) = false := by simpa using either
      by_cases equal : a.compare .equal b = some (some true)
      · rw [if_neg either, if_pos equal, if_pos (tie.mpr (Or.inr ⟨data, equal⟩))]
      · have different : a ≠ b := fun same => by
          rcases tie.mp same with nulls | ⟨_, same'⟩
          · exact both nulls
          · exact equal same'
        rw [if_neg either, if_neg equal, if_neg different, if_neg both, if_neg either]

theorem compare_lex (length : items.length = types.length) (front : Cells (types.map Sortable) left)
    (back : Cells (types.map Sortable) right) :
    compareKeys nullsFirst items left right = lexLess
      (items.map fun item => item.before (nullsFirst item)) left right := by
  induction items generalizing types left right with
  | nil => rfl
  | cons item items ih =>
      cases types with
      | nil => cases length
      | cons typeId types =>
          cases front with
          | cons one front =>
              cases back with
              | cons two back =>
                  rw [compare_cons one two, List.map_cons, lexLess]
                  rw [ih (by simpa using length) front back]

theorem items_linear (length : items.length = types.length) :
    List.Forall₂ LinearOn (types.map Sortable) (items.map fun item =>
      item.before (nullsFirst item)) := by
  induction items generalizing types with
  | nil =>
      cases types with
      | nil => exact .nil
      | cons _ _ => cases length
  | cons item items ih =>
      cases types with
      | nil => cases length
      | cons typeId types => exact .cons (before_linear typeId item _) (ih (by simpa using length))

/-- `TupleComparator` is a strict weak order on the entries whose keys have the types of the
list. -/
theorem tuple_comparator_strict_weak (typed : List (OrderBy × TypeId)) :
    StrictWeakOn (fun entry : SortEntry => Cells (typed.map fun item => Sortable item.2) entry.1)
      (TupleComparator.call (typed.map Prod.fst)) := by
  have length : (typed.map Prod.fst).length = (typed.map Prod.snd).length := by simp
  have sets : (typed.map fun item => Sortable item.2) = (typed.map Prod.snd).map Sortable :=
    by simp [Function.comp_def]
  have linear := lex_linear (@items_linear TupleComparator.nullsFirst _ _ length)
  have weak : WeakOn (Cells ((typed.map Prod.snd).map Sortable))
    (compareKeys TupleComparator.nullsFirst (typed.map Prod.fst)) := by
    refine weak_congr (linear_weak linear) ?_
    intro left right front back
    exact compare_lex length front back
  rw [sets]
  exact weak_strict
    (@weak_of_key _ _ _ _ (fun entry => Cells _ entry.1) Prod.fst weak fun _ cells => cells)

/-- The order of the two keys hangs on where an item without NULLS FIRST and NULLS
LAST has its NULLs: they are the same up to it, and there one is NULL and the other is not. -/
def HangsOnDefault (items : List OrderBy) (left right : SortKey) : Prop :=
  ∃ front item back, items = front ++ item :: back ∧ item.nullOrder = .default ∧
    left.take front.length = right.take front.length ∧
      ∃ a b, left[front.length]? = some a ∧ right[front.length]? = some b ∧ a.isNull ≠ b.isNull

theorem hangs_cons : HangsOnDefault (item :: items) (a :: left) (b :: right) ↔
    item.nullOrder = .default ∧ a.isNull ≠ b.isNull ∨ a = b ∧ HangsOnDefault items left right := by
  constructor
  · rintro ⟨front, other, back, split, unsaid, same, x, y, here, there, apart⟩
    cases front with
    | nil =>
        simp only [List.nil_append, List.cons.injEq] at split
        simp only [List.length_nil, List.getElem?_cons_zero, Option.some.injEq] at here there
        obtain ⟨rfl, rfl⟩ := split
        subst here there
        exact Or.inl ⟨unsaid, apart⟩
    | cons first front =>
        simp only [List.cons_append, List.cons.injEq] at split
        simp only [List.length_cons, List.take_succ_cons, List.cons.injEq, List.getElem?_cons_succ]
          at same here there
        exact Or.inr ⟨same.1, front, other, back, split.2, unsaid, same.2, x, y, here, there, apart⟩
  · rintro (⟨unsaid, apart⟩ |
      ⟨rfl, front, other, back, rfl, unsaid, same, x, y, here, there, apart⟩)
    · exact ⟨[], item, items, rfl, unsaid, rfl, a, b, rfl, rfl, apart⟩
    · exact ⟨item :: front, other, back, rfl, unsaid,
          by simp [same], x, y, by simpa using here, by simpa using there, apart⟩

/-- The two orders put the NULLs of an item at opposite ends just where the list
does not say where they go. -/
theorem nulls_first_opposite (item : OrderBy) :
    TupleComparator.nullsFirst item = if item.nullOrder = .default then !asksNullsFirst item
      else asksNullsFirst item := by
  obtain ⟨direction, nullOrder, expr⟩ := item
  cases direction <;> cases nullOrder <;> rfl

theorem before_apart (apart : a.isNull ≠ b.isNull) (flag : Bool) :
    item.before flag a b = (a.isNull == flag) := by
  cases left : a.isNull <;> cases right : b.isNull <;> simp_all [OrderBy.before]

theorem before_alike (alike : a.isNull = b.isNull) (flag other : Bool) :
    item.before flag a b = item.before other a b := by
  cases left : a.isNull <;> simp_all [OrderBy.before]

theorem orders_compared (length : items.length = types.length)
    (front : Cells (types.map Sortable) left) (back : Cells (types.map Sortable) right) :
    (HangsOnDefault items left right →
        compareKeys TupleComparator.nullsFirst items left right =
          !compareKeys asksNullsFirst items left right) ∧
      (¬HangsOnDefault items left right →
        compareKeys TupleComparator.nullsFirst items left right =
          compareKeys asksNullsFirst items left right) := by
  induction items generalizing types left right with
  | nil =>
      refine ⟨?_, fun _ => rfl⟩
      rintro ⟨front, item, back, split, _⟩
      exact absurd split (by simp)
  | cons item items ih =>
      cases types with
      | nil => cases length
      | cons typeId types =>
          cases front with
          | @cons _ a _ _ one front =>
              cases back with
              | @cons _ b _ _ two back =>
                  have later := ih (by simpa using length) front back
                  rw [hangs_cons, compare_cons one two, compare_cons one two, nulls_first_opposite]
                  by_cases same : a = b
                  · subst same
                    simpa using later
                  · rw [if_neg same, if_neg same]
                    by_cases apart : a.isNull = b.isNull
                    · rw [before_alike apart _ (asksNullsFirst item)]
                      simp [apart, same]
                    · rw [before_apart apart, before_apart apart]
                      by_cases unsaid : item.nullOrder = .default
                      · simp only [unsaid, if_true, ne_eq, apart, not_false_eq_true,
                          and_self, true_or, not_true_eq_false,
                          false_implies, and_true, forall_const]
                        cases a.isNull <;> cases asksNullsFirst item <;> rfl
                      · simp [unsaid, same]

end Items

/-! ### The executor -/

/-- The sort keys of the rows are there, and each item has values of one type. -/
def Keyed (orderBys : List OrderBy) (rows : List Row) : Prop :=
  ∃ types : List TypeId, orderBys.length = types.length ∧ ∀ row ∈ rows, ∃ key,
    generateSortKey orderBys row.values = some key ∧ Cells (types.map Sortable) key

/-- No two rows are in an order that hangs on a default. -/
def Settled (orderBys : List OrderBy) (rows : List Row) : Prop :=
  ∀ left ∈ rows, ∀ right ∈ rows, ¬HangsOnDefault orderBys
    ((generateSortKey orderBys left.values).getD [])
    ((generateSortKey orderBys right.values).getD [])

section Sorting
variable {orderBys : List OrderBy} {rows out : List Row} {left right : SortKey}

theorem keyed_weak (keyed : Keyed orderBys rows) (nullsFirst : OrderBy → Bool) :
    WeakOn (· ∈ rows) fun left right =>
      compareKeys nullsFirst orderBys ((generateSortKey orderBys left.values).getD [])
      ((generateSortKey orderBys right.values).getD []) := by
  obtain ⟨types, length, keys⟩ := keyed
  have cells (row : Row) (member : row ∈ rows) :
      Cells (types.map Sortable) ((generateSortKey orderBys row.values).getD []) := by
    obtain ⟨key, made, inside⟩ := keys row member
    rwa [made]
  have weak := linear_weak (lex_linear (@items_linear nullsFirst types orderBys length))
  apply weak_of_key _ cells
  apply weak_congr weak
  intro left right front back
  exact compare_lex length front back

theorem sorted_code (keyed : Keyed orderBys rows) (std : StdSort Row) :
    (std.sort (TupleComparator.less orderBys) rows).Perm rows ∧
      (std.sort (TupleComparator.less orderBys) rows).Pairwise fun a b =>
        TupleComparator.less orderBys b a = false :=
  have weak := keyed_weak keyed TupleComparator.nullsFirst
  ⟨std.perm _ rows weak, std.sorted _ rows weak⟩

theorem less_compared (keyed : Keyed orderBys rows) {left right : Row} (front : left ∈ rows)
    (back : right ∈ rows) :
    (HangsOnDefault orderBys ((generateSortKey orderBys left.values).getD [])
        ((generateSortKey orderBys right.values).getD []) →
        TupleComparator.less orderBys left right = !outOfOrder orderBys right left) ∧
      (¬HangsOnDefault orderBys ((generateSortKey orderBys left.values).getD [])
        ((generateSortKey orderBys right.values).getD []) →
        TupleComparator.less orderBys left right = outOfOrder orderBys right left) := by
  obtain ⟨types, length, keys⟩ := keyed
  obtain ⟨key, made, inside⟩ := keys left front
  obtain ⟨key', made', inside'⟩ := keys right back
  simp only [TupleComparator.less, outOfOrder, made, made', Option.getD_some]
  exact orders_compared length inside inside'

theorem hangs_symm (hangs : HangsOnDefault orderBys left right) :
    HangsOnDefault orderBys right left := by
  obtain ⟨front, item, back, split, unsaid, same, a, b, here, there, apart⟩ := hangs
  exact ⟨front, item, back, split, unsaid, same.symm, b, a, there, here, apart.symm⟩

theorem hangs_apart (hangs : HangsOnDefault orderBys left right) :
    left ≠ right := by
  obtain ⟨front, item, back, split, unsaid, same, a, b, here, there, apart⟩ := hangs
  rintro rfl
  obtain rfl : a = b := Option.some.inj (here.symm.trans there)
  exact apart rfl

/-- Whatever the sorting routine does with rows that compare equal. -/
theorem sorted_in_order_iff (keyed : Keyed orderBys rows) (perm : out.Perm rows)
    (sorted : out.Pairwise fun a b => TupleComparator.less orderBys b a = false) :
    (out.IsChain fun a b => outOfOrder orderBys a b = false) ↔ Settled orderBys rows := by
  constructor
  · intro chain left front right back hangs
    have keyedOut : Keyed orderBys out := by
      obtain ⟨types, length, keys⟩ := keyed
      exact ⟨types, length, fun row member => keys row (perm.mem_iff.mp member)⟩
    have ordered : out.Pairwise fun a b => outOfOrder orderBys a b = false :=
      pairwise_of_chain (keyed_weak keyedOut asksNullsFirst) (fun _ member => member) chain
    -- of two rows in such an order one stands behind the other, which both orders have to allow
    have different : left ≠ right := fun same => hangs_apart hangs (by rw [same])
    rcases pairwise_either (sorted.and ordered) (perm.mem_iff.mpr front) (perm.mem_iff.mpr back)
      different with
      ⟨less, placed⟩ | ⟨less, placed⟩
    · rw [(less_compared keyed back front).1 (hangs_symm hangs), placed] at less
      cases less
    · rw [(less_compared keyed front back).1 hangs, placed] at less
      cases less
  · intro settled
    apply List.Pairwise.isChain
    apply sorted.imp_of_mem
    intro a b first second less
    have front := perm.mem_iff.mp first
    have back := perm.mem_iff.mp second
    rwa [(less_compared keyed back front).2 (settled b back a front)] at less

theorem sort_outputs (orderBys : List OrderBy) (std : StdSort Row) {child : Executor}
    {brought : List (Row × RID)} (same : brought.map Prod.fst = rows)
    (brings : ∃ started, child.init child.fresh = some started ∧
      child.Delivers false started brought) {fuel : Nat}
    (enough : brought.length < fuel) :
    Outputs (sortExecutor fuel std.sort (TupleComparator.less orderBys) child)
        ((std.sort (TupleComparator.less orderBys) rows).map fun row => (row, row.rid)) ∧
      ∀ out : List Row, Outputs (sortExecutor fuel std.sort (TupleComparator.less orderBys) child)
        (out.map fun row => (row, row.rid)) →
          out = std.sort (TupleComparator.less orderBys) rows := by
  obtain ⟨started, begun, delivers⟩ := brings
  obtain ⟨final, drained⟩ := drain_delivers delivers (by decide : 0 < BUSTUB_BATCH_SIZE) enough
  rw [same] at drained
  have outputs : Outputs (sortExecutor fuel std.sort (TupleComparator.less orderBys) child)
    ((std.sort (TupleComparator.less orderBys) rows).map fun row => (row, row.rid)) := by
    refine ⟨
      { child := final, entries := std.sort (TupleComparator.less orderBys) rows, cursor := 0 },
      ?_, ?_⟩
    · simp [sortExecutor, begun, drained]
    · exact sort_delivers _
  refine ⟨outputs, fun out others => ?_⟩
  exact List.map_injective_iff.mpr (fun _ _ equal => congrArg Prod.fst equal)
    (outputs_unique others outputs)

end Sorting

/-- The executor hands out a permutation of its input, in the order of its own
comparator. It is in the order of the ORDER BY list if and only if no two rows
hang on a default. -/
theorem sort_in_order_iff (orderBys : List OrderBy) (std : StdSort Row) (child : Executor)
    (rows : List (Row × RID))
    (brings : ∃ started, child.init child.fresh = some started ∧ child.Delivers false started rows)
    (keyed : Keyed orderBys (rows.map Prod.fst)) (fuel : Nat) (enough : rows.length < fuel) :
    (∃ out : List Row, Outputs (sortExecutor fuel std.sort (TupleComparator.less orderBys) child)
        (out.map fun row => (row, row.rid)) ∧ out.Perm (rows.map Prod.fst) ∧
          out.IsChain fun a b => outOfOrder orderBys a b = false) ↔
          Settled orderBys (rows.map Prod.fst) := by
  obtain ⟨perm, sorted⟩ := sorted_code keyed std
  obtain ⟨outputs, only⟩ := sort_outputs orderBys std rfl brings enough
  rw [← sorted_in_order_iff keyed perm sorted]
  constructor
  · rintro ⟨out, others, _, chain⟩
    rwa [only out others] at chain
  · intro chain
    exact ⟨_, outputs, perm, chain⟩

def byFirst : List OrderBy := [⟨.default, .default, .columnValue .left 0 .integer⟩]

theorem two_numbers_in_order : ∃ out : List Row,
    Outputs (sortExecutor 3 (mergeSorting Row).sort (TupleComparator.less byFirst)
      (listedRows [nullableRow (some 2), nullableRow (some 1)]))
      (out.map fun row => (row, row.rid)) ∧
    out.Perm [nullableRow (some 2), nullableRow (some 1)] ∧
    out.IsChain fun a b => outOfOrder byFirst a b = false := by
  refine (sort_in_order_iff byFirst (mergeSorting Row)
    (listedRows [nullableRow (some 2), nullableRow (some 1)])
    ([nullableRow (some 2), nullableRow (some 1)].map fun row => (row, row.rid))
    ⟨_, rfl, listed_delivers _ _⟩ ?_ 3 (by decide)).mpr ?_
  · refine ⟨[.integer], rfl, fun row member => ?_⟩
    simp only [List.map_cons, List.map_nil, List.mem_cons, List.not_mem_nil, or_false] at member
    rcases member with rfl | rfl
    · exact ⟨_, rfl, .cons ⟨by decide, rfl, by rintro _ ⟨⟩; rfl⟩ .nil⟩
    · exact ⟨_, rfl, .cons ⟨by decide, rfl, by rintro _ ⟨⟩; rfl⟩ .nil⟩
  · -- neither row has a NULL
    rintro left front right back ⟨_ | ⟨_, _⟩, item, rest, split, _, _, a, b, here, there, apart⟩
    · simp only [List.map_cons, List.map_nil, List.mem_cons, List.not_mem_nil, or_false]
        at front back
      rcases front with rfl | rfl <;> rcases back with rfl | rfl <;>
        cases here <;> cases there <;> exact apart rfl
    · simp [byFirst] at split

/-- `ORDER BY x` of 1 and NULL puts the NULL last. -/
theorem null_sorted_last :
    ¬∀ (orderBys : List OrderBy) (std : StdSort Row) (child : Executor) (rows : List (Row × RID)),
      (∃ started, child.init child.fresh = some started ∧ child.Delivers false started rows) →
      Keyed orderBys (rows.map Prod.fst) → ∀ fuel, rows.length < fuel →
        ∃ out : List Row, Outputs (sortExecutor fuel std.sort (TupleComparator.less orderBys) child)
          (out.map fun row => (row, row.rid)) ∧ out.Perm (rows.map Prod.fst) ∧
            out.IsChain fun a b => outOfOrder orderBys a b = false := by
  intro claim
  have keyed : Keyed byFirst (([nullableRow (some 1), nullableRow none].map fun row => (row,
    row.rid)).map Prod.fst) := by
    refine ⟨[.integer], rfl, fun row member => ?_⟩
    simp only [List.map_cons, List.map_nil, List.mem_cons, List.not_mem_nil, or_false] at member
    rcases member with rfl | rfl
    · exact ⟨_, rfl, .cons ⟨by decide, rfl, by rintro _ ⟨⟩; rfl⟩ .nil⟩
    · exact ⟨_, rfl, .cons ⟨by decide, rfl, by rintro _ ⟨⟩⟩ .nil⟩
  have brings : ∃ started, (listedRows [nullableRow (some 1), nullableRow none]).init [] =
      some started ∧ (listedRows [nullableRow (some 1), nullableRow none]).Delivers false started
        ([nullableRow (some 1), nullableRow none].map fun row => (row, row.rid)) :=
          ⟨_, rfl, listed_delivers _ _⟩
  obtain ⟨out, outputs, _, chain⟩ := claim byFirst (mergeSorting Row) _ _ brings keyed 3 (by decide)
  obtain ⟨perm, sorted⟩ := sorted_code keyed (mergeSorting Row)
  have only := (sort_outputs byFirst (mergeSorting Row) rfl brings (by decide : 2 < 3)).2
  rw [only out outputs] at chain
  have settled := (sorted_in_order_iff keyed perm sorted).mp chain
  apply settled (nullableRow (some 1)) (by simp) (nullableRow none) (by simp)
  exact ⟨[], _, [], rfl, rfl, rfl, _, _, rfl, rfl, by decide⟩

end BusTub
