import BusTub.OrderedIndexScan
import BusTub.IntegerArithmetic
import BusTub.TupleEncoding

/-!
`GenericKey` and `GenericComparator` of `storage/index/generic_key.h`, for the key
schemas that `CREATE INDEX` lets through: the bytes of a tuple of one or two
INTEGER columns are the key, and the comparator reads its columns back. A
comparison with a NULL is never true, so a NULL ties with everything.
-/

namespace BusTub.GenericKeys

open ByteRegions

/-! ### The code -/

def TWO_INTEGER_SIZE : Nat := 8

/-- The key schema of `HandleIndexStatement`, which throws for a column that is
not an INTEGER and for another number of columns than one or two. -/
def indexKeySchema (schema : TupleEncoding.Schema) (colIds : List Nat) :
    Option TupleEncoding.Schema :=
  if colIds.all fun idx => schema[idx]? = some (.fixed .integer) then
    if colIds.length = 0 ∨ 2 < colIds.length then none else TupleEncoding.copySchema schema colIds
  else none

def setFromKey (tuple : Block) : Option Block := write (List.replicate TWO_INTEGER_SIZE 0) 0 tuple

def toValue (keySchema : TupleEncoding.Schema) (data : Block) (columnIdx : Nat) :
    Option TupleEncoding.Value :=
  TupleEncoding.getValue keySchema data columnIdx

/-- An INTEGER as the comparisons have it; no key column has another type. -/
def integerValue : TupleEncoding.Value → Option Value
  | .fixed .integer bits => some (MachineInt.int32.value bits.toInt)
  | _ => none

def compareColumns (keySchema : TupleEncoding.Schema) (lhs rhs : Block) : List Nat → Option Int
  | [] => some 0
  | i :: rest => do
      let lhsValue ← (toValue keySchema lhs i).bind integerValue
      let rhsValue ← (toValue keySchema rhs i).bind integerValue
      if lhsValue.compare .lessThan rhsValue = some (some true) then some (-1)
      else if lhsValue.compare .greaterThan rhsValue = some (some true) then some 1
      else compareColumns keySchema lhs rhs rest

def genericComparator (keySchema : TupleEncoding.Schema) (lhs rhs : Block) : Option Int :=
  compareColumns keySchema lhs rhs (List.range keySchema.length)

def keyOf (keySchema : TupleEncoding.Schema) (values : List TupleEncoding.Value) :
    Option Block := do
  setFromKey (← TupleEncoding.encode keySchema values)

def compareTuples (keySchema : TupleEncoding.Schema) (left right : List TupleEncoding.Value) :
    Option Int := do
  genericComparator keySchema (← keyOf keySchema left) (← keyOf keySchema right)

/-! ### What is asked of it -/

def cell : TupleEncoding.Value → Option Int
  | .fixed .integer bits => if bits.toInt = -(2 ^ 31 : Nat) then none else some bits.toInt
  | _ => none

def cells (values : List TupleEncoding.Value) : List (Option Int) := values.map cell

/-- The comparator orders the keys of these tuples totally, and two of them are
equal for it when their columns are, a NULL only to a NULL. -/
structure TotalPreorder (keySchema : TupleEncoding.Schema)
    (keys : List TupleEncoding.Value → Prop) : Prop where
  answers : ∀ a b, keys a → keys b → ∃ order, compareTuples keySchema a b = some order
  antisymmetric : ∀ a b order, keys a → keys b → compareTuples keySchema a b = some order →
    compareTuples keySchema b a = some (-order)
  transitive : ∀ a b c first second third, keys a → keys b → keys c →
    compareTuples keySchema a b = some first → compareTuples keySchema b c = some second →
      compareTuples keySchema a c = some third →
    first ≤ 0 → second ≤ 0 → third ≤ 0
  equal : ∀ a b, keys a → keys b → (compareTuples keySchema a b = some 0 ↔ cells a = cells b)

/-- The middle key has a NULL in front and stands, by the second column, between two
others that the first column puts the other way round. -/
def Bridges : List (Option Int) → List (Option Int) → List (Option Int) → Prop
  | [some x, some p], [none, some q], [some z, some r] => x < z ∧ r < q ∧ q < p
  | _, _, _ => False

/-- Keys that differ do so in a column where neither has a NULL, and no key with a
NULL bridges two others. -/
structure NullsHarmless (keys : List TupleEncoding.Value → Prop) : Prop where
  differ : ∀ a b, keys a → keys b → cells a ≠ cells b →
    ∃ (i : Nat) (x y : Int), (cells a)[i]? = some (some x) ∧ (cells b)[i]? = some (some y) ∧ x ≠ y
  noBridge : ∀ a b c, keys a → keys b → keys c → ¬ Bridges (cells a) (cells b) (cells c)

section Bytes
variable {keySchema : TupleEncoding.Schema} {schema : TupleEncoding.Schema} {colIds : List Nat}
  {values : List TupleEncoding.Value}

theorem accepted_schema (accepted : indexKeySchema schema colIds = some keySchema) :
    keySchema = [.fixed .integer] ∨ keySchema = [.fixed .integer, .fixed .integer] := by
  unfold indexKeySchema at accepted
  simp only [Option.ite_none_right_eq_some, Option.ite_none_left_eq_some, List.all_eq_true,
    decide_eq_true_eq] at accepted
  obtain ⟨integers, size, copied⟩ := accepted
  cases colIds with
  | nil => simp at size
  | cons first rest =>
      have one := integers first List.mem_cons_self
      cases rest with
      | nil =>
          left
          simpa [TupleEncoding.copySchema, one] using copied.symm
      | cons second rest =>
          have two := integers second (List.mem_cons_of_mem _ List.mem_cons_self)
          obtain rfl : rest = [] :=
            List.eq_nil_of_length_eq_zero (by simp only [List.length_cons] at size; omega)
          right
          simpa [TupleEncoding.copySchema, one, two] using copied.symm

theorem integer_tuple :
    (values.map TupleEncoding.Value.columnType = [.fixed .integer] →
      ∃ bits, values = [.fixed .integer bits]) ∧
    (values.map TupleEncoding.Value.columnType = [.fixed .integer, .fixed .integer] →
      ∃ bits bits', values = [.fixed .integer bits, .fixed .integer bits']) := by
  have integer {value : TupleEncoding.Value} (typed : value.columnType = .fixed .integer) :
      ∃ bits, value = .fixed .integer bits := by
    cases value with
    | varchar text => cases typed
    | fixed type bits =>
        cases typed
        exact ⟨bits, rfl⟩
  constructor
  · intro typed
    obtain ⟨value, rfl, first⟩ := List.map_eq_singleton_iff.mp typed
    obtain ⟨bits, rfl⟩ := integer first
    exact ⟨bits, rfl⟩
  · intro typed
    cases values with
    | nil => cases typed
    | cons value rest =>
        rw [List.map_cons, List.cons.injEq] at typed
        obtain ⟨other, rfl, second⟩ := List.map_eq_singleton_iff.mp typed.2
        obtain ⟨bits, rfl⟩ := integer typed.1
        obtain ⟨bits', rfl⟩ := integer second
        exact ⟨bits, bits', rfl⟩

theorem one_column_key (bits : BitVec (8 * TupleEncoding.FixedType.integer.size)) :
    ∃ data, keyOf [.fixed .integer] [.fixed .integer bits] = some data ∧
      toValue [.fixed .integer] data 0 = some (.fixed .integer bits) := by
  refine ⟨toBytes 4 bits.toNat ++ List.replicate 4 0, rfl, ?_⟩
  have back := TupleEncoding.fixed_bits .integer bits
  have reads : toValue [.fixed .integer] (toBytes 4 bits.toNat ++ List.replicate 4 0) 0 =
      some (.fixed .integer (BitVec.ofNat _ (ofBytes (toBytes 4 bits.toNat)))) := rfl
  rw [reads]
  exact congrArg (fun bits => some (TupleEncoding.Value.fixed .integer bits)) back

theorem two_column_key (bits bits' : BitVec (8 * TupleEncoding.FixedType.integer.size)) :
    ∃ data, keyOf [.fixed .integer, .fixed .integer] [.fixed .integer bits, .fixed .integer bits'] =
      some data ∧ toValue [.fixed .integer, .fixed .integer] data 0 = some (.fixed .integer bits) ∧
      toValue [.fixed .integer, .fixed .integer] data 1 = some (.fixed .integer bits') := by
  refine ⟨toBytes 4 bits.toNat ++ toBytes 4 bits'.toNat, rfl, ?_, ?_⟩
  · have reads : toValue [.fixed .integer, .fixed .integer]
        (toBytes 4 bits.toNat ++ toBytes 4 bits'.toNat) 0 =
        some (.fixed .integer (BitVec.ofNat _ (ofBytes (toBytes 4 bits.toNat)))) := rfl
    rw [reads]
    exact congrArg (fun bits => some (TupleEncoding.Value.fixed .integer bits))
      (TupleEncoding.fixed_bits .integer bits)
  · have reads : toValue [.fixed .integer, .fixed .integer]
        (toBytes 4 bits.toNat ++ toBytes 4 bits'.toNat) 1 =
        some (.fixed .integer (BitVec.ofNat _ (ofBytes (toBytes 4 bits'.toNat)))) := rfl
    rw [reads]
    exact congrArg (fun bits => some (TupleEncoding.Value.fixed .integer bits))
      (TupleEncoding.fixed_bits .integer bits')

/-! ### The order of the cells -/

/-- The comparison by columns, that with a NULL left out. -/
def compareCells : List (Option Int) → List (Option Int) → Int
  | some x :: left, some y :: right => if x < y then -1 else if y < x then 1
    else compareCells left right
  | _ :: left, _ :: right => compareCells left right
  | _, _ => 0

def decideCell : Option Int → Option Int → Option Int → Option Int
  | some x, some y, rest => if x < y then some (-1) else if y < x then some 1 else rest
  | _, _, rest => rest

theorem compare_cells_cons (x y : Option Int) (left right : List (Option Int)) :
    some (compareCells (x :: left) (y :: right)) =
      decideCell x y (some (compareCells left right)) := by
  cases x with
  | none => rfl
  | some x =>
      cases y with
      | none => rfl
      | some y =>
          simp only [compareCells, decideCell]
          split
          · rfl
          · split <;> rfl

def ofCell (number : Option Int) : Value := ⟨.integer, number.map .number⟩

theorem integer_value_cell (bits : BitVec (8 * TupleEncoding.FixedType.integer.size)) :
    integerValue (.fixed .integer bits) = some (ofCell (cell (.fixed .integer bits))) := by
  by_cases least : bits.toInt = -(2 ^ 31 : Nat)
  · have null : cell (.fixed .integer bits) = none := if_pos least
    have value : MachineInt.int32.value bits.toInt = ⟨.integer, none⟩ := by
      rw [least]
      rfl
    rw [null]
    exact congrArg some value
  · have number : cell (.fixed .integer bits) = some bits.toInt := if_neg least
    have value : MachineInt.int32.value bits.toInt = ⟨.integer, some (.number bits.toInt)⟩ :=
      congrArg (fun datum => (⟨.integer, datum⟩ : Value)) (if_neg least)
    rw [number]
    exact congrArg some value

theorem cell_decides (x y rest : Option Int) :
    (if (ofCell x).compare .lessThan (ofCell y) = some (some true) then some (-1)
      else if (ofCell x).compare .greaterThan (ofCell y) = some (some true) then some 1 else rest) =
      decideCell x y rest := by
  cases x with
  | none => rfl
  | some x =>
      cases y with
      | none => rfl
      | some y =>
          have less : (ofCell (some x)).compare .lessThan (ofCell (some y)) = some (some true) ↔
              x < y :=
            number_less x y
          have greater : (ofCell (some x)).compare .greaterThan (ofCell (some y)) =
              some (some true) ↔ y < x :=
            number_greater x y
          simp only [less, greater, decideCell]

theorem compare_tuples (accepted : indexKeySchema schema colIds = some keySchema)
    {left right : List TupleEncoding.Value}
    (typed : left.map TupleEncoding.Value.columnType = keySchema)
    (typed' : right.map TupleEncoding.Value.columnType = keySchema) :
    compareTuples keySchema left right = some (compareCells (cells left) (cells right)) := by
  rcases accepted_schema accepted with rfl | rfl
  · obtain ⟨bits, rfl⟩ := integer_tuple.1 typed
    obtain ⟨bits', rfl⟩ := integer_tuple.1 typed'
    obtain ⟨lhs, keyed, first⟩ := one_column_key bits
    obtain ⟨rhs, keyed', first'⟩ := one_column_key bits'
    have range : List.range [TupleEncoding.ColumnType.fixed .integer].length = [0] := rfl
    simp only [compareTuples, keyed, keyed', Option.bind_eq_bind, Option.bind_some,
      genericComparator, range, compareColumns, first, first', integer_value_cell, cell_decides,
        cells, List.map_cons, compare_cells_cons]
    rfl
  · obtain ⟨bits, other, rfl⟩ := integer_tuple.2 typed
    obtain ⟨bits', other', rfl⟩ := integer_tuple.2 typed'
    obtain ⟨lhs, keyed, first, second⟩ := two_column_key bits other
    obtain ⟨rhs, keyed', first', second'⟩ := two_column_key bits' other'
    have range : List.range [TupleEncoding.ColumnType.fixed .integer, .fixed .integer].length =
      [0, 1] := rfl
    simp only [compareTuples, keyed, keyed', Option.bind_eq_bind, Option.bind_some,
      genericComparator, range, compareColumns, first, first', second, second', integer_value_cell,
        cell_decides, cells, List.map_cons,
      compare_cells_cons]
    rfl

theorem cells_length (accepted : indexKeySchema schema colIds = some keySchema)
    (typed : values.map TupleEncoding.Value.columnType = keySchema) :
    (∃ x, cells values = [x]) ∨ ∃ x p, cells values = [x, p] := by
  rcases accepted_schema accepted with rfl | rfl
  · obtain ⟨bits, rfl⟩ := integer_tuple.1 typed
    exact Or.inl ⟨_, rfl⟩
  · obtain ⟨bits, other, rfl⟩ := integer_tuple.2 typed
    exact Or.inr ⟨_, _, rfl⟩

end Bytes

section Cells
variable {left middle right : List (Option Int)}

theorem compare_cells_swap (left right : List (Option Int)) :
    compareCells right left = -compareCells left right := by
  induction left generalizing right with
  | nil =>
      cases right with
      | nil => rfl
      | cons y right => cases y <;> rfl
  | cons x left ih =>
      cases right with
      | nil => cases x <;> rfl
      | cons y right =>
          cases x with
          | none => cases y <;> exact ih right
          | some x =>
              cases y with
              | none => exact ih right
              | some y =>
                  simp only [compareCells]
                  rcases lt_trichotomy x y with less | rfl | greater
                  · rw [if_pos less, if_neg (not_lt_of_gt less), if_pos less]
                    rfl
                  · simpa using ih right
                  · rw [if_pos greater, if_neg (not_lt_of_gt greater), if_pos greater]

theorem tie_iff_no_column (lengths : left.length = right.length) :
    compareCells left right = 0 ↔
      ¬ ∃ (i : Nat) (x y : Int), left[i]? = some (some x) ∧ right[i]? = some (some y) ∧ x ≠ y := by
  induction left generalizing right with
  | nil =>
      obtain rfl : right = [] := List.eq_nil_of_length_eq_zero lengths.symm
      simp [compareCells]
  | cons x left ih =>
      cases right with
      | nil => cases lengths
      | cons y right =>
          have rest := ih (Nat.succ.inj lengths)
          have front (null : x = none ∨ y = none ∨ x = y) :
              compareCells (x :: left) (y :: right) = compareCells left right := by
            rcases null with rfl | rfl | rfl
            · cases y <;> rfl
            · cases x <;> rfl
            · cases x <;> simp [compareCells]
          by_cases null : x = none ∨ y = none ∨ x = y
          · rw [front null, rest, not_iff_not]
            constructor
            · rintro ⟨i, p, q, here, there, apart⟩
              exact ⟨i + 1, p, q, here, there, apart⟩
            · rintro ⟨i, p, q, here, there, apart⟩
              cases i with
              | zero =>
                  simp only [List.getElem?_cons_zero, Option.some.injEq] at here there
                  subst here there
                  simp [apart] at null
              | succ i => exact ⟨i, p, q, here, there, apart⟩
          · simp only [not_or] at null
            obtain ⟨p, rfl⟩ := Option.ne_none_iff_exists'.mp null.1
            obtain ⟨q, rfl⟩ := Option.ne_none_iff_exists'.mp null.2.1
            have apart : p ≠ q := fun same => null.2.2 (congrArg some same)
            refine iff_of_false ?_ (not_not.mpr ⟨0, p, q, rfl, rfl, apart⟩)
            simp only [compareCells]
            rcases lt_or_gt_of_ne apart with less | greater
            · simp [less]
            · simp [greater, not_lt_of_gt greater]

/-- Three keys of one column of which none ties with another one. -/
theorem one_column_transitive {x y z : Option Int} (tie : compareCells [x] [y] = 0 → x = y)
    (tie' : compareCells [y] [z] = 0 → y = z) (front : compareCells [x] [y] ≤ 0)
    (back : compareCells [y] [z] ≤ 0) :
    compareCells [x] [z] ≤ 0 := by
  cases x <;> cases y <;> cases z <;> simp only [compareCells] at * <;> grind

/-- Three keys of two columns: a cycle goes over a NULL in the first column. -/
theorem two_column_transitive {x y z p q r : Option Int}
    (tie : compareCells [x, p] [y, q] = 0 → x = y ∧ p = q)
    (tie' : compareCells [y, q] [z, r] = 0 → y = z ∧ q = r)
    (tie'' : compareCells [x, p] [z, r] = 0 → x = z ∧ p = r)
    (first : ¬ Bridges [y, q] [x, p] [z, r]) (second : ¬ Bridges [z, r] [y, q] [x, p])
    (third : ¬ Bridges [x, p] [z, r] [y, q]) (front : compareCells [x, p] [y, q] ≤ 0)
    (back : compareCells [y, q] [z, r] ≤ 0) : compareCells [x, p] [z, r] ≤ 0 := by
  cases x <;> cases y <;> cases z <;> cases p <;> cases q <;> cases r <;>
    simp only [compareCells, Bridges] at * <;> grind

theorem bridge_cycle {a b c : List (Option Int)} (bridges : Bridges a b c) :
    compareCells c b ≤ 0 ∧ compareCells b a ≤ 0 ∧ ¬ compareCells c a ≤ 0 := by
  unfold Bridges at bridges
  split at bridges
  · obtain ⟨front, low, high⟩ := bridges
    simp [compareCells, low, high, front, not_lt_of_gt front]
  · exact bridges.elim

end Cells

section KeyOrder
variable {schema keySchema : TupleEncoding.Schema} {colIds : List Nat}
  {keys : List TupleEncoding.Value → Prop}

/-- The comparator is a total preorder on a set of keys exactly when NULLs do no harm in it. -/
theorem total_preorder_iff (accepted : indexKeySchema schema colIds = some keySchema)
    (typed : ∀ values, keys values → values.map TupleEncoding.Value.columnType = keySchema) :
    TotalPreorder keySchema keys ↔ NullsHarmless keys := by
  have compared {a b : List TupleEncoding.Value} (left : keys a) (right : keys b) :
      compareTuples keySchema a b = some (compareCells (cells a) (cells b)) :=
    compare_tuples accepted (typed a left) (typed b right)
  have lengths {a b : List TupleEncoding.Value} (left : keys a) (right : keys b) :
    (cells a).length = (cells b).length := by
    have same := congrArg List.length ((typed a left).trans (typed b right).symm)
    simpa [cells] using same
  constructor
  · intro order
    constructor
    · intro a b left right apart
      by_contra none
      have tie := (tie_iff_no_column (lengths left right)).mpr none
      exact apart ((order.equal a b left right).mp (by rw [compared left right, tie]))
    · intro a b c left middle right bridges
      obtain ⟨low, high, not⟩ := bridge_cycle bridges
      exact not
        (order.transitive c b a _ _ _ right middle left (compared right middle)
        (compared middle left)
        (compared right left) low high)
  · intro harmless
    have tie {a b : List TupleEncoding.Value} (left : keys a) (right : keys b)
      (same : compareCells (cells a) (cells b) = 0) : cells a = cells b := by
      by_contra apart
      exact (tie_iff_no_column (lengths left right)).mp same (harmless.differ a b left right apart)
    constructor
    · exact fun a b left right => ⟨_, compared left right⟩
    · intro a b order left right same
      rw [compared left right] at same
      obtain rfl := Option.some.inj same
      rw [compared right left, compare_cells_swap]
    · intro a b c first second third left middle right same same' same'' front back
      rw [compared left middle] at same
      rw [compared middle right] at same'
      rw [compared left right] at same''
      obtain rfl := Option.some.inj same
      obtain rfl := Option.some.inj same'
      obtain rfl := Option.some.inj same''
      have ties := @tie a b left middle
      have ties' := @tie b c middle right
      have ties'' := @tie a c left right
      have bridge := harmless.noBridge b a c middle left right
      have bridge' := harmless.noBridge c b a right middle left
      have bridge'' := harmless.noBridge a c b left right middle
      have sizes := lengths left middle
      have sizes' := lengths left right
      rcases cells_length accepted (typed a left) with ⟨x, here⟩ | ⟨x, p, here⟩
      · rw [here] at sizes sizes'
        obtain ⟨y, there⟩ := List.length_eq_one_iff.mp sizes.symm
        obtain ⟨z, last⟩ := List.length_eq_one_iff.mp sizes'.symm
        rw [here, there] at front ties
        rw [there, last] at back ties'
        rw [here, last]
        exact one_column_transitive (fun tied => by simpa using ties tied)
          (fun tied => by simpa using ties' tied) front back
      · rw [here] at sizes sizes'
        obtain ⟨y, q, there⟩ := List.length_eq_two.mp sizes.symm
        obtain ⟨z, r, last⟩ := List.length_eq_two.mp sizes'.symm
        rw [here, there] at front ties
        rw [there, last] at back ties'
        rw [here, last] at ties'' ⊢
        rw [here, there, last] at bridge bridge' bridge''
        exact two_column_transitive (fun tied => by simpa using ties tied)
          (fun tied => by simpa using ties' tied)
          (fun tied => by simpa using ties'' tied) bridge bridge' bridge'' front back
    · intro a b left right
      rw [compared left right]
      constructor
      · intro same
        exact tie left right (Option.some.inj same)
      · intro same
        have none : ¬ ∃ (i : Nat) (x y : Int),
            (cells a)[i]? = some (some x) ∧ (cells b)[i]? = some (some y) ∧ x ≠ y := by
          rintro ⟨i, x, y, here, there, apart⟩
          rw [same, there] at here
          exact apart (Option.some.inj (Option.some.inj here)).symm
        rw [(tie_iff_no_column (lengths left right)).mpr none]

def AllKeys (keySchema : TupleEncoding.Schema) (values : List TupleEncoding.Value) : Prop :=
  values.map TupleEncoding.Value.columnType = keySchema

def integer (number : Int) : TupleEncoding.Value := .fixed .integer (BitVec.ofInt 32 number)

def null : TupleEncoding.Value := integer (-(2 ^ 31 : Nat))

theorem all_keys_harm (accepted : indexKeySchema schema colIds = some keySchema) :
    ¬ NullsHarmless (AllKeys keySchema) := by
  intro harmless
  rcases accepted_schema accepted with rfl | rfl
  · have apart : cells [null] ≠ cells [integer 0] := by decide
    obtain ⟨i, x, y, here, _, _⟩ := harmless.differ [null] [integer 0] rfl rfl apart
    have none : cells [null] = [none] := by decide
    rw [none] at here
    cases i with
    | zero => cases here
    | succ i => cases here
  · have apart : cells [null, null] ≠ cells [integer 0, integer 0] := by decide
    obtain ⟨i, x, y, here, _, _⟩ :=
      harmless.differ [null, null] [integer 0, integer 0] rfl rfl apart
    have none : cells [null, null] = [none, none] := by decide
    rw [none] at here
    rcases i with _ | _ | i <;> cases here

/-- On the keys in an index the comparator is a total preorder exactly when NULLs
do no harm among them; on all keys of a schema it never is. -/
theorem key_order_iff (accepted : indexKeySchema schema colIds = some keySchema) :
    (∀ keys : List TupleEncoding.Value → Prop,
      (∀ values, keys values → values.map TupleEncoding.Value.columnType = keySchema) →
      (TotalPreorder keySchema keys ↔ NullsHarmless keys)) ∧
    ¬ TotalPreorder keySchema (AllKeys keySchema) :=
  ⟨fun _ typed => total_preorder_iff accepted typed,
    fun order =>
      all_keys_harm accepted ((total_preorder_iff accepted fun _ typed => typed).mp order)⟩

end KeyOrder

/-! ### NULL, three and five -/

theorem null_three_five :
    indexKeySchema [.fixed .integer] [0] = some [.fixed .integer] ∧
    compareTuples [.fixed .integer] [null] [integer 3] = some 0 ∧
    compareTuples [.fixed .integer] [null] [integer 5] = some 0 ∧
    compareTuples [.fixed .integer] [integer 3] [integer 5] = some (-1) ∧
    ¬ TotalPreorder [.fixed .integer] (AllKeys [.fixed .integer]) := by
  have tie : compareTuples [.fixed .integer] [null] [integer 3] = some 0 := by decide
  refine ⟨by decide, tie, by decide, by decide, fun order => ?_⟩
  have same := (order.equal [null] [integer 3] rfl rfl).mp tie
  revert same
  decide

theorem one_column_decided :
    (∀ keys : List TupleEncoding.Value → Prop,
      (∀ values, keys values → values.map TupleEncoding.Value.columnType = [.fixed .integer]) →
      (TotalPreorder [.fixed .integer] keys ↔ NullsHarmless keys)) ∧
    ¬ TotalPreorder [.fixed .integer] (AllKeys [.fixed .integer]) :=
  @key_order_iff [.varchar, .fixed .integer] [.fixed .integer] [1] (by decide)

end BusTub.GenericKeys
