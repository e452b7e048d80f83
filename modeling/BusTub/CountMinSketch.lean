import BusTub.HashJoinKeys
import BusTub.Listing
import BusTub.TransitionSystem

/-!
`primer/count_min_sketch.cpp`. The hash functions of a sketch are closures over
the object whose constructor made them, so a sketch is modelled with the objects
that are alive. An access outside of a vector, through a dangling `this`, or a
remainder by zero has no answer. Where nothing is moved every counter is the
number of the items that fall on it.
-/

namespace BusTub

open Function (update)
open TransitionSystem (Reachable graph)
open Listing

abbrev ObjectId := Nat

structure HashFunction where
  seed : Nat
  this : ObjectId
  deriving DecidableEq

structure CountMinSketch where
  width : Nat
  depth : Nat
  hashFunctions : List HashFunction
  matrix : List (List Nat)
  deriving DecidableEq

namespace CountMinSketch

abbrev Objects := ObjectId → Option CountMinSketch

inductive Op (Key : Type) where
  | construct (object : ObjectId) (width depth : Nat)
  | moveConstruct (object source : ObjectId)
  | moveAssign (object source : ObjectId)
  | destroy (object : ObjectId)
  | insert (object : ObjectId) (item : Key)
  | merge (object other : ObjectId)
  | count (object : ObjectId) (item : Key)
  | clear (object : ObjectId)

inductive Outcome where
  | done
  | invalidArgument
  | counted (result : Nat)
  deriving DecidableEq

def SEED_BASE : UInt64 := 15445

section Code
variable {Key : Type} (hash : Key → UInt64)

def seededHash (seed : Nat) (item : Key) : Nat :=
  (HashUtil.combineHashes (hash item) (HashUtil.combineHashes (UInt64.ofNat seed) SEED_BASE)).toNat

def callHash (objects : Objects) (item : Key) (function : HashFunction) : Option Nat :=
  (objects function.this).bind fun owner =>
    if owner.width = 0 then none else some (seededHash hash function.seed item % owner.width)

def columnOf (objects : Objects) (sketch : CountMinSketch) (item : Key) (i : Nat) : Option Nat :=
  sketch.hashFunctions[i]?.bind (callHash hash objects item)

def new (this : ObjectId) (width depth : Nat) : CountMinSketch where
  width := width
  depth := depth
  hashFunctions := (List.range depth).map fun i => { seed := i, this := this }
  matrix := List.replicate depth (List.replicate width 0)

def movedFrom (sketch : CountMinSketch) : CountMinSketch :=
  { sketch with hashFunctions := [], matrix := [] }

def insertRow (columns : Nat → Option Nat) (sketch : CountMinSketch) (i : Nat) :
    Option (List Nat) := do
  let idx ← columns i
  let row ← sketch.matrix[i]?
  let count ← row[idx]?
  return row.set idx ((count + 1) % 2 ^ 32)

def insert (columns : Nat → Option Nat) (sketch : CountMinSketch) : Option CountMinSketch :=
  ((List.range sketch.depth).mapM (sketch.insertRow columns)).map fun matrix =>
    { sketch with matrix := matrix }

def sameDimensions (sketch other : CountMinSketch) : Bool :=
  sketch.width = other.width && sketch.depth = other.depth

def mergeRow (sketch other : CountMinSketch) (i : Nat) : Option (List Nat) := do
  let row ← sketch.matrix[i]?
  let otherRow ← other.matrix[i]?
  (List.range sketch.width).mapM fun j => do
    return ((← row[j]?) + (← otherRow[j]?)) % 2 ^ 32

def merge (sketch other : CountMinSketch) : Option CountMinSketch :=
  ((List.range sketch.depth).mapM (sketch.mergeRow other)).map fun matrix =>
    { sketch with matrix := matrix }

def countRow (columns : Nat → Option Nat) (sketch : CountMinSketch) (result i : Nat) :
    Option Nat := do
  let idx ← columns i
  let row ← sketch.matrix[i]?
  return min result (← row[idx]?)

def count (columns : Nat → Option Nat) (sketch : CountMinSketch) : Option Nat :=
  (List.range sketch.depth).foldlM (sketch.countRow columns) (2 ^ 32 - 1)

def clear (sketch : CountMinSketch) : Option CountMinSketch :=
  ((List.range sketch.depth).mapM fun i => sketch.matrix[i]?.map fun row =>
    List.replicate row.length 0).map
    fun matrix => { sketch with matrix := matrix }

def moved (objects : Objects) (object source : ObjectId) (sketch : CountMinSketch) : Objects :=
  update (update objects source (some sketch.movedFrom)) object (some sketch)

def step (objects : Objects) : Op Key → Option (Outcome × Objects)
  | .construct object width depth =>
      if (objects object).isSome then none
      else if width = 0 ∨ depth = 0 then some (.invalidArgument, objects)
      else some (.done, update objects object (some (new object width depth)))
  | .moveConstruct object source =>
      if (objects object).isSome then none
      else (objects source).map fun sketch => (.done, moved objects object source sketch)
  | .moveAssign object source =>
      (objects object).bind fun _ => (objects source).map fun sketch =>
        (.done, if object = source then objects else moved objects object source sketch)
  | .destroy object => (objects object).map fun _ => (.done, update objects object none)
  | .insert object item => do
      let sketch ← objects object
      let after ← sketch.insert (sketch.columnOf hash objects item)
      return (.done, update objects object (some after))
  | .merge object other => do
      let sketch ← objects object
      let other ← objects other
      if !sketch.sameDimensions other then return (.invalidArgument, objects)
      let after ← sketch.merge other
      return (.done, update objects object (some after))
  | .count object item => do
      let sketch ← objects object
      return (.counted (← sketch.count (sketch.columnOf hash objects item)), objects)
  | .clear object => do
      let sketch ← objects object
      return (.done, update objects object (some (← sketch.clear)))

end Code

/-! ### Grids of counters -/

def grid (width depth : Nat) (cell : Nat → Nat → Nat) : List (List Nat) :=
  (List.range depth).map fun i => (List.range width).map (cell i)

section Grids
variable {width depth : Nat} {cell other : Nat → Nat → Nat} {columns : Nat → Option Nat}
  {column : Nat → Nat} {sketch : CountMinSketch}

theorem grid_row {i : Nat} (inside : i < depth) :
    (grid width depth cell)[i]? = some ((List.range width).map (cell i)) := by
  simp [grid, inside]

theorem row_cell {i j : Nat} (inside : j < width) :
    ((List.range width).map (cell i))[j]? = some (cell i j) := by
  simp [inside]

theorem row_set {i j value : Nat} :
    ((List.range width).map (cell i)).set j value = (List.range width).map fun k =>
      if k = j then value else cell i k := by
  refine List.ext_getElem (by simp) fun k left right => ?_
  rw [List.getElem_set]
  by_cases same : j = k
  · simp [same]
  · simp [same, Ne.symm same]

theorem grid_congr (same : ∀ i < depth, ∀ j < width, cell i j = other i j) :
    grid width depth cell = grid width depth other := by
  refine List.map_congr_left fun i row => List.map_congr_left fun j place => ?_
  exact same i (List.mem_range.mp row) j (List.mem_range.mp place)

theorem new_grid (this : ObjectId) :
    (new this width depth).matrix = grid width depth fun _ _ => 0 := by
  refine List.ext_getElem (by simp [new, grid]) fun i left right => ?_
  refine List.ext_getElem (by simp [new, grid]) fun j left right => ?_
  simp [new, grid]

theorem insert_grid (matrix : sketch.matrix = grid sketch.width sketch.depth cell)
    (calls : ∀ i < sketch.depth, columns i = some (column i))
    (inside : ∀ i < sketch.depth, column i < sketch.width) :
    sketch.insert columns = some { sketch with
      matrix := grid sketch.width sketch.depth fun i j =>
        if j = column i then (cell i j + 1) % 2 ^ 32 else cell i j } := by
  have rows : (List.range sketch.depth).mapM (sketch.insertRow columns) =
      some (grid sketch.width sketch.depth fun i j =>
        if j = column i then (cell i j + 1) % 2 ^ 32 else cell i j) := by
    refine map_m_each fun i member => ?_
    have row := List.mem_range.mp member
    rw [insertRow, calls i row, matrix, grid_row row]
    simp only [Option.bind_eq_bind, Option.bind_some, row_cell (inside i row),
      Option.pure_def, row_set]
    congr 1
    refine List.map_congr_left fun j _ => ?_
    by_cases same : j = column i
    · simp [same]
    · simp [same]
  rw [insert, rows]
  rfl

theorem merge_grid {mate : CountMinSketch}
    (matrix : sketch.matrix = grid sketch.width sketch.depth cell)
    (matrix' : mate.matrix = grid sketch.width sketch.depth other) :
    sketch.merge mate = some { sketch with
      matrix := grid sketch.width sketch.depth fun i j => (cell i j + other i j) % 2 ^ 32 } := by
  have rows : (List.range sketch.depth).mapM (sketch.mergeRow mate) =
      some (grid sketch.width sketch.depth fun i j => (cell i j + other i j) % 2 ^ 32) := by
    refine map_m_each fun i member => ?_
    have row := List.mem_range.mp member
    rw [mergeRow, matrix, matrix', grid_row row, grid_row row]
    simp only [Option.bind_eq_bind, Option.bind_some]
    refine map_m_each fun j member => ?_
    have place := List.mem_range.mp member
    rw [row_cell place, row_cell place]
    rfl
  rw [merge, rows]
  rfl

theorem clear_grid (matrix : sketch.matrix = grid sketch.width sketch.depth cell) :
    sketch.clear = some { sketch with matrix := grid sketch.width sketch.depth fun _ _ => 0 } := by
  have rows : ((List.range sketch.depth).mapM fun i => sketch.matrix[i]?.map fun row =>
      List.replicate row.length 0) =
      some (grid sketch.width sketch.depth fun _ _ => 0) := by
    refine map_m_each fun i member => ?_
    rw [matrix, grid_row (List.mem_range.mp member)]
    simp [List.map_const']
  rw [clear, rows]
  rfl

theorem count_grid (matrix : sketch.matrix = grid sketch.width sketch.depth cell)
    (calls : ∀ i < sketch.depth, columns i = some (column i))
    (inside : ∀ i < sketch.depth, column i < sketch.width) :
    sketch.count columns = some
      ((List.range sketch.depth).foldl (fun result i => min result (cell i (column i)))
        (2 ^ 32 - 1)) := by
  have rows (list : List Nat) (below : ∀ i ∈ list, i < sketch.depth) (result : Nat) :
      list.foldlM (sketch.countRow columns) result =
        some (list.foldl (fun result i => min result (cell i (column i))) result) := by
    induction list generalizing result with
    | nil => rfl
    | cons i rest ih =>
        have row := below i List.mem_cons_self
        have here : sketch.countRow columns result i = some (min result (cell i (column i))) := by
          rw [countRow, calls i row, matrix, grid_row row]
          simp only [Option.bind_eq_bind, Option.bind_some, row_cell (inside i row),
            Option.pure_def]
        rw [List.foldlM_cons, here]
        exact ih (fun j member => below j (List.mem_cons_of_mem _ member)) _
  exact rows _ (fun i member => List.mem_range.mp member) _

end Grids

/-! ### Streams -/

/-- The sketches, and for each the items that went into it since it was last
empty, in their order, those of merged sketches included. -/
structure Tracked (Key : Type) where
  objects : Objects
  streams : ObjectId → List Key

def Op.inPlace {Key : Type} : Op Key → Bool
  | .moveConstruct _ _ | .moveAssign _ _ => false
  | _ => true

section Streams
variable {Key : Type} (hash : Key → UInt64)

def streamsAfter (streams : ObjectId → List Key) (op : Op Key) (outcome : Outcome) :
    ObjectId → List Key :=
  if outcome = .done then
    match op with
    | .construct object _ _ | .clear object => update streams object []
    | .insert object item => update streams object (streams object ++ [item])
    | .merge object other => update streams object (streams object ++ streams other)
    | _ => streams
  else streams

def Tracked.step (state : Tracked Key) (op : Op Key) : Option (Tracked Key) :=
  if op.inPlace then
    (CountMinSketch.step hash state.objects op).map fun result =>
      { objects := result.2, streams := streamsAfter state.streams op result.1 }
  else none

def Tracked.start : Tracked Key where
  objects := fun _ => none
  streams := fun _ => []

def ownColumn (width : Nat) (item : Key) (i : Nat) : Nat := seededHash hash i item % width

def tally (width : Nat) (stream : List Key) (i j : Nat) : Nat :=
  stream.countP fun item => ownColumn hash width item i = j

def NoOverflow (sketch : CountMinSketch) (stream : List Key) : Prop :=
  ∀ i < sketch.depth, ∀ j < sketch.width, tally hash sketch.width stream i j < 2 ^ 32

structure InPlace (object : ObjectId) (stream : List Key) (sketch : CountMinSketch) : Prop where
  wide : 0 < sketch.width
  deep : 0 < sketch.depth
  closures : sketch.hashFunctions = (List.range sketch.depth).map fun i =>
    { seed := i, this := object }
  counters : sketch.matrix = grid sketch.width sketch.depth fun i j =>
    tally hash sketch.width stream i j % 2 ^ 32

end Streams

section Tallies
variable {Key : Type} {hash : Key → UInt64} {width i j : Nat} {stream : List Key} {item : Key}
  {object : ObjectId} {sketch : CountMinSketch} {objects : Objects} {state after : Tracked Key}
  {op : Op Key} {other : List Key}

@[simp] theorem tally_nil : tally hash width [] i j = 0 := rfl

theorem tally_append (front back : List Key) :
    tally hash width (front ++ back) i j = tally hash width front i j + tally hash width back i j :=
      List.countP_append

theorem tally_single : tally hash width [item] i j = if j = ownColumn hash width item i then 1
    else 0 := by
  by_cases same : j = ownColumn hash width item i
  · simp [tally, same]
  · simp [tally, same, Ne.symm same]

theorem tally_perm (perm : stream.Perm other) :
    tally hash width stream i j = tally hash width other i j :=
  perm.countP_eq _

theorem tally_le_length : tally hash width stream i j ≤ stream.length := List.countP_le_length

theorem count_le_tally [DecidableEq Key] :
    stream.count item ≤ tally hash width stream i (ownColumn hash width item i) := by
  refine List.countP_mono_left fun other _ same => ?_
  rw [eq_of_beq same]
  simp

/-- The closures of a sketch that has not been moved give its own columns. -/
theorem own_columns (here : objects object = some sketch)
    (inPlace : InPlace hash object stream sketch) {row : Nat} (inside : row < sketch.depth) :
    sketch.columnOf hash objects item row = some (ownColumn hash sketch.width item row) := by
  have wide := inPlace.wide
  simp [columnOf, inPlace.closures, inside, callHash, here, Nat.ne_of_gt wide, ownColumn]

theorem own_column_lt (inPlace : InPlace hash object stream sketch) (item : Key) (row : Nat) :
    ownColumn hash sketch.width item row < sketch.width := Nat.mod_lt _ inPlace.wide

theorem constructed {depth : Nat} (wide : width ≠ 0) (deep : depth ≠ 0) :
    InPlace hash object ([] : List Key) (new object width depth) where
  wide := Nat.pos_of_ne_zero wide
  deep := Nat.pos_of_ne_zero deep
  closures := rfl
  counters := new_grid object

theorem inserted (item : Key) (here : objects object = some sketch)
    (inPlace : InPlace hash object stream sketch) :
    ∃ after, sketch.insert (sketch.columnOf hash objects item) = some after ∧
      InPlace hash object (stream ++ [item]) after := by
  refine ⟨_, insert_grid inPlace.counters (fun i inside => own_columns here inPlace inside)
    (fun i _ => own_column_lt inPlace item i), inPlace.wide, inPlace.deep, inPlace.closures, ?_⟩
  refine grid_congr fun i _ j _ => ?_
  rw [tally_append, tally_single]
  by_cases same : j = ownColumn hash sketch.width item i
  · rw [if_pos same, if_pos same, Nat.mod_add_mod]
  · rw [if_neg same, if_neg same, Nat.add_zero]

theorem merged {mate : CountMinSketch} {place : ObjectId}
    (inPlace : InPlace hash object stream sketch) (inPlace' : InPlace hash place other mate)
    (same : sketch.sameDimensions mate = true) :
    ∃ after, sketch.merge mate = some after ∧ InPlace hash object (stream ++ other) after := by
  simp only [sameDimensions, Bool.and_eq_true, decide_eq_true_eq] at same
  have counters := inPlace'.counters
  rw [← same.1, ← same.2] at counters
  refine ⟨_, merge_grid inPlace.counters counters, inPlace.wide, inPlace.deep, inPlace.closures, ?_⟩
  refine grid_congr fun i _ j _ => ?_
  rw [tally_append, ← Nat.add_mod]

theorem cleared (inPlace : InPlace hash object stream sketch) :
    ∃ after, sketch.clear = some after ∧ InPlace hash object ([] : List Key) after :=
  ⟨_, clear_grid inPlace.counters, inPlace.wide, inPlace.deep, inPlace.closures, rfl⟩

def Counts (hash : Key → UInt64) (state : Tracked Key) : Prop :=
  ∀ object sketch, state.objects object = some sketch →
    InPlace hash object (state.streams object) sketch

theorem counts_set (counts : Counts hash state) {now : CountMinSketch} {items : List Key}
    (inPlace : InPlace hash object items now) :
    Counts hash
      { objects := update state.objects object (some now)
        streams := update state.streams object items } := by
  intro place found here
  by_cases same : place = object
  · subst same
    dsimp only at here ⊢
    rw [Function.update_self] at here ⊢
    obtain rfl := Option.some.inj here
    exact inPlace
  · dsimp only at here ⊢
    rw [Function.update_of_ne same] at here ⊢
    exact counts place found here

theorem counts_step (counts : Counts hash state) (stepped : state.step hash op = some after) :
    Counts hash after := by
  simp only [Tracked.step, Option.ite_none_right_eq_some] at stepped
  obtain ⟨inPlace, stepped⟩ := stepped
  obtain ⟨⟨outcome, objects⟩, ran, rfl⟩ := Option.map_eq_some_iff.mp stepped
  cases op with
  | moveConstruct | moveAssign => cases inPlace
  | construct object width depth =>
      simp only [CountMinSketch.step, Option.ite_none_left_eq_some] at ran
      obtain ⟨_, ran⟩ := ran
      split at ran
      · cases ran
        exact counts
      · rename_i positive
        cases ran
        rw [not_or] at positive
        exact counts_set counts (constructed positive.1 positive.2)
  | destroy object =>
      obtain ⟨_, _, same⟩ := Option.map_eq_some_iff.mp ran
      cases same
      intro place found here
      by_cases same : place = object
      · subst same
        simp at here
      · dsimp only at here
        rw [Function.update_of_ne same] at here
        exact counts place found here
  | insert object item =>
      obtain ⟨sketch, here, ran⟩ := Option.bind_eq_some_iff.mp ran
      obtain ⟨now, inserts, inside⟩ := inserted item here (counts object sketch here)
      rw [inserts] at ran
      cases ran
      exact counts_set counts inside
  | merge object other =>
      obtain ⟨sketch, here, ran⟩ := Option.bind_eq_some_iff.mp ran
      obtain ⟨mate, there, ran⟩ := Option.bind_eq_some_iff.mp ran
      split at ran
      · cases ran
        exact counts
      · rename_i same
        obtain ⟨now, merges, inside⟩ :=
          merged (counts object sketch here) (counts other mate there) (by simpa using same)
        rw [merges] at ran
        cases ran
        exact counts_set counts inside
  | count object item =>
      obtain ⟨sketch, here, ran⟩ := Option.bind_eq_some_iff.mp ran
      obtain ⟨result, _, ran⟩ := Option.bind_eq_some_iff.mp ran
      cases ran
      exact counts
  | clear object =>
      obtain ⟨sketch, here, ran⟩ := Option.bind_eq_some_iff.mp ran
      obtain ⟨now, clears, inside⟩ := cleared (counts object sketch here)
      rw [clears] at ran
      cases ran
      exact counts_set counts inside

theorem reached_counts (reached : Reachable (· = Tracked.start) (graph (Tracked.step hash)) state) :
    Counts hash state := by
  refine TransitionSystem.reachable_preserves (Counts hash) ?_
    (fun _ _ _ counts stepped => counts_step counts stepped) reached
  rintro _ rfl object sketch here
  cases here

/-- The least of numbers that lie between two bounds lies there. -/
theorem least_between {least most bound : Nat} {list : List Nat} {value : Nat → Nat}
    (some : list ≠ [])
    (within : ∀ i ∈ list, least ≤ value i ∧ value i ≤ most) (low : least ≤ bound) :
    least ≤ list.foldl (fun result i => min result (value i)) bound ∧
      list.foldl (fun result i => min result (value i)) bound ≤ most := by
  have each (list : List Nat) (within : ∀ i ∈ list, least ≤ value i ∧ value i ≤ most) (bound : Nat)
    (low : least ≤ bound) :
      least ≤ list.foldl (fun result i => min result (value i)) bound ∧
        list.foldl (fun result i => min result (value i)) bound ≤ bound := by
    induction list generalizing bound with
    | nil => exact ⟨low, Nat.le_refl bound⟩
    | cons i rest ih =>
        have here := within i List.mem_cons_self
        obtain ⟨above, below⟩ :=
          ih (fun j member => within j (List.mem_cons_of_mem _ member)) (min bound (value i))
            (by omega)
        exact ⟨above, by rw [List.foldl_cons]; omega⟩
  cases list with
  | nil => exact absurd rfl some
  | cons i rest =>
      have here := within i List.mem_cons_self
      obtain ⟨above, below⟩ :=
        each rest (fun j member => within j (List.mem_cons_of_mem _ member)) (min bound (value i))
        (by omega)
      exact ⟨above, by rw [List.foldl_cons]; omega⟩

/-- In every state that a program reaches without moves: two sketches of the same
dimensions with the same items, inserted or merged in any order, have the same
counters; the operations come back; and as long as no counter overflows, `Count`
is at least the number of the item and at most that of all items. -/
theorem count_min_sketch_counts [DecidableEq Key]
    (reached : Reachable (· = Tracked.start) (graph (Tracked.step hash)) state)
    (here : state.objects object = some sketch) :
    (∀ place mate, state.objects place = some mate → sketch.sameDimensions mate = true →
      (state.streams object).Perm (state.streams place) → sketch.matrix = mate.matrix) ∧
    (∀ op : Op Key, (∃ item, op = .insert object item ∨ op = .count object item) ∨
      op = .clear object ∨
        (∃ place mate, op = .merge object place ∧ state.objects place = some mate) →
        (state.step hash op).isSome = true) ∧
    (NoOverflow hash sketch (state.streams object) → ∀ item, ∃ result,
      CountMinSketch.step hash state.objects (.count object item) =
        some (.counted result, state.objects) ∧ (state.streams object).count item ≤ result ∧
          result ≤ (state.streams object).length) := by
  have counts := reached_counts reached
  have inPlace := counts object sketch here
  have counted (item : Key) : sketch.count (sketch.columnOf hash state.objects item) = some _ :=
    count_grid inPlace.counters (fun i inside => own_columns here inPlace inside) fun i _ =>
      own_column_lt inPlace item i
  refine ⟨fun place mate there same perm => ?_, fun op calls => ?_, fun noOverflow item => ?_⟩
  · simp only [sameDimensions, Bool.and_eq_true, decide_eq_true_eq] at same
    rw [inPlace.counters, (counts place mate there).counters, ← same.1, ← same.2]
    exact grid_congr fun i _ j _ => by rw [tally_perm perm]
  · rcases calls with ⟨item, rfl | rfl⟩ | rfl | ⟨place, mate, rfl, there⟩
    · obtain ⟨now, inserts, _⟩ := inserted item here inPlace
      simp [Tracked.step, Op.inPlace, CountMinSketch.step, here, inserts]
    · simp [Tracked.step, Op.inPlace, CountMinSketch.step, here, counted item]
    · obtain ⟨now, clears, _⟩ := cleared inPlace
      simp [Tracked.step, Op.inPlace, CountMinSketch.step, here, clears]
    · by_cases same : sketch.sameDimensions mate = true
      · obtain ⟨now, merges, _⟩ := merged inPlace (counts place mate there) same
        simp [Tracked.step, Op.inPlace, CountMinSketch.step, here, there, same, merges]
      · simp [Tracked.step, Op.inPlace, CountMinSketch.step, here, there, same]
  · have within (i : Nat) (member : i ∈ List.range sketch.depth) :
        (state.streams object).count item ≤
            tally hash sketch.width (state.streams object) i (ownColumn hash sketch.width item i) %
              2 ^ 32 ∧
          tally hash sketch.width (state.streams object) i (ownColumn hash sketch.width item i) %
            2 ^ 32 ≤
            (state.streams object).length := by
      have below := noOverflow i (List.mem_range.mp member) _ (own_column_lt inPlace item i)
      rw [Nat.mod_eq_of_lt below]
      exact ⟨count_le_tally, tally_le_length⟩
    have low : (state.streams object).count item ≤ 2 ^ 32 - 1 := by
      have below := noOverflow 0 inPlace.deep _ (own_column_lt inPlace item 0)
      have counted : (state.streams object).count item ≤
          tally hash sketch.width (state.streams object) 0 (ownColumn hash sketch.width item 0) :=
            count_le_tally
      omega
    have rows : List.range sketch.depth ≠ [] := by
      have deep := inPlace.deep
      simp [Nat.ne_of_gt deep]
    obtain ⟨above, below⟩ := least_between rows within low
    refine ⟨_, ?_, above, below⟩
    simp only [CountMinSketch.step, here, counted item, Option.bind_eq_bind, Option.bind_some,
      Option.pure_def]

end Tallies

def mergedSevens : List (Op Nat) :=
  [.construct 0 4 2, .construct 1 4 2, .insert 0 7, .insert 1 7, .merge 0 1]

theorem merged_sevens_returns :
    (mergedSevens.foldlM (Tracked.step UInt64.ofNat) Tracked.start).isSome = true := by
      decide +kernel

def mergedState :
    Tracked Nat :=
      (mergedSevens.foldlM (Tracked.step UInt64.ofNat) Tracked.start).get merged_sevens_returns

theorem merged_sketch_found : (mergedState.objects 0).isSome = true := by decide +kernel

theorem merged_sevens_counted : ∃ result,
    CountMinSketch.step UInt64.ofNat mergedState.objects (.count 0 7) =
      some (.counted result, mergedState.objects) ∧ 2 ≤ result ∧ result ≤ 2 := by
  have reached : Reachable (· = Tracked.start) (graph (Tracked.step UInt64.ofNat)) mergedState :=
    ⟨_, mergedSevens, rfl, TransitionSystem.run_of_fold (Option.some_get _).symm⟩
  have here : mergedState.objects 0 = some ((mergedState.objects 0).get merged_sketch_found) :=
    (Option.some_get _).symm
  have stream : mergedState.streams 0 = [7, 7] := by decide +kernel
  have small : NoOverflow UInt64.ofNat ((mergedState.objects 0).get merged_sketch_found)
    (mergedState.streams 0) := by
    intro i _ j _
    refine Nat.lt_of_le_of_lt tally_le_length ?_
    rw [stream]
    decide
  obtain ⟨result, counted, above, below⟩ := (count_min_sketch_counts reached here).2.2 small 7
  rw [stream] at above below
  exact ⟨result, counted, above, below⟩

end CountMinSketch

end BusTub
