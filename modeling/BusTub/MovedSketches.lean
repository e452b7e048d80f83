import BusTub.CountMinSketch

/-!
Count-min sketches that have been moved. The vectors go along, the closures in
them still read the width of the object that constructed them: a moved sketch
works as before exactly as long as that object is there and its width gives every
item the same columns.
-/

namespace BusTub.CountMinSketch

open Function (update)
open TransitionSystem
open Listing

section Moving
variable {Key : Type} (hash : Key → UInt64)

def Op.on (object : ObjectId) : Op Key → Bool
  | .insert receiver _ | .merge receiver _ | .count receiver _ | .clear receiver =>
    receiver = object
  | _ => false

def Op.spares (object : ObjectId) : Op Key → Bool
  | .moveConstruct _ source => source ≠ object
  | .moveAssign receiver source => receiver ≠ object && source ≠ object
  | .destroy receiver => receiver ≠ object
  | _ => true

def ownStep (objects : Objects) (object : ObjectId) (sketch : CountMinSketch) :
    Op Key → Option (Outcome × CountMinSketch)
  | .insert _ item =>
      (sketch.insert fun i => some (ownColumn hash sketch.width item i)).map fun after =>
        (.done, after)
  | .merge _ other =>
      (if other = object then some sketch else objects other).bind fun mate =>
        if !sketch.sameDimensions mate then some (.invalidArgument, sketch)
        else (sketch.merge mate).map fun after => (.done, after)
  | .count _ item =>
      (sketch.count fun i => some (ownColumn hash sketch.width item i)).map fun result =>
        (.counted result, sketch)
  | .clear _ => sketch.clear.map fun after => (.done, after)
  | _ => none

/-- A program that goes on after the move, with the sketch that the moved one
would be if it had stayed in its first place. -/
structure Watched where
  objects : Objects
  reference : CountMinSketch

def Watched.step (object : ObjectId) (watched : Watched) (op : Op Key) : Option Watched :=
  if op.spares object then
    (CountMinSketch.step hash watched.objects op).map fun result =>
      { objects := result.2
        reference :=
          if op.on object then
            ((ownStep hash watched.objects object watched.reference op).map Prod.snd).getD
              watched.reference
          else watched.reference }
  else none

/-- Every operation on the sketch brings what it would bring in the first place. -/
structure Behaves (object : ObjectId) (watched : Watched) : Prop where
  here : watched.objects object = some watched.reference
  same : ∀ op : Op Key, op.on object = true → CountMinSketch.step hash watched.objects op =
    (ownStep hash watched.objects object watched.reference op).map fun result =>
      (result.1, update watched.objects object (some result.2))

/-- The closures still give the columns that belong to the width of the sketch. -/
def ColumnsKept (objects : Objects) (sketch : CountMinSketch) : Prop :=
  ∀ (item : Key) (i : Nat), i < sketch.depth → sketch.columnOf hash objects item i = some
    (ownColumn hash sketch.width item i)

/-- No hash of the sketch depends on the object. -/
def Independent (source : ObjectId) (objects : Objects) (sketch : CountMinSketch) : Prop :=
  ∀ other : Objects, (∀ object, object ≠ source → other object = objects object) →
    ∀ (item : Key) (i : Nat), i < sketch.depth →
      sketch.columnOf hash other item i = sketch.columnOf hash objects item i

def Possible (objects : Objects) : Prop :=
  Reachable (· = fun _ => none)
    (fun before (op : Op Key) after => ∃ outcome,
      step hash before op = some (outcome, after)) objects

end Moving

/-! ### What every sketch is like -/

structure Shaped (sketch : CountMinSketch) : Prop where
  rows : sketch.matrix.length = sketch.depth
  columns : ∀ row ∈ sketch.matrix, row.length = sketch.width
  small : ∀ row ∈ sketch.matrix, ∀ count ∈ row, count < 2 ^ 32

/-- A sketch in use, or what is left of one. -/
structure WellFormed (sketch : CountMinSketch) : Prop where
  wide : 0 < sketch.width
  deep : 0 < sketch.depth
  inUse : (sketch.hashFunctions = [] ∧ sketch.matrix = []) ∨
    Shaped sketch ∧ ∃ creator, sketch.hashFunctions = (List.range sketch.depth).map fun i =>
      { seed := i, this := creator }

section Shapes
variable {Key : Type} {hash : Key → UInt64} {sketch after : CountMinSketch}
  {columns : Nat → Option Nat} {objects : Objects} {object : ObjectId} {op : Op Key}

theorem shaped_grid (shaped : Shaped sketch) :
    ∃ cell : Nat → Nat → Nat, (∀ i j, cell i j < 2 ^ 32) ∧
      sketch.matrix = grid sketch.width sketch.depth cell := by
  refine ⟨fun i j => ((sketch.matrix[i]?.getD [])[j]?).getD 0, fun i j => ?_, ?_⟩
  · dsimp only
    cases found : sketch.matrix[i]? with
    | none => simp
    | some row =>
        rw [Option.getD_some]
        cases place : row[j]? with
        | none => simp
        | some count =>
            exact shaped.small row (List.mem_of_getElem? found) count (List.mem_of_getElem? place)
  · refine List.ext_getElem (by simp [grid, shaped.rows]) fun i left right => ?_
    have width := shaped.columns _ (List.getElem_mem left)
    refine List.ext_getElem (by simp [grid, width]) fun j place _ => ?_
    simp [grid, left, place]

theorem grid_shaped {width depth : Nat} {cell : Nat → Nat → Nat}
    (small : ∀ i < depth, ∀ j < width, cell i j < 2 ^ 32)
    (dimensions : sketch.width = width ∧ sketch.depth = depth)
    (matrix : sketch.matrix = grid width depth cell) :
    Shaped sketch := by
  constructor
  · rw [matrix, dimensions.2]
    simp [grid]
  · intro row member
    rw [matrix, grid] at member
    obtain ⟨i, _, rfl⟩ := List.mem_map.mp member
    rw [dimensions.1]
    simp
  · intro row member count inside
    rw [matrix, grid] at member
    obtain ⟨i, below, rfl⟩ := List.mem_map.mp member
    obtain ⟨j, below', rfl⟩ := List.mem_map.mp inside
    exact small i (List.mem_range.mp below) j (List.mem_range.mp below')

/-- An insertion that comes back has had a column in each row. -/
theorem insert_columns (inserts : sketch.insert columns = some after) (shaped : Shaped sketch) :
    ∃ column : Nat → Nat, ∀ i < sketch.depth, columns i = some (column i) ∧
      column i < sketch.width := by
  obtain ⟨matrix, rows, _⟩ := Option.map_eq_some_iff.mp inserts
  have each (i : Nat) (inside : i < sketch.depth) : ∃ idx, columns i = some idx ∧
      idx < sketch.width := by
    obtain ⟨row, _, found⟩ := map_m_member rows (List.mem_range.mpr inside)
    obtain ⟨idx, called, found⟩ := Option.bind_eq_some_iff.mp found
    obtain ⟨line, there, found⟩ := Option.bind_eq_some_iff.mp found
    obtain ⟨count, place, _⟩ := Option.bind_eq_some_iff.mp found
    refine ⟨idx, called, ?_⟩
    rw [← shaped.columns line (List.mem_of_getElem? there)]
    exact (List.getElem?_eq_some_iff.mp place).1
  refine ⟨fun i => (columns i).getD 0, fun i inside => ?_⟩
  obtain ⟨idx, called, below⟩ := each i inside
  dsimp only
  rw [called, Option.getD_some]
  exact ⟨rfl, below⟩

theorem no_rows {Row : Type} {row : Nat → Option Row} {rows : List Row} (deep : 0 < sketch.depth)
    (found : (List.range sketch.depth).mapM row = some rows) : row 0 ≠ none := by
  obtain ⟨line, _, there⟩ := map_m_member found (List.mem_range.mpr deep)
  rw [there]
  exact Option.some_ne_none line

theorem shaped_insert (inserts : sketch.insert columns = some after) (shaped : Shaped sketch) :
    Shaped after ∧ after.width = sketch.width ∧ after.depth = sketch.depth ∧
      after.hashFunctions = sketch.hashFunctions := by
  obtain ⟨cell, small, matrix⟩ := shaped_grid shaped
  obtain ⟨column, each⟩ := insert_columns inserts shaped
  rw [insert_grid matrix (fun i inside => (each i inside).1) fun i inside => (each i inside).2]
    at inserts
  obtain rfl := Option.some.inj inserts
  refine ⟨grid_shaped (fun i _ j _ => ?_) ⟨rfl, rfl⟩ rfl, rfl, rfl, rfl⟩
  split
  · exact Nat.mod_lt _ (by decide)
  · exact small i j

theorem shaped_merge {mate : CountMinSketch} (merges : sketch.merge mate = some after)
    (shaped : Shaped sketch) (shaped' : Shaped mate) (same : sketch.sameDimensions mate = true) :
    Shaped after ∧ after.width = sketch.width ∧ after.depth = sketch.depth ∧
      after.hashFunctions = sketch.hashFunctions := by
  simp only [sameDimensions, Bool.and_eq_true, decide_eq_true_eq] at same
  obtain ⟨cell, _, matrix⟩ := shaped_grid shaped
  obtain ⟨other, _, matrix'⟩ := shaped_grid shaped'
  rw [← same.1, ← same.2] at matrix'
  rw [merge_grid matrix matrix'] at merges
  obtain rfl := Option.some.inj merges
  exact ⟨grid_shaped (fun i _ j _ => Nat.mod_lt _ (by decide)) ⟨rfl, rfl⟩ rfl, rfl, rfl, rfl⟩

theorem shaped_clear (clears : sketch.clear = some after) (shaped : Shaped sketch) :
    Shaped after ∧ after.width = sketch.width ∧ after.depth = sketch.depth ∧
      after.hashFunctions = sketch.hashFunctions := by
  obtain ⟨cell, _, matrix⟩ := shaped_grid shaped
  rw [clear_grid matrix] at clears
  obtain rfl := Option.some.inj clears
  exact ⟨grid_shaped (fun i _ j _ => by decide) ⟨rfl, rfl⟩ rfl, rfl, rfl, rfl⟩

end Shapes

section Closures
variable {Key : Type} {hash : Key → UInt64} {sketch : CountMinSketch} {objects start : Objects}
  {object source : ObjectId} {watched : Watched} {labels : List (Op Key)} {op : Op Key}
  {creator : ObjectId} {outcome : Outcome} {after : Watched}

theorem column_of_creator (closures : sketch.hashFunctions = (List.range sketch.depth).map fun i =>
      { seed := i, this := creator })
    {item : Key} {i : Nat} (inside : i < sketch.depth) :
    sketch.columnOf hash objects item i =
      callHash hash objects item { seed := i, this := creator } := by
  simp [columnOf, closures, inside]

/-- An object of the sketch's width in the place of the creator is enough. -/
theorem width_kept {owner : CountMinSketch} (wide : 0 < sketch.width)
    (closures : sketch.hashFunctions = (List.range sketch.depth).map fun i =>
      { seed := i, this := creator })
    (there : objects creator = some owner) (same : owner.width = sketch.width) :
    ColumnsKept hash objects sketch := by
  intro item i inside
  rw [column_of_creator closures inside]
  simp [callHash, there, same, Nat.ne_of_gt wide, ownColumn]

/-- No hash depends on an object that has not made the closures, and each on the one that has. -/
theorem independent_iff [Inhabited Key] (deep : 0 < sketch.depth)
    (closures : sketch.hashFunctions = (List.range sketch.depth).map fun i =>
      { seed := i, this := creator }) :
    Independent hash source objects sketch ↔ creator ≠ source := by
  constructor
  · rintro independent rfl
    -- what the closures give when there is no such object, and when it has one column
    let gone : Objects := update objects creator none
    let narrow : Objects := update objects creator (some (new creator 1 1))
    have apart {row : Option CountMinSketch} : ∀ object, object ≠ creator →
      update objects creator row object = objects object :=
      fun object other => Function.update_of_ne other _ _
    have first := independent gone apart default 0 deep
    have second := independent narrow apart default 0 deep
    rw [← first, column_of_creator closures deep, column_of_creator closures deep] at second
    simp [callHash, gone, narrow, new] at second
  · intro other mem agrees item i inside
    rw [column_of_creator closures inside, column_of_creator closures inside]
    simp only [callHash]
    rw [agrees creator other]

/-! ### Every program -/

def SameCloth (before after : CountMinSketch) : Prop :=
  after.width = before.width ∧ after.depth = before.depth ∧
    after.hashFunctions = before.hashFunctions

theorem counters_well_formed {after : CountMinSketch} (formed : WellFormed sketch)
    (used : sketch.matrix ≠ [])
    (counted : Shaped sketch → Shaped after ∧ SameCloth sketch after) : WellFormed after := by
  rcases formed.inUse with ⟨_, empty⟩ | ⟨shaped, creator, closures⟩
  · exact absurd empty used
  · obtain ⟨shaped', width, depth, functions⟩ := counted shaped
    refine ⟨by rw [width]; exact formed.wide, by rw [depth]; exact formed.deep, Or.inr
      ⟨shaped', creator, ?_⟩⟩
    rw [functions, closures, depth]

def AllWellFormed (objects : Objects) : Prop := ∀ object sketch, objects object = some sketch →
    WellFormed sketch

theorem all_set (all : AllWellFormed objects) (formed : WellFormed sketch) :
    AllWellFormed (update objects object (some sketch)) := by
  intro place found here
  by_cases same : place = object
  · subst same
    rw [Function.update_self] at here
    obtain rfl := Option.some.inj here
    exact formed
  · rw [Function.update_of_ne same] at here
    exact all place found here

theorem all_moved (all : AllWellFormed objects) (there : objects source = some sketch) :
    AllWellFormed (moved objects object source sketch) := by
  have formed := all source sketch there
  exact all_set (all_set all ⟨formed.wide, formed.deep, Or.inl ⟨rfl, rfl⟩⟩) formed

theorem all_step {after : Objects} (all : AllWellFormed objects)
    (stepped : step hash objects op = some (outcome, after)) : AllWellFormed after := by
  cases op with
  | construct object width depth =>
      simp only [step, Option.ite_none_left_eq_some] at stepped
      obtain ⟨_, stepped⟩ := stepped
      split at stepped
      · cases stepped
        exact all
      · rename_i positive
        cases stepped
        rw [not_or] at positive
        refine all_set all ⟨Nat.pos_of_ne_zero positive.1, Nat.pos_of_ne_zero positive.2,
          Or.inr ⟨?_, object, rfl⟩⟩
        exact grid_shaped (fun i _ j _ => by decide) ⟨rfl, rfl⟩ (new_grid object)
  | moveConstruct object source =>
      simp only [step, Option.ite_none_left_eq_some] at stepped
      obtain ⟨sketch, there, same⟩ := Option.map_eq_some_iff.mp stepped.2
      cases same
      exact all_moved all there
  | moveAssign object source =>
      obtain ⟨_, _, stepped⟩ := Option.bind_eq_some_iff.mp stepped
      obtain ⟨sketch, there, same⟩ := Option.map_eq_some_iff.mp stepped
      cases same
      split
      · exact all
      · exact all_moved all there
  | destroy object =>
      obtain ⟨_, _, same⟩ := Option.map_eq_some_iff.mp stepped
      cases same
      intro place found here
      by_cases same : place = object
      · subst same
        simp at here
      · rw [Function.update_of_ne same] at here
        exact all place found here
  | insert object item =>
      obtain ⟨sketch, here, stepped⟩ := Option.bind_eq_some_iff.mp stepped
      obtain ⟨now, inserts, same⟩ := Option.bind_eq_some_iff.mp stepped
      cases same
      have formed := all object sketch here
      refine all_set all (counters_well_formed formed ?_ (shaped_insert inserts))
      intro empty
      obtain ⟨matrix, rows, _⟩ := Option.map_eq_some_iff.mp inserts
      refine no_rows formed.deep rows ?_
      simp only [insertRow, empty]
      cases sketch.columnOf hash objects item 0 <;> rfl
  | merge object other =>
      obtain ⟨sketch, here, stepped⟩ := Option.bind_eq_some_iff.mp stepped
      obtain ⟨mate, there, stepped⟩ := Option.bind_eq_some_iff.mp stepped
      split at stepped
      · cases stepped
        exact all
      · rename_i same
        obtain ⟨now, merges, same'⟩ := Option.bind_eq_some_iff.mp stepped
        cases same'
        have formed := all object sketch here
        obtain ⟨matrix, rows, _⟩ := Option.map_eq_some_iff.mp merges
        have present := no_rows formed.deep rows
        have shaped' : Shaped mate := by
          rcases (all other mate there).inUse with ⟨_, empty⟩ | ⟨shaped, _⟩
          · refine absurd ?_ present
            simp only [mergeRow, empty]
            cases sketch.matrix[0]? <;> rfl
          · exact shaped
        refine all_set all
          (counters_well_formed formed (fun empty =>
            present (by simp [mergeRow, empty])) fun shaped =>
          shaped_merge merges shaped shaped' (by simpa using same))
  | count object item =>
      obtain ⟨sketch, here, stepped⟩ := Option.bind_eq_some_iff.mp stepped
      obtain ⟨result, _, same⟩ := Option.bind_eq_some_iff.mp stepped
      cases same
      exact all
  | clear object =>
      obtain ⟨sketch, here, stepped⟩ := Option.bind_eq_some_iff.mp stepped
      obtain ⟨now, clears, same⟩ := Option.bind_eq_some_iff.mp stepped
      cases same
      have formed := all object sketch here
      refine all_set all (counters_well_formed formed ?_ (shaped_clear clears))
      intro empty
      obtain ⟨matrix, rows, _⟩ := Option.map_eq_some_iff.mp clears
      exact no_rows formed.deep rows (by simp [empty])

theorem possible_well_formed (possible : Possible hash objects) : AllWellFormed objects := by
  refine reachable_preserves AllWellFormed ?_ ?_ possible
  · rintro _ rfl object sketch here
    cases here
  · rintro before op after all ⟨outcome, stepped⟩
    exact all_step all stepped

/-! ### As in the first place -/

theorem insert_kept (shaped : Shaped sketch) (wide : 0 < sketch.width)
    (kept : ColumnsKept hash objects sketch) (item : Key) :
    sketch.insert (sketch.columnOf hash objects item) = sketch.insert fun i =>
      some (ownColumn hash sketch.width item i) := by
  obtain ⟨cell, _, matrix⟩ := shaped_grid shaped
  have own : ∀ i < sketch.depth, ownColumn hash sketch.width item i < sketch.width :=
    fun i _ => Nat.mod_lt _ wide
  rw [insert_grid matrix (kept item) own, insert_grid matrix (fun i _ => rfl) own]

theorem count_kept (shaped : Shaped sketch) (wide : 0 < sketch.width)
    (kept : ColumnsKept hash objects sketch) (item : Key) :
    sketch.count (sketch.columnOf hash objects item) = sketch.count fun i =>
      some (ownColumn hash sketch.width item i) := by
  obtain ⟨cell, _, matrix⟩ := shaped_grid shaped
  have own : ∀ i < sketch.depth, ownColumn hash sketch.width item i < sketch.width :=
    fun i _ => Nat.mod_lt _ wide
  rw [count_grid matrix (kept item) own, count_grid matrix (fun i _ => rfl) own]

/-- An insertion with other columns than its own raises other counters. -/
theorem insert_tells (shaped : Shaped sketch) (wide : 0 < sketch.width) (item : Key)
    (same : sketch.insert (sketch.columnOf hash objects item) = sketch.insert fun i =>
      some (ownColumn hash sketch.width item i))
    {i : Nat} (inside : i < sketch.depth) :
    sketch.columnOf hash objects item i = some (ownColumn hash sketch.width item i) := by
  obtain ⟨cell, small, matrix⟩ := shaped_grid shaped
  have own : ∀ i < sketch.depth, ownColumn hash sketch.width item i < sketch.width :=
    fun i _ => Nat.mod_lt _ wide
  rw [insert_grid matrix (fun i _ => rfl) own] at same
  obtain ⟨column, each⟩ := insert_columns same shaped
  rw [insert_grid matrix (fun i inside => (each i inside).1) fun i inside => (each i inside).2]
    at same
  have rows :=
    congrArg (fun matrix : List (List Nat) => matrix[i]?)
      (congrArg CountMinSketch.matrix (Option.some.inj same))
  rw [grid_row inside, grid_row inside] at rows
  have place :=
    congrArg (fun row : List Nat => row[ownColumn hash sketch.width item i]?) (Option.some.inj rows)
  simp only [List.getElem?_map, List.getElem?_range (own i inside), Option.map_some,
    Option.some.injEq, if_true] at place
  rw [(each i inside).1]
  by_cases here : ownColumn hash sketch.width item i = column i
  · rw [here]
  · rw [if_neg here] at place
    have bound := small i (ownColumn hash sketch.width item i)
    omega

/-- A sketch in use behaves as in the first place exactly when its closures give its columns. -/
theorem behaves_iff (all : AllWellFormed watched.objects)
    (here : watched.objects object = some watched.reference)
    (used : watched.reference.hashFunctions ≠ []) :
    Behaves hash object watched ↔ ColumnsKept hash watched.objects watched.reference := by
  have formed := all object _ here
  obtain ⟨shaped, creator, closures⟩ := formed.inUse.resolve_left fun empty => used empty.1
  constructor
  · intro behaves item i inside
    have same := behaves.same (.insert object item) (by simp [Op.on])
    refine insert_tells shaped formed.wide item ?_ inside
    obtain ⟨cell, _, matrix⟩ := shaped_grid shaped
    have below : ∀ i < watched.reference.depth,
        ownColumn hash watched.reference.width item i < watched.reference.width :=
          fun i _ => Nat.mod_lt _ formed.wide
    have own : watched.reference.insert (fun i =>
        some (ownColumn hash watched.reference.width item i)) = some _ :=
      insert_grid matrix (fun i _ => rfl) below
    simp only [step, here, ownStep, Option.bind_eq_bind, Option.bind_some, own, Option.map_some]
      at same
    obtain ⟨after, inserts, same⟩ := Option.bind_eq_some_iff.mp same
    have objects :=
      congrArg (fun result : Outcome × Objects => result.2 object) (Option.some.inj same)
    simp only [Function.update_self] at objects
    rw [inserts, own, objects]
  · intro kept
    refine ⟨here, fun op on => ?_⟩
    cases op with
    | construct | moveConstruct | moveAssign | destroy => cases on
    | insert receiver item =>
        obtain rfl : receiver = object := by simpa [Op.on] using on
        simp only [step, here, ownStep, Option.bind_eq_bind, Option.bind_some,
          insert_kept shaped formed.wide kept item]
        cases watched.reference.insert fun i =>
          some (ownColumn hash watched.reference.width item i) <;> rfl
    | merge receiver other =>
        obtain rfl : receiver = object := by simpa [Op.on] using on
        have mate : (if other = receiver then some watched.reference else watched.objects other) =
            watched.objects other := by
          split
          · rename_i same
            rw [same, here]
          · rfl
        simp only [step, here, ownStep, mate, Option.bind_eq_bind, Option.bind_some]
        cases watched.objects other with
        | none => rfl
        | some mate =>
            simp only [Option.bind_some]
            split
            · rw [Option.map_some, ← here, Function.update_eq_self]
              rfl
            · cases watched.reference.merge mate <;> rfl
    | count receiver item =>
        obtain rfl : receiver = object := by simpa [Op.on] using on
        simp only [step, here, ownStep, Option.bind_eq_bind, Option.bind_some,
          count_kept shaped formed.wide kept item]
        cases watched.reference.count fun i =>
          some (ownColumn hash watched.reference.width item i) with
        | none => rfl
        | some result =>
            rw [Option.map_some, Option.map_some, ← here, Function.update_eq_self]
            rfl
    | clear receiver =>
        obtain rfl : receiver = object := by simpa [Op.on] using on
        simp only [step, here, ownStep, Option.bind_eq_bind, Option.bind_some]
        cases watched.reference.clear <;> rfl

theorem own_step_cloth {others : Objects} {result : Outcome × CountMinSketch}
    (stepped : ownStep hash others object sketch op = some result) : SameCloth sketch result.2 := by
  have refl : SameCloth sketch sketch := ⟨rfl, rfl, rfl⟩
  cases op with
  | construct | moveConstruct | moveAssign | destroy => cases stepped
  | insert receiver item =>
      obtain ⟨after, inserts, rfl⟩ := Option.map_eq_some_iff.mp stepped
      obtain ⟨matrix, _, rfl⟩ := Option.map_eq_some_iff.mp inserts
      exact refl
  | merge receiver other =>
      obtain ⟨mate, _, stepped⟩ := Option.bind_eq_some_iff.mp stepped
      split at stepped
      · cases stepped
        exact refl
      · obtain ⟨after, merges, rfl⟩ := Option.map_eq_some_iff.mp stepped
        obtain ⟨matrix, _, rfl⟩ := Option.map_eq_some_iff.mp merges
        exact refl
  | count receiver item =>
      obtain ⟨result, _, rfl⟩ := Option.map_eq_some_iff.mp stepped
      exact refl
  | clear receiver =>
      obtain ⟨after, clears, rfl⟩ := Option.map_eq_some_iff.mp stepped
      obtain ⟨matrix, _, rfl⟩ := Option.map_eq_some_iff.mp clears
      exact refl

/-- What holds in every program after the move, whatever becomes of the creator. -/
structure Follows (sketch : CountMinSketch) (watched : Watched) : Prop where
  all : AllWellFormed watched.objects
  cloth : SameCloth sketch watched.reference

theorem follows_step (follows : Follows sketch watched)
    (stepped : watched.step hash object op = some after) : Follows sketch after := by
  simp only [Watched.step, Option.ite_none_right_eq_some] at stepped
  obtain ⟨_, stepped⟩ := stepped
  obtain ⟨⟨outcome, objects⟩, ran, rfl⟩ := Option.map_eq_some_iff.mp stepped
  refine ⟨all_step follows.all ran, ?_⟩
  dsimp only
  split
  · cases own : ownStep hash watched.objects object watched.reference op with
    | none => exact follows.cloth
    | some result =>
        obtain ⟨width, depth, functions⟩ := own_step_cloth own
        obtain ⟨width', depth', functions'⟩ := follows.cloth
        exact ⟨width.trans width', depth.trans depth', functions.trans functions'⟩
  · exact follows.cloth

/-- An operation on another sketch leaves this one where and as it is. -/
theorem elsewhere_kept {objects after : Objects} {sketch : CountMinSketch}
    (here : objects object = some sketch) (spares : op.spares object = true)
    (other : op.on object = false)
    (stepped : step hash objects op = some (outcome, after)) : after object = some sketch := by
  have set {place : ObjectId} {row : Option CountMinSketch} (apart : object ≠ place) :
      update objects place row object = some sketch := by rw [Function.update_of_ne apart, here]
  have away {place origin : ObjectId} {found : CountMinSketch} (apart : object ≠ place)
    (apart' : object ≠ origin) :
    moved objects place origin found object = some sketch := by
    rw [moved, Function.update_of_ne apart, Function.update_of_ne apart', here]
  cases op with
  | construct place width depth =>
      simp only [step, Option.ite_none_left_eq_some] at stepped
      obtain ⟨free, stepped⟩ := stepped
      split at stepped
      · cases stepped
        exact here
      · cases stepped
        refine set ?_
        rintro rfl
        exact free (by rw [here]; rfl)
  | moveConstruct place origin =>
      simp only [step, Option.ite_none_left_eq_some] at stepped
      obtain ⟨free, stepped⟩ := stepped
      obtain ⟨found, _, same⟩ := Option.map_eq_some_iff.mp stepped
      cases same
      have apart : origin ≠ object := by simpa [Op.spares] using spares
      refine away ?_ (Ne.symm apart)
      rintro rfl
      exact free (by rw [here]; rfl)
  | moveAssign place origin =>
      obtain ⟨_, _, stepped⟩ := Option.bind_eq_some_iff.mp stepped
      obtain ⟨found, _, same⟩ := Option.map_eq_some_iff.mp stepped
      cases same
      have apart : place ≠ object ∧ origin ≠ object := by simpa [Op.spares] using spares
      split
      · exact here
      · exact away (Ne.symm apart.1) (Ne.symm apart.2)
  | destroy place =>
      obtain ⟨_, _, same⟩ := Option.map_eq_some_iff.mp stepped
      cases same
      have apart : place ≠ object := by simpa [Op.spares] using spares
      exact set (Ne.symm apart)
  | insert place item =>
      obtain ⟨found, _, stepped⟩ := Option.bind_eq_some_iff.mp stepped
      obtain ⟨now, _, same⟩ := Option.bind_eq_some_iff.mp stepped
      cases same
      have apart : place ≠ object := by simpa [Op.on] using other
      exact set (Ne.symm apart)
  | merge place mate =>
      obtain ⟨found, _, stepped⟩ := Option.bind_eq_some_iff.mp stepped
      obtain ⟨mate, _, stepped⟩ := Option.bind_eq_some_iff.mp stepped
      have apart : place ≠ object := by simpa [Op.on] using other
      split at stepped
      · cases stepped
        exact here
      · obtain ⟨now, _, same⟩ := Option.bind_eq_some_iff.mp stepped
        cases same
        exact set (Ne.symm apart)
  | count place item =>
      obtain ⟨found, _, stepped⟩ := Option.bind_eq_some_iff.mp stepped
      obtain ⟨result, _, same⟩ := Option.bind_eq_some_iff.mp stepped
      cases same
      exact here
  | clear place =>
      obtain ⟨found, _, stepped⟩ := Option.bind_eq_some_iff.mp stepped
      obtain ⟨now, _, same⟩ := Option.bind_eq_some_iff.mp stepped
      cases same
      have apart : place ≠ object := by simpa [Op.on] using other
      exact set (Ne.symm apart)

/-- While the columns are kept the moved sketch stays the one that it would be in the first
place. -/
theorem reference_step (follows : Follows sketch watched) (used : sketch.hashFunctions ≠ [])
    (here : watched.objects object = some watched.reference)
    (kept : ColumnsKept hash watched.objects watched.reference)
    (stepped : watched.step hash object op = some after) :
    after.objects object = some after.reference := by
  simp only [Watched.step, Option.ite_none_right_eq_some] at stepped
  obtain ⟨spares, stepped⟩ := stepped
  obtain ⟨⟨outcome, objects⟩, ran, rfl⟩ := Option.map_eq_some_iff.mp stepped
  cases on : op.on object with
  | false => exact elsewhere_kept here spares on ran
  | true =>
      have behaves :=
        (behaves_iff follows.all here (by rw [follows.cloth.2.2]; exact used)).mpr kept
      rw [behaves.same op on] at ran
      obtain ⟨result, own, same⟩ := Option.map_eq_some_iff.mp ran
      cases same
      simp [own]

/-- After a move, by construction or by assignment, of a sketch whose closures
give its columns: what is done with it goes as it would have gone in the first
place exactly while they go on to do so, which is while the object that has made
them is there with a width that gives the same columns; and its hashes are
independent of the source exactly when that object is not the source. -/
theorem moved_sketch_iff [Inhabited Key] (possible : Possible hash objects)
    (there : objects source = some sketch) (own : ColumnsKept hash objects sketch)
    (apart : object ≠ source) {op : Op Key}
    (move : op = .moveConstruct object source ∨ op = .moveAssign object source)
    (moves : step hash objects op = some (.done, start)) :
    (Along (graph (Watched.step hash object)) (Behaves hash object) ⟨start, sketch⟩ labels ↔
      Along (graph (Watched.step hash object)) (fun watched =>
        ColumnsKept hash watched.objects watched.reference)
        ⟨start, sketch⟩ labels) ∧
    (Along (graph (Watched.step hash object))
        (fun watched => Independent hash source watched.objects watched.reference)
          ⟨start, sketch⟩ labels ↔
      ∀ function ∈ sketch.hashFunctions, function.this ≠ source) := by
  have formed := possible_well_formed possible source sketch there
  have used : sketch.hashFunctions ≠ [] := by
    intro empty
    have column := own default 0 formed.deep
    simp [columnOf, empty] at column
  obtain ⟨shaped, creator, closures⟩ := formed.inUse.resolve_left fun empty => used empty.1
  have arrived : start object = some sketch := by
    rcases move with rfl | rfl
    · simp only [step, Option.ite_none_left_eq_some] at moves
      obtain ⟨found, there', same⟩ := Option.map_eq_some_iff.mp moves.2
      cases same
      obtain rfl := Option.some.inj (there.symm.trans there')
      simp [moved]
    · obtain ⟨_, _, moves⟩ := Option.bind_eq_some_iff.mp moves
      obtain ⟨found, there', same⟩ := Option.map_eq_some_iff.mp moves
      cases same
      obtain rfl := Option.some.inj (there.symm.trans there')
      rw [if_neg apart]
      simp [moved]
  have begins : Follows sketch ⟨start, sketch⟩ :=
    ⟨all_step (possible_well_formed possible) moves, rfl, rfl, rfl⟩
  have always : Along (graph (Watched.step hash object)) (fun _ => True) ⟨start, sketch⟩ labels :=
    fun _ _ _ _ _ => trivial
  have follows : Along (graph (Watched.step hash object)) (Follows sketch) ⟨start, sketch⟩ labels :=
    along_preserves (fun _ _ _ _ follows stepped => follows_step follows stepped) always begins
  have inUse {watched : Watched} (follows : Follows sketch watched) :
      watched.reference.hashFunctions ≠ [] := by
    rw [follows.cloth.2.2]
    exact used
  have made {watched : Watched} (follows : Follows sketch watched) :
      Independent hash source watched.objects watched.reference ↔ creator ≠ source := by
    obtain ⟨_, depth, functions⟩ := follows.cloth
    refine independent_iff ?_ ?_
    · rw [depth]
      exact formed.deep
    · rw [functions, closures, depth]
  refine ⟨⟨fun behaves => ?_, fun kept => ?_⟩, fun independent => ?_, fun other => ?_⟩
  · intro front back watched split run
    have as := behaves front back watched split run
    have known := follows front back watched split run
    exact (behaves_iff known.all as.here (inUse known)).mp as
  · have stays : Along (graph (Watched.step hash object))
      (fun watched => Follows sketch watched ∧ watched.objects object = some watched.reference)
        ⟨start, sketch⟩ labels := by
      refine along_preserves (fun _ _ _ kept stands stepped => ?_) kept ⟨begins, arrived⟩
      exact ⟨follows_step stands.1 stepped, reference_step stands.1 used stands.2 kept stepped⟩
    intro front back watched split run
    obtain ⟨known, here⟩ := stays front back watched split run
    exact (behaves_iff known.all here (inUse known)).mpr (kept front back watched split run)
  · have first := (made begins).mp (independent [] labels _ rfl (Run.refl _))
    intro function member
    rw [closures] at member
    obtain ⟨i, _, rfl⟩ := List.mem_map.mp member
    exact first
  · intro front back watched split run
    refine (made (follows front back watched split run)).mpr (other ⟨0, creator⟩ ?_)
    rw [closures]
    exact List.mem_map.mpr ⟨0, List.mem_range.mpr formed.deep, rfl⟩

end Closures

/-! ### The width of another sketch -/

def sevenAndOne : List (Op Nat) := [.construct 0 7 1, .insert 0 0, .construct 2 1 1]

def runOps (ops : List (Op Nat)) (objects : Objects) : Option Objects :=
  ops.foldlM (fun objects op => (step UInt64.ofNat objects op).map Prod.snd) objects

theorem seven_and_one_returns : (runOps sevenAndOne fun _ => none).isSome = true := by
  decide +kernel

def beforeMove : Objects := (runOps sevenAndOne fun _ => none).get seven_and_one_returns

theorem seven_found : (beforeMove 0).isSome = true := by decide +kernel

def seven : CountMinSketch := (beforeMove 0).get seven_found

theorem move_returns : (step UInt64.ofNat beforeMove (.moveConstruct 1 0)).isSome = true := by
  decide +kernel

def afterMove : Objects := ((step UInt64.ofNat beforeMove (.moveConstruct 1 0)).get move_returns).2

theorem assign_returns :
    (Watched.step UInt64.ofNat 1 ⟨afterMove, seven⟩ (.moveAssign 0 2)).isSome = true := by
  decide +kernel

def reassigned : Watched :=
  (Watched.step UInt64.ofNat 1 ⟨afterMove, seven⟩ (.moveAssign 0 2)).get assign_returns

theorem before_possible : Possible UInt64.ofNat beforeMove := by
  have run : Run (graph fun objects op => (step UInt64.ofNat objects op).map Prod.snd)
      (fun _ => none) sevenAndOne
      beforeMove := run_of_fold (Option.some_get _).symm
  refine ⟨_, sevenAndOne, rfl, run_mono (fun objects op after stepped => ?_) run⟩
  obtain ⟨⟨outcome, next⟩, ran, rfl⟩ := Option.map_eq_some_iff.mp stepped
  exact ⟨outcome, ran⟩

theorem pair_of_get {First Second : Type} {result : Option (First × Second)}
    (returns : result.isSome = true) {first : First} (same : (result.get returns).1 = first) :
    result = some (first, (result.get returns).2) := by
  subst same
  exact (Option.some_get returns).symm

theorem move_done : step UInt64.ofNat beforeMove (.moveConstruct 1 0) = some (.done, afterMove) :=
  pair_of_get move_returns (by decide +kernel)

/-- The moved sketch has lost its zero: it looks for it where a sketch of one column has it. -/
theorem zero_lost :
    Possible UInt64.ofNat beforeMove ∧ step UInt64.ofNat beforeMove (.moveConstruct 1 0) =
      some (.done, afterMove) ∧ (step UInt64.ofNat afterMove (.count 1 0)).map Prod.fst =
        some (.counted 1) ∧
    (step UInt64.ofNat reassigned.objects (.count 1 0)).map Prod.fst = some (.counted 0) ∧
    ¬ Along (graph (Watched.step UInt64.ofNat 1)) (Behaves UInt64.ofNat 1) ⟨afterMove, seven⟩
      [.moveAssign 0 2] := by
  have lost : (step UInt64.ofNat reassigned.objects (.count 1 0)).map Prod.fst =
      some (.counted 0) :=
    by decide +kernel
  refine ⟨before_possible, move_done, by decide +kernel, lost, fun behaves => ?_⟩
  have there : Run (graph (Watched.step UInt64.ofNat 1)) ⟨afterMove, seven⟩
    [.moveAssign 0 2] reassigned :=
    Run.next (Option.some_get _).symm (Run.refl _)
  have same := (behaves _ [] reassigned rfl there).same (.count 1 0) rfl
  have kept : (ownStep UInt64.ofNat reassigned.objects 1 reassigned.reference (.count 1 0)).map
      Prod.fst =
      some (.counted 1) := by decide +kernel
  have outcomes : (step UInt64.ofNat reassigned.objects (.count 1 0)).map Prod.fst =
      (ownStep UInt64.ofNat reassigned.objects 1 reassigned.reference (.count 1 0)).map
        Prod.fst := by
    rw [same, Option.map_map]
    rfl
  rw [lost, kept] at outcomes
  cases outcomes

theorem seven_moved_decided :
    (Along (graph (Watched.step UInt64.ofNat 1)) (Behaves UInt64.ofNat 1) ⟨afterMove, seven⟩
      [.insert 1 5] ↔ Along (graph (Watched.step UInt64.ofNat 1))
        (fun watched => ColumnsKept UInt64.ofNat watched.objects watched.reference)
        ⟨afterMove, seven⟩ [.insert 1 5]) ∧
    (Along (graph (Watched.step UInt64.ofNat 1))
        (fun watched => Independent UInt64.ofNat 0 watched.objects watched.reference) ⟨afterMove,
          seven⟩ [.insert 1 5] ↔
      ∀ function ∈ seven.hashFunctions, function.this ≠ 0) := by
  have there : beforeMove 0 = some seven := (Option.some_get _).symm
  have closures : seven.hashFunctions = (List.range seven.depth).map fun i =>
      { seed := i, this := 0 } :=
    by decide +kernel
  exact moved_sketch_iff before_possible there (width_kept (by decide +kernel) closures there rfl)
    (by decide)
    (Or.inl rfl)
    move_done

end BusTub.CountMinSketch
