import BusTub.Executors

/-!
What the executors hand out: over children that keep the batch contract each
executor hands out one list of rows, whatever sizes its `Next` is asked for, and
says no exactly when the list is at its end. No batch is larger than asked for,
except that a filter pushes all that it kept back of a child batch, and what
comes after it, without looking at the size.
-/

namespace BusTub

open BatchSource

/-- Whenever it is started it hands out one list of rows; its batches may be too large. -/
def Serves (child : Executor) : Prop :=
  ∀ state, child.Reached state → ∃ started rows, child.init state = some started ∧
    child.Delivers false started rows

@[simp] theorem hand_out_length (out : List (Row × RID)) :
    (handOut out).tuples.length = out.length := by
  simp [handOut, Batch.pushed]

theorem hand_out_brings {out : List (Row × RID)} (brings : out ≠ []) :
    Batch.pushed true out = handOut out := by
  have more : out.isEmpty = false := by simpa using brings
  rw [handOut, more]
  rfl

theorem answers_take (rest : List (Row × RID)) {size : Nat} (positive : 0 < size) :
    Answers rest (handOut (rest.take size)) (rest.drop size) := by
  apply answers_pushed (List.take_append_drop size rest).symm
  intro empty
  rcases List.take_eq_nil_iff.mp empty with zero | rfl
  · omega
  · exact List.drop_nil

theorem take_within (rest : List (Row × RID)) (size : Nat) :
    (handOut (rest.take size)).tuples.length ≤ size := by
  simp

section Scans
variable (visible : RID → Option Tuple) (filterPredicate : Predicate) {size : Nat}

def scanRow (rid : RID) : Option (Row × RID) :=
  (visible rid).bind fun values => if filterPredicate.accepts values then some (⟨values, rid⟩, rid)
    else none

theorem scan_rids_spec (rids : List RID) {out : List (Row × RID)} (room : out.length ≤ size) :
    ∃ made rest, scanRids visible filterPredicate size rids out = (out ++ made, rest) ∧
      rids.filterMap (scanRow visible filterPredicate) =
        made ++ rest.filterMap (scanRow visible filterPredicate) ∧ (out ++ made).length ≤ size ∧
          (size ≤ (out ++ made).length ∨ rest = []) := by
  induction rids generalizing out with
  | nil => exact ⟨[], [], by simp [scanRids, room]⟩
  | cons rid rids ih =>
      by_cases full : out.length < size
      · cases seen : visible rid with
        | none =>
            obtain ⟨made, rest, found, split, right⟩ := ih room
            exact ⟨made, rest,
              by simp [scanRids, full, seen, found], by simp [scanRow, seen, split], right⟩
        | some values =>
            cases accepted : filterPredicate.accepts values with
            | false =>
                obtain ⟨made, rest, found, split, right⟩ := ih room
                exact ⟨made, rest, by simp [scanRids, full, seen, accepted, found],
                  by simp [scanRow, seen, accepted, split], right⟩
            | true =>
                have more : (out ++ [((⟨values, rid⟩ : Row), rid)]).length ≤ size := by
                  simp only [List.length_append, List.length_singleton]
                  omega
                obtain ⟨made, rest, found, split, within, ends⟩ := ih more
                refine ⟨(⟨values, rid⟩, rid) :: made, rest, ?_, ?_, ?_, ?_⟩
                · simp [scanRids, full, seen, accepted, found]
                · simp [scanRow, seen, accepted, split]
                · simpa using within
                · simpa using ends
      · exact ⟨[], rid :: rids,
          by simp [scanRids, full], rfl, by simpa using room, Or.inl (by simp; omega)⟩

/-- One call of a scan, whatever it keeps its RIDs in. -/
theorem scan_answers (positive : 0 < size) (rids : List RID) :
    ∃ out rest, scanRids visible filterPredicate size rids [] = (out, rest) ∧
      Answers (rids.filterMap (scanRow visible filterPredicate)) (handOut out)
        (rest.filterMap (scanRow visible filterPredicate)) ∧
          (handOut out).tuples.length ≤ size := by
  have room : ([] : List (Row × RID)).length ≤ size := Nat.zero_le size
  obtain ⟨made, rest, found, split, within, ends⟩ :=
    scan_rids_spec visible filterPredicate rids room
  refine ⟨made, rest, found, answers_pushed split fun empty => ?_, by simpa using within⟩
  rcases ends with full | rfl
  · simp only [empty, List.append_nil, List.length_nil] at full
    omega
  · rfl

end Scans

theorem seq_scan_delivers (view : TableView) (filterPredicate : Predicate) :
    (seqScanExecutor view filterPredicate).Delivers true (some view.rids)
      (view.rids.filterMap (scanRow view.visible filterPredicate)) := by
  apply delivers_of fun state rest => ∃ rids, state = some rids ∧
    rest = rids.filterMap (scanRow view.visible filterPredicate)
  · rintro _ _ size ⟨rids, rfl, rfl⟩ positive
    obtain ⟨out, left, scanned, right, within⟩ :=
      scan_answers view.visible filterPredicate positive rids
    exact ⟨handOut out, some left, _,
      by simp [seqScanExecutor, scanned], right, fun _ => within, left, rfl, rfl⟩
  · exact ⟨view.rids, rfl, rfl⟩

theorem index_walk_delivers {view : TableView} {index : IndexView} {plan : IndexScanPlan}
    (keys : plan.predKeys.isEmpty = true) {state : IndexScanState} {rids : List RID}
    (found : state.iterator = some rids) :
    (indexScanExecutor view index plan).Delivers true state
      (rids.filterMap (scanRow view.visible plan.filterPredicate)) := by
  apply delivers_of fun (now : IndexScanState) rest => ∃ rids, now.iterator = some rids ∧
    rest = rids.filterMap (scanRow view.visible plan.filterPredicate)
  · rintro now _ size ⟨rids, found, rfl⟩ positive
    obtain ⟨out, left, scanned, right, within⟩ :=
      scan_answers view.visible plan.filterPredicate positive rids
    exact ⟨handOut out, { now with iterator := some left }, _,
        by simp [indexScanExecutor, keys, found, scanned], right,
      fun _ => within, left, rfl, rfl⟩
  · exact ⟨rids, found, rfl⟩

theorem index_lookup_delivers {view : TableView} {index : IndexView} {plan : IndexScanPlan}
    (keys : plan.predKeys.isEmpty = false) (state : IndexScanState) :
    (indexScanExecutor view index plan).Delivers true state
      (state.lookupRids.filterMap (scanRow view.visible plan.filterPredicate)) := by
  apply delivers_of fun (now : IndexScanState) rest =>
    rest = now.lookupRids.filterMap (scanRow view.visible plan.filterPredicate)
  · rintro now _ size rfl positive
    obtain ⟨out, left, scanned, right, within⟩ :=
      scan_answers view.visible plan.filterPredicate positive now.lookupRids
    exact ⟨handOut out, { now with lookupRids := left }, _,
        by simp [indexScanExecutor, keys, scanned], right, fun _ => within, rfl⟩
  · rfl

/-- One call that hands out entries from a cursor on. -/
theorem entries_answer (entries : List (Row × RID)) (cursor : Nat) {size : Nat}
    (positive : 0 < size) :
    Answers (entries.drop cursor) (handOut (takeEntries entries cursor size))
      (entries.drop (cursor + (takeEntries entries cursor size).length)) := by
  have same : entries.drop (cursor + (takeEntries entries cursor size).length) =
      (entries.drop cursor).drop size := by
    simp only [takeEntries, List.length_take, ← List.drop_drop, List.length_drop]
    rcases Nat.le_total size (entries.length - cursor) with short | long
    · rw [Nat.min_eq_left short]
    · rw [Nat.min_eq_right long, List.drop_of_length_le (by simp),
        List.drop_of_length_le (by simpa using long)]
  rw [same]
  exact answers_take _ positive

theorem values_delivers (values : List Tuple) :
    (valuesExecutor values).Delivers true (0 : Nat) (values.map fun row =>
      (⟨row, RID.invalid⟩, RID.invalid)) := by
  apply delivers_of fun (cursor : Nat) rest => rest =
    (values.map fun row => ((⟨row, RID.invalid⟩ : Row), RID.invalid)).drop cursor
  · rintro cursor _ size rfl positive
    exact ⟨_, _, _, rfl, entries_answer _ cursor positive, fun _ => take_within _ size, rfl⟩
  · simp

theorem sort_delivers {fuel : Nat} {stdSort : (Row → Row → Bool) → List Row → List Row}
    {less : Row → Row → Bool} {child : Executor} (state : SortState child) :
    (sortExecutor fuel stdSort less child).Delivers true state
      ((state.entries.map fun row => (row, row.rid)).drop state.cursor) := by
  apply delivers_of fun (now : SortState child) rest => rest =
    (now.entries.map fun row => (row, row.rid)).drop now.cursor
  · rintro now _ size rfl positive
    exact ⟨_, _, _, rfl, entries_answer _ now.cursor positive, fun _ => take_within _ size, rfl⟩
  · rfl

def entryRow (entry : AggregateKey × AggregateValue) : Row × RID :=
  (⟨entry.1 ++ entry.2, RID.invalid⟩, RID.invalid)

theorem aggregation_delivers {fuel : Nat} {order : MapOrder AggregateKey} {plan : AggregationPlan}
    {child : Executor} (state : AggregationState child) :
    (aggregationExecutor fuel order plan child).Delivers true state
      (state.ahtIterator.map entryRow) := by
  apply delivers_of fun (now : AggregationState child) rest => rest = now.ahtIterator.map entryRow
  · rintro now _ size rfl positive
    have right := answers_take (now.ahtIterator.map entryRow) positive
    rw [← List.map_take, ← List.map_drop] at right
    exact ⟨_, _, _, rfl, right, fun _ => by simp, rfl⟩
  · rfl

section Buffered
variable {child : Executor} {emit : Row → Option Row} {strict : Bool} {rest : List (Row × RID)}
  {rows out filled : List (Row × RID)} {state : BufferedState child}

theorem emit_append (front back : List (Row × RID)) :
    emitRows emit (front ++ back) = emitRows emit front ++ emitRows emit back :=
  List.filterMap_append

theorem fill_batch_none {size index : Nat}
    (fills : fillBatch emit size index rows out = (filled, none)) :
    filled = out ++ emitRows emit rows ∧ (emitRows emit rows = [] ∨ filled.length < size) := by
  induction rows generalizing index out with
  | nil =>
      obtain rfl : out = filled := by simpa [fillBatch] using fills
      simp [emitRows]
  | cons entry rows ih =>
      obtain ⟨tuple, rid⟩ := entry
      cases made : emit tuple with
      | none =>
          simp only [fillBatch, made] at fills
          simpa [emitRows, made] using ih fills
      | some row =>
          by_cases full : size ≤ (out ++ [(row, rid)]).length
          · simp [fillBatch, made] at fills
            simp_all
          · simp only [fillBatch, made, full, ↓reduceIte] at fills
            obtain ⟨rfl, short⟩ := ih fills
            constructor
            · simp [emitRows, made]
            · right
              rcases short with none | short
              · rw [none, List.append_nil]
                omega
              · exact short

theorem fill_batch_some {size index last : Nat}
    (fills : fillBatch emit size index rows out = (filled, some last)) :
    ∃ front back, rows = front ++ back ∧ last = index + front.length ∧
      filled = out ++ emitRows emit front ∧ emitRows emit front ≠ [] ∧
      filled.length = max size (out.length + 1) := by
  induction rows generalizing index out with
  | nil => simp [fillBatch] at fills
  | cons entry rows ih =>
      obtain ⟨tuple, rid⟩ := entry
      cases made : emit tuple with
      | none =>
          simp only [fillBatch, made] at fills
          obtain ⟨front, back, rfl, rfl, rfl, brings, length⟩ := ih fills
          refine ⟨(tuple, rid) :: front, back, rfl, by simp; omega, ?_, ?_, length⟩
          · simp [emitRows, made]
          · simpa [emitRows, made] using brings
      | some row =>
          by_cases full : size ≤ (out ++ [(row, rid)]).length
          · simp only [fillBatch, made, full, ↓reduceIte, Prod.mk.injEq, Option.some.injEq] at fills
            obtain ⟨rfl, rfl⟩ := fills
            refine ⟨[(tuple, rid)], rows, rfl, rfl,
              by simp [emitRows, made], by simp [emitRows, made], ?_⟩
            simp only [List.length_append, List.length_singleton] at full ⊢
            omega
          · simp only [fillBatch, made, full, ↓reduceIte] at fills
            obtain ⟨front, back, rfl, rfl, rfl, brings, length⟩ := ih fills
            refine ⟨(tuple, rid) :: front, back, rfl, by simp; omega, ?_, ?_, ?_⟩
            · simp [emitRows, made]
            · simp [emitRows, made]
            · simp only [List.length_append, List.length_singleton] at full length ⊢
              omega

@[simp] theorem keep_none (after : child.State) (batch : Batch Row RID) :
    (BufferedState.keep after batch none).pending = [] := by
  simp [BufferedState.pending, BufferedState.keep]

theorem keep_some (after : child.State) {batch : Batch Row RID} {front back : List (Row × RID)}
    (together : batch.rids.length = batch.tuples.length) (split : batch.rows = front ++ back)
    (brings : front ≠ []) :
    (BufferedState.keep after batch (some front.length)).pending = back := by
  have positive : 0 < front.length := List.length_pos_of_ne_nil brings
  have total : batch.tuples.length = front.length + back.length := by
    rw [← Batch.rows_length together, split, List.length_append]
  by_cases inside : front.length < batch.tuples.length
  · have rows : batch.tuples.zip batch.rids = front ++ back := split
    simp [BufferedState.pending, BufferedState.keep, inside, rows, positive.ne']
  · have none : back = [] := List.length_eq_zero_iff.mp (by omega)
    simp [BufferedState.pending, BufferedState.keep, inside, none]

theorem emit_brings {rows : List (Row × RID)} (brings : emitRows emit rows ≠ []) : rows ≠ [] := by
  rintro rfl
  exact brings rfl

/-- What the loop of the filter answers, its leftover in `out`. The batch is within
the size unless the leftover alone is too long, or just as long as the size with a
row behind it. -/
theorem filter_fetch_spec {size fuel : Nat} (positive : 0 < size) {state : child.State}
    (delivers : child.Delivers strict state rest) (enough : rest.length < fuel)
    (out : List (Row × RID)) :
    ∃ batch after left, filterFetch emit child size fuel state out = some (batch, after) ∧
      child.Delivers strict after.child left ∧ left.length ≤ rest.length ∧
      Answers (out ++ emitRows emit rest) batch (after.leftover emit ++ emitRows emit left) ∧
      (batch.tuples.length ≤ size ↔ out.length < size ∨ out.length = size ∧
      emitRows emit rest = []) := by
  induction fuel generalizing state rest out with
  | zero => omega
  | succ fuel ih =>
      obtain ⟨batch, after, left, answered, right, -, delivers⟩ := delivers_next delivers positive
      cases more : batch.status with
      | false =>
          obtain ⟨rfl, -, rfl⟩ := answers_last right more
          refine ⟨handOut out, .keep after batch none, [],
              by simp [filterFetch, answered, more], delivers, le_rfl, ?_, ?_⟩
          · apply answers_pushed <;> simp [BufferedState.leftover, emitRows]
          · simp only [hand_out_length, emitRows, List.filterMap_nil, and_true]
            omega
      | true =>
          have shorter := answers_shorter right more
          cases fills : fillBatch emit size 0 batch.rows out with
          | mk filled last =>
              cases last with
              | none =>
                  obtain ⟨rfl, short⟩ := fill_batch_none fills
                  obtain ⟨answer, final, last, fetched, delivers, length, right', within⟩ :=
                    ih delivers (by omega) (out ++ emitRows emit batch.rows)
                  refine ⟨answer, final, last,
                      by simp [filterFetch, answered, more, fills,
                        fetched], delivers, by omega, ?_, ?_⟩
                  · rwa [right.split, emit_append, ← List.append_assoc]
                  · rw [within, right.split, emit_append]
                    rcases short with none | short
                    · simp [none]
                    · simp only [List.length_append] at short ⊢
                      constructor
                      · exact fun _ => Or.inl (by omega)
                      · exact fun _ => Or.inl short
              | some last =>
                  obtain ⟨front, back, split, rfl, rfl, brings, length⟩ := fill_batch_some fills
                  have kept := keep_some after right.together split (emit_brings brings)
                  refine ⟨handOut (out ++ emitRows emit front),
                      .keep after batch (some front.length), left, ?_, delivers,
                    by omega, ?_, ?_⟩
                  · rw [← hand_out_brings (by simp [brings])]
                    simp [filterFetch, answered, more, fills]
                  · apply answers_pushed
                    · simp [right.split, split, emit_append, BufferedState.leftover, kept]
                    · intro empty
                      exact absurd (List.append_eq_nil_iff.mp empty).2 brings
                  · rw [hand_out_length, length, right.split, split, emit_append, emit_append]
                    simp only [List.append_eq_nil_iff, brings, false_and, and_false, or_false]
                    omega

theorem filter_next_spec {fuel size : Nat} (predicate : Tuple → Option Bool) (positive : 0 < size)
    (delivers : child.Delivers strict state.child rest)
    (enough : rest.length < fuel) :
    ∃ batch after left, (filterExecutor fuel predicate child).next state size =
      some (batch, after) ∧ child.Delivers strict after.child left ∧ left.length ≤ rest.length ∧
      Answers (state.leftover (keepRow predicate) ++ emitRows (keepRow predicate) rest) batch
        (after.leftover (keepRow predicate) ++ emitRows (keepRow predicate) left) ∧
      (batch.tuples.length ≤ size ↔ (state.leftover (keepRow predicate)).length < size ∨
        (state.leftover (keepRow predicate)).length = size ∧
        emitRows (keepRow predicate) rest = []) :=
  filter_fetch_spec positive delivers enough _

theorem filter_delivers {fuel : Nat} (predicate : Tuple → Option Bool) (state : BufferedState child)
    (delivers : child.Delivers strict state.child rest) (enough : rest.length < fuel) :
    (filterExecutor fuel predicate child).Delivers false state
      (state.leftover (keepRow predicate) ++ emitRows (keepRow predicate) rest) := by
  apply delivers_of fun (now : BufferedState child) rows =>
    ∃ rest, child.Delivers strict now.child rest ∧ rest.length < fuel ∧
      rows = now.leftover (keepRow predicate) ++ emitRows (keepRow predicate) rest
  · rintro now _ size ⟨rest, delivers, enough, rfl⟩ positive
    obtain ⟨batch, after, left, answered, delivers, length, right, -⟩ :=
      filter_next_spec predicate positive delivers enough
    exact ⟨batch, after, _, answered, right, (by simp), left, delivers, by omega, rfl⟩
  · exact ⟨rest, delivers, enough, rfl⟩

theorem project_rows (expressions : List (Tuple → Value)) (rows : List (Row × RID)) :
    (emitRows (projectRow expressions) rows).length = rows.length := by
  simp [emitRows, projectRow]

/-- One call of a projection. The batch is within the size as that of a filter is;
over a child whose batches are within their size nothing is kept back. -/
theorem project_next_spec {size : Nat} (expressions : List (Tuple → Value)) (positive : 0 < size)
    (delivers : child.Delivers strict state.child rest) :
    ∃ batch after left, (projectionExecutor expressions child).next state size =
      some (batch, after) ∧ child.Delivers strict after.child left ∧ left.length ≤ rest.length ∧
      Answers (state.leftover (projectRow expressions) ++ emitRows (projectRow expressions) rest)
        batch
        (after.leftover (projectRow expressions) ++ emitRows (projectRow expressions) left) ∧
      (batch.tuples.length ≤ size ↔ (state.leftover (projectRow expressions)).length < size ∨
        (state.leftover (projectRow expressions)).length = size ∧
        emitRows (projectRow expressions) rest = []) ∧
      (strict = true → state.pending = [] → after.pending = []) := by
  obtain ⟨batch, after, left, answered, right, within, delivers⟩ := delivers_next delivers positive
  generalize emits : projectRow expressions = emit
  have total (rows : List (Row × RID)) : (emitRows emit rows).length = rows.length := by
    rw [← emits]
    exact project_rows expressions rows
  cases more : batch.status with
  | false =>
      obtain ⟨rfl, -, rfl⟩ := answers_last right more
      refine ⟨handOut (state.leftover emit), .keep after batch none, [], ?_, delivers,
        le_rfl, ?_, ?_, ?_⟩
      · simp [projectionExecutor, projectFetch, answered, more, emits]
      · apply answers_pushed <;> simp [BufferedState.leftover, emitRows]
      · simp only [hand_out_length, emitRows, List.filterMap_nil, and_true]
        omega
      · simp
  | true =>
      have shorter := answers_shorter right more
      have brings : batch.rows ≠ [] := by
        intro none
        have length := Batch.rows_length right.together
        rw [none] at length
        exact right.brings more (List.length_eq_zero_iff.mp length.symm)
      have some : emitRows emit rest ≠ [] := by
        intro none
        have length := total rest
        rw [none, right.split, List.length_append] at length
        have positive : 0 < batch.rows.length := List.length_pos_of_ne_nil brings
        simp only [List.length_nil] at length
        omega
      cases fills : fillBatch emit size 0 batch.rows (state.leftover emit) with
      | mk filled last =>
          refine ⟨handOut filled, .keep after batch last, left, ?_, delivers, by omega, ?_⟩
          · simp [projectionExecutor, projectFetch, answered, more, emits, fills]
          cases last with
          | none =>
              obtain ⟨rfl, short⟩ := fill_batch_none fills
              have made : emitRows emit batch.rows ≠ [] := by
                intro none
                have length := total batch.rows
                rw [none] at length
                exact brings (List.length_eq_zero_iff.mp length.symm)
              have short := short.resolve_left made
              refine ⟨?_, ?_, by simp⟩
              · apply answers_pushed
                · simp [right.split, BufferedState.leftover, emitRows]
                · intro empty
                  exact absurd (List.append_eq_nil_iff.mp empty).2 made
              · simp only [hand_out_length, some, and_false, or_false]
                simp only [List.length_append] at short ⊢
                omega
          | some last =>
              obtain ⟨front, back, split, rfl, rfl, made, length⟩ := fill_batch_some fills
              rw [Nat.zero_add]
              have kept := keep_some after right.together split (emit_brings made)
              refine ⟨?_, ?_, ?_⟩
              · apply answers_pushed
                · simp [right.split, split, emit_append, BufferedState.leftover, kept]
                · intro empty
                  exact absurd (List.append_eq_nil_iff.mp empty).2 made
              · simp only [hand_out_length, length, some, and_false, or_false]
                omega
              · intro strict none
                -- the size is reached with the last row: the child's batch is no larger
                have small := within strict
                have room := Batch.rows_length right.together
                simp only [BufferedState.leftover, none, show emitRows emit [] = [] from rfl,
                  List.nil_append, List.length_nil, total] at length
                rw [split, List.length_append] at room
                have last : back = [] := List.length_eq_zero_iff.mp (by omega)
                exact kept.trans last

theorem projection_delivers (expressions : List (Tuple → Value)) (state : BufferedState child)
    (delivers : child.Delivers strict state.child rest)
    (nothing : strict = true → state.pending = []) :
    (projectionExecutor expressions child).Delivers strict state
      (state.leftover (projectRow expressions) ++ emitRows (projectRow expressions) rest) := by
  apply delivers_of fun (now : BufferedState child) rows =>
    ∃ rest, child.Delivers strict now.child rest ∧ (strict = true → now.pending = []) ∧
    rows = now.leftover (projectRow expressions) ++ emitRows (projectRow expressions) rest
  · rintro now _ size ⟨rest, delivers, nothing, rfl⟩ positive
    obtain ⟨batch, after, left, answered, delivers, -, right, within, keeps⟩ :=
      project_next_spec expressions positive delivers
    refine ⟨batch, after, _, answered, right, fun strict => within.mpr (Or.inl ?_), left, delivers,
      fun strict => keeps strict (nothing strict), rfl⟩
    simpa [BufferedState.leftover, nothing strict, emitRows] using positive
  · exact ⟨rest, delivers, nothing, rfl⟩

end Buffered

/-! ### Limit -/

theorem answers_nothing : Answers ([] : List (Row × RID)) ⟨false, [], []⟩ [] :=
  ⟨rfl, by simp, (by simp), rfl⟩

/-- The child is asked for no more rows than the limit leaves, and answers with no more. -/
def LimitKeeps (count size : Nat) {child : Executor} (state : LimitState child) : Prop :=
  state.emitted < count → ∀ batch after,
    child.next state.child (min size (count - state.emitted)) = some (batch, after) →
      batch.tuples.length ≤ min size (count - state.emitted)

theorem limit_next_spec {strict : Bool} (count : Nat) {size : Nat} (positive : 0 < size)
    {child : Executor} {state : LimitState child} {rest : List (Row × RID)}
    (delivers : child.Delivers strict state.child rest) (keeps : LimitKeeps count size state) :
    ∃ batch after left, (limitExecutor count child).next state size = some (batch, after) ∧
      child.Delivers strict after.child left ∧
      Answers (rest.take (count - state.emitted)) batch (left.take (count - after.emitted)) ∧
      batch.tuples.length ≤ size := by
  by_cases ended : count ≤ state.emitted
  · refine ⟨⟨false, [], []⟩, state, rest, by simp [limitExecutor, ended], delivers, ?_, by simp⟩
    simpa [Nat.sub_eq_zero_of_le ended] using answers_nothing
  · have remaining : 0 < min size (count - state.emitted) := by omega
    obtain ⟨batch, after, left, answered, right, -, delivers⟩ := delivers_next delivers remaining
    have small := keeps (by omega) batch after answered
    have goes : ¬ (count ≤ state.emitted ∨ size = 0) := by omega
    cases more : batch.status with
    | false =>
        obtain ⟨rfl, -, rfl⟩ := answers_last right more
        refine ⟨batch, { state with child := after }, [], ?_, delivers,
          by simpa using right, by omega⟩
        simp [limitExecutor, goes, answered, more]
    | true =>
        have whole : ¬ min size (count - state.emitted) < batch.tuples.length := by omega
        have length := Batch.rows_length right.together
        have brings := right.brings more
        refine ⟨⟨!batch.tuples.isEmpty, batch.tuples, batch.rids⟩,
          { child := after, emitted := state.emitted + batch.tuples.length }, left,
            ?_, delivers, ?_, by dsimp only; omega⟩
        · simp only [limitExecutor, goes, ↓reduceIte, answered, Option.bind_eq_bind,
            Option.bind_some, more, whole]
          rfl
        · have cut : count - state.emitted - batch.rows.length =
              count - (state.emitted + batch.tuples.length) :=
            by omega
          refine ⟨right.together, ?_, fun _ => brings, ?_⟩
          · have positive : 0 < rest.length := by
              have shorter := answers_shorter right more
              omega
            simp only [Bool.not_eq_false', List.isEmpty_iff, brings, List.take_eq_nil_iff,
              false_iff, not_or]
            exact ⟨by omega, List.ne_nil_of_length_pos positive⟩
          · rw [right.split, List.take_append, List.take_of_length_le (by omega), cut]
            rfl

theorem limit_delivers (count : Nat) {child : Executor} (state : LimitState child)
    {rest : List (Row × RID)} (delivers : child.Delivers true state.child rest) :
    (limitExecutor count child).Delivers true state (rest.take (count - state.emitted)) := by
  apply delivers_of fun (now : LimitState child) rows =>
    ∃ rest, child.Delivers true now.child rest ∧ rows = rest.take (count - now.emitted)
  · rintro now _ size ⟨rest, delivers, rfl⟩ positive
    have keeps : LimitKeeps count size now := by
      intro goes batch after answered
      obtain ⟨batch', after', left, answered', -, within, -⟩ :=
        delivers_next delivers (by omega : 0 < min size (count - now.emitted))
      obtain ⟨rfl, rfl⟩ : batch = batch' ∧ after = after' := by simpa [answered] using answered'
      exact within rfl
    obtain ⟨batch, after, left, answered, delivers, right, within⟩ :=
      limit_next_spec count positive delivers keeps
    exact ⟨batch, after, _, answered, right, fun _ => within, left, delivers, rfl⟩
  · exact ⟨rest, delivers, rfl⟩

section Cursors
variable {child : Executor} {strict : Bool} {cursor : Cursor child} {rows : List Row}

/-- The rows that a cursor over a child comes to, one after the other. -/
def Comes (strict : Bool) (cursor : Cursor child) (rows : List Row) : Prop :=
  ∃ rest, child.Delivers strict cursor.state rest ∧
    rows = cursor.tuples.drop cursor.index ++ rest.map Prod.fst

theorem started_comes {started : child.State} {rows : List (Row × RID)}
    (delivers : child.Delivers strict started rows) :
    Comes strict { state := started } (rows.map Prod.fst) :=
  ⟨rows, delivers, rfl⟩

theorem tuples_drop {row : Row} (found : cursor.tuples[cursor.index]? = some row) :
    cursor.tuples.drop cursor.index = row :: cursor.tuples.drop (cursor.index + 1) := by
  obtain ⟨inside, rfl⟩ := List.getElem?_eq_some_iff.mp found
  exact List.drop_eq_getElem_cons inside

theorem tuples_over (past : cursor.tuples[cursor.index]? = none) :
    cursor.tuples.drop cursor.index = [] :=
  List.drop_of_length_le (List.getElem?_eq_none_iff.mp past)

/-- A child's batch of yes, as the rows in front of those to come. -/
theorem batch_comes {rest left : List (Row × RID)} {batch : Batch Row RID}
    (right : Answers rest batch left) :
    rest.map Prod.fst = batch.tuples ++ left.map Prod.fst := by
  rw [right.split, List.map_append, Batch.map_rows right.together]

theorem advance_spec (comes : Comes strict cursor rows) :
    ∃ after, cursor.advance = some (rows.head?, after) ∧ Comes strict after rows.tail := by
  obtain ⟨rest, delivers, rfl⟩ := comes
  unfold Cursor.advance
  cases found : cursor.tuples[cursor.index]? with
  | some row =>
      rw [tuples_drop found]
      exact ⟨_, rfl, rest, delivers, rfl⟩
  | none =>
      rw [tuples_over found]
      obtain ⟨batch, after, left, answered, right, -, delivers⟩ :=
        delivers_next delivers (by decide : 0 < BUSTUB_BATCH_SIZE)
      rw [answered]
      cases more : batch.status with
      | false =>
          obtain ⟨rfl, none, rfl⟩ := answers_last right more
          have nothing : batch.tuples = [] := by
            rw [← Batch.map_rows right.together, none, List.map_nil]
          exact ⟨{ state := after, tuples := [], index := cursor.index },
              by simp [more, nothing], [], delivers, by simp⟩
      | true =>
          have split := batch_comes right
          cases brought : batch.tuples with
          | nil => exact absurd brought (right.brings more)
          | cons row others =>
              rw [brought] at split
              exact ⟨{ state := after, tuples := row :: others, index := 1 },
                  by simp [more, brought, split], left, delivers,
                by simp [split]⟩

/-- Asking a child until it says no leads from one state to another. -/
inductive Drained (child : Executor) : child.State → child.State → Prop where
  | last {state final : child.State} {batch : Batch Row RID} :
      child.next state BUSTUB_BATCH_SIZE = some (batch, final) → batch.status = false →
        Drained child state final
  | more {state after final : child.State} {batch : Batch Row RID} :
      child.next state BUSTUB_BATCH_SIZE = some (batch, after) → batch.status = true →
        Drained child after final → Drained child state final

theorem drained_of {state : child.State} {rest : List (Row × RID)}
    (delivers : child.Delivers strict state rest) : ∃ final, Drained child state final := by
  induction bound : rest.length using Nat.strong_induction_on generalizing state rest with
  | _ length ih =>
      obtain ⟨batch, after, left, answered, right, -, delivers⟩ :=
        delivers_next delivers (by decide : 0 < BUSTUB_BATCH_SIZE)
      cases more : batch.status with
      | false => exact ⟨after, .last answered more⟩
      | true =>
          have shorter := answers_shorter right more
          obtain ⟨final, drained⟩ := ih left.length (by omega) delivers rfl
          exact ⟨final, .more answered more drained⟩

theorem drained_reached {state final : child.State} (drained : Drained child state final)
    (reached : child.Reached state) : child.Reached final := by
  induction drained with
  | last answered _ => exact reached.next answered
  | more answered _ _ ih => exact ih (reached.next answered)

theorem fetch_right_spec (fuel : Nat) {final : child.State} (comes : Comes strict cursor rows)
    (drained : Drained child cursor.state final) :
    ∃ after, cursor.fetchNextRightTuple (fuel + 2) = some (rows.head?, after) ∧
      Comes strict after rows.tail ∧ (rows = [] → after.state = final) ∧
      (rows ≠ [] → Drained child after.state final) := by
  obtain ⟨rest, delivers, rfl⟩ := comes
  unfold Cursor.fetchNextRightTuple
  cases found : cursor.tuples[cursor.index]? with
  | some row =>
      rw [tuples_drop found]
      exact ⟨_, rfl, ⟨rest, delivers, rfl⟩, (by simp), fun _ => drained⟩
  | none =>
      rw [tuples_over found]
      obtain ⟨batch, after, left, answered, right, -, delivers⟩ :=
        delivers_next delivers (by decide : 0 < BUSTUB_BATCH_SIZE)
      rw [answered]
      cases drained with
      | last answered' last =>
          obtain ⟨rfl, rfl⟩ : batch = _ ∧ after = final := by simpa [answered] using answered'
          obtain ⟨rfl, none, rfl⟩ := answers_last right last
          have nothing : batch.tuples = [] := by
            rw [← Batch.map_rows right.together, none, List.map_nil]
          exact ⟨{ state := after, tuples := [], index := cursor.index }, by simp [last, nothing],
            ⟨[], delivers, by simp⟩,
            fun _ => rfl, fun some => absurd rfl some⟩
      | more answered' more drained =>
          obtain ⟨rfl, rfl⟩ : batch = _ ∧ after = _ := by simpa [answered] using answered'
          have split := batch_comes right
          cases brought : batch.tuples with
          | nil => exact absurd brought (right.brings more)
          | cons row others =>
              rw [brought] at split
              refine ⟨{ state := after, tuples := row :: others, index := 1 }, ?_,
                  ⟨left, delivers, by simp [split]⟩, ?_,
                fun _ => drained⟩
              · simp [more, brought, split, Cursor.fetchNextRightTuple]
              · simp [split]

end Cursors

section Handing
variable {State : Type} {Rest : State → List (Row × RID) → Nat → Prop} {size work : Nat}
  {rest out : List (Row × RID)} {result : Option (List (Row × RID) × State)}

/-- The loop of a join's `Next` has pushed the first rows of `rest` behind those in
`out`: as many as there is room for, or all. `Rest` says what a state has still to
hand out and in how many rounds. -/
def HandsOut (Rest : State → List (Row × RID) → Nat → Prop) (size : Nat) (rest : List (Row × RID))
    (work : Nat) (out : List (Row × RID)) (result : Option (List (Row × RID) × State)) : Prop :=
  ∃ made after left further, result = some (out ++ made, after) ∧ rest = made ++ left ∧
    Rest after left further ∧ further ≤ work ∧ (out ++ made).length ≤ size ∧
      (size ≤ (out ++ made).length ∨ left = [])

theorem hands_none {state : State} (holds : Rest state rest work) (room : out.length ≤ size)
    (ends : size ≤ out.length ∨ rest = []) : HandsOut Rest size rest work out (some (out, state)) :=
  ⟨[], state, rest, work, by simp, rfl, holds, le_rfl, by simpa using room, by simpa using ends⟩

theorem hands_more {more : Nat} (hands : HandsOut Rest size rest work out result)
    (bound : work ≤ more) :
    HandsOut Rest size rest more out result := by
  obtain ⟨made, after, left, further, found, split, holds, length, right⟩ := hands
  exact ⟨made, after, left, further, found, split, holds, by omega, right⟩

theorem hands_row (row : Row × RID) (hands : HandsOut Rest size rest work (out ++ [row]) result) :
    HandsOut Rest size (row :: rest) work out result := by
  obtain ⟨made, after, left, further, found, rfl, holds, right⟩ := hands
  exact ⟨row :: made, after, left, further, by simp [found], rfl, holds, by simpa using right⟩

theorem room_for (row : Row × RID) (room : ¬ size ≤ out.length) : (out ++ [row]).length ≤ size := by
  simp only [List.length_append, List.length_singleton]
  omega

theorem hands_answers (hands : HandsOut Rest size rest work [] result) (positive : 0 < size) :
    ∃ made after left further, result = some (made, after) ∧ Answers rest (handOut made) left ∧
      (handOut made).tuples.length ≤ size ∧ Rest after left further ∧ further ≤ work := by
  obtain ⟨made, after, left, further, found, split, holds, length, within, ends⟩ := hands
  refine ⟨made, after, left, further, found, answers_pushed split fun empty =>
    ?_, by simpa using within, holds, length⟩
  rcases ends with full | none
  · simp only [empty, List.append_nil, List.length_nil] at full
    omega
  · exact none

end Handing

section Padding
variable {rightSchema : Schema} {left : Row}

/-- The joined tuple as the types of its columns say it, were there a NULL for each of them. -/
def joinTuple (rightSchema : Schema) (left : Row) (right : Option Row) : Row × RID :=
  (⟨left.values ++ (right.map Row.values).getD (rightSchema.map fun typeId => ⟨typeId, none⟩),
    RID.invalid⟩, RID.invalid)

def HasNulls (rightSchema : Schema) : Prop := ∀ typeId ∈ rightSchema, typeId ≠ .timestamp ∧
    typeId ≠ .vector

instance (rightSchema : Schema) : Decidable (HasNulls rightSchema) :=
  inferInstanceAs (Decidable (∀ typeId ∈ rightSchema, _))

theorem null_made {typeId : TypeId} (named : typeId ≠ .timestamp ∧ typeId ≠ .vector) :
    getNullValueByType typeId = some ⟨typeId, none⟩ := by
  cases typeId <;> simp_all [getNullValueByType]

theorem nulls_made (nulls : HasNulls rightSchema) :
    rightSchema.mapM getNullValueByType = some (rightSchema.map fun typeId => ⟨typeId, none⟩) := by
  induction rightSchema with
  | nil => rfl
  | cons typeId rest ih =>
      have others := ih fun typeId member => nulls typeId (List.mem_cons_of_mem _ member)
      rw [List.mapM_cons, null_made (nulls typeId List.mem_cons_self), others]
      rfl

theorem nulls_missing (missing : ¬ HasNulls rightSchema) :
    rightSchema.mapM getNullValueByType = none := by
  induction rightSchema with
  | nil => exact absurd (fun typeId member => by cases member) missing
  | cons typeId rest ih =>
      rw [List.mapM_cons]
      by_cases named : typeId ≠ .timestamp ∧ typeId ≠ .vector
      · have others : ¬ HasNulls rest := fun nulls => missing fun other member => by
          rcases List.mem_cons.mp member with rfl | member
          · exact named
          · exact nulls other member
        rw [null_made named, ih others]
        rfl
      · have throws : getNullValueByType typeId = none := by
          cases typeId <;> simp_all [getNullValueByType]
        rw [throws]
        rfl

theorem build_matched (right : Row) :
    buildJoinTuple rightSchema left (some right) = some (joinTuple rightSchema left (some right)) :=
      rfl

theorem build_padded (nulls : HasNulls rightSchema) :
    buildJoinTuple rightSchema left none = some (joinTuple rightSchema left none) := by
  simp [buildJoinTuple, joinTuple, nulls_made nulls]

theorem build_throws (missing : ¬ HasNulls rightSchema) :
    buildJoinTuple rightSchema left none = none := by
  simp [buildJoinTuple, nulls_missing missing]

end Padding

section NestedLoops
variable {strict : Bool} {outer inner : Executor} {plan : NestedLoopJoinPlan}
  {state : NestedLoopState outer inner}

def NestedLoopJoinPlan.accepts (plan : NestedLoopJoinPlan) (left right : Row) : Bool :=
  holds (plan.predicate left.values right.values)

/-- Where none of the right rows is accepted beside the left one, it can be padded. -/
def NestedLoopJoinPlan.Pads (plan : NestedLoopJoinPlan) (left : Row) (rights : List Row) : Prop :=
  plan.joinType = .left → (∀ right ∈ rights, plan.accepts left right = false) →
    HasNulls plan.rightSchema

theorem pads_tail {left right : Row} {rights : List Row} (pads : plan.Pads left (right :: rights))
    (refused : plan.accepts left right = false) : plan.Pads left rights := by
  intro joins none
  refine pads joins fun other member => ?_
  rcases List.mem_cons.mp member with rfl | member
  · exact refused
  · exact none other member

def paddedRows (joinType : JoinType) (rightSchema : Schema) (current : Row) (found : Bool) :
    List (Row × RID) :=
  if !found && joinType = .left then [joinTuple rightSchema current none] else []

/-- What is still joined to a left row: the right rows to come that match, or the
padded row where none matched. -/
def joinedRows (plan : NestedLoopJoinPlan) (current : Row) : Bool → List Row → List (Row × RID)
  | found, [] => paddedRows plan.joinType plan.rightSchema current found
  | found, row :: rows =>
      if holds (plan.predicate current.values row.values) then
        joinTuple plan.rightSchema current (some row) :: joinedRows plan current true rows
      else joinedRows plan current found rows

/-- The joined rows of left rows to come, and the rounds that they take. The
right side is started for each of them from where the last one has left it. -/
inductive Joined (strict : Bool) (plan : NestedLoopJoinPlan) (inner : Executor) :
    inner.State → List Row → List (Row × RID) → Nat → Prop where
  | nil (state : inner.State) : Joined strict plan inner state [] [] 0
  | cons {state started final : inner.State} {left : Row} {lefts : List Row}
      {rows rest : List (Row × RID)}
    {work : Nat} :
      inner.init state = some started → inner.Delivers strict started rows →
        Drained inner started final → plan.Pads left (rows.map Prod.fst) →
          Joined strict plan inner final lefts rest work →
            Joined strict plan inner state (left :: lefts)
            (joinedRows plan left false (rows.map Prod.fst) ++ rest)
            (rows.length + 2 + work)

/-- What a state of the join has still to hand out. -/
structure ToJoin (strict : Bool) (plan : NestedLoopJoinPlan) (state : NestedLoopState outer inner)
    (rest : List (Row × RID)) (work : Nat) : Prop where
  between : state.currentLeft = none → ∃ lefts, Comes strict state.left lefts ∧
    Joined strict plan inner state.right.state lefts rest work
  inside : ∀ current, state.currentLeft = some current → ∃ lefts rows final later further,
    Comes strict state.left lefts ∧ Comes strict state.right rows ∧
      Drained inner state.right.state final ∧
        (state.currentMatchFound = false → plan.Pads current rows) ∧
      Joined strict plan inner final lefts later further ∧
        rest = joinedRows plan current state.currentMatchFound rows ++ later ∧
          work = rows.length + 1 + further

theorem nested_loop_fetch_spec (fuel : Nat) {size rounds work : Nat} {rest out : List (Row × RID)}
    (toJoin : ToJoin strict plan state rest work) (enough : work < rounds)
    (room : out.length ≤ size) :
    HandsOut (ToJoin strict plan) size rest work out
      (nestedLoopFetch (fuel + 2) plan outer inner size rounds state out) := by
  induction rounds generalizing state rest work out with
  | zero => omega
  | succ rounds ih =>
      unfold nestedLoopFetch
      by_cases full : size ≤ out.length
      · simpa [full] using hands_none toJoin room (Or.inl full)
      · simp only [full, ↓reduceIte]
        cases current : state.currentLeft with
        | none =>
            obtain ⟨lefts, comes, joined⟩ := toJoin.between current
            obtain ⟨cursor, advanced, comes⟩ := advance_spec comes
            rw [advanced]
            cases joined with
            | nil =>
                apply hands_none _ room (Or.inr rfl)
                exact ⟨fun _ => ⟨[], comes, .nil _⟩, (by simp)⟩
            | @cons _ started final left lefts rows rest further begun delivers drained
                pads joined =>
                have moved : ToJoin strict plan
                  { left := cursor, right := { state := started }, currentLeft := some left,
                    currentMatchFound := false }
                  (joinedRows plan left false (rows.map Prod.fst) ++ rest)
                  (rows.length + 1 + further) := by
                  refine ⟨(by simp), fun now same => ?_⟩
                  obtain rfl := Option.some.inj same
                  exact ⟨lefts, rows.map Prod.fst, final, rest, further, comes,
                      started_comes delivers, drained, fun _ => pads, joined, rfl, by simp⟩
                have hands := ih moved (by omega) room
                simpa [begun] using hands_more hands (by omega)
        | some row =>
            obtain ⟨lefts, rows, final, later, further, comes, rights, drained, pads,
                joined, rfl, rfl⟩ :=
              toJoin.inside row current
            obtain ⟨cursor, fetched, rights, ends, goes⟩ := fetch_right_spec fuel rights drained
            rw [fetched]
            cases rows with
            | nil =>
                -- the left row is done
                have moved :
                    ToJoin strict plan { state with right := cursor, currentLeft := none }
                      later further := by
                  refine ⟨fun _ => ⟨lefts, comes, ?_⟩, (by simp)⟩
                  rw [show cursor.state = final from ends rfl]
                  exact joined
                cases padded : !state.currentMatchFound && decide (plan.joinType = .left) with
                | true =>
                    have unmatched : state.currentMatchFound = false ∧ plan.joinType = .left := by
                      simpa using padded
                    have nulls := pads unmatched.1 unmatched.2 fun right member => by cases member
                    have hands := hands_row (joinTuple plan.rightSchema row none)
                      (ih moved (by simp at enough; omega) (room_for _ full))
                    simpa [joinedRows, paddedRows, padded, build_padded nulls] using
                      hands_more hands (Nat.le_add_left _ _)
                | false =>
                    have hands := ih moved (by simp at enough; omega) room
                    simpa [joinedRows, paddedRows, padded] using hands_more hands
                      (Nat.le_add_left _ _)
            | cons found rows =>
                have drained := goes (List.cons_ne_nil found rows)
                simp only [List.length_cons] at enough ⊢
                have moved (matched : Bool) (pads : matched = false → plan.Pads row rows) :
                    ToJoin strict plan
                    { left := state.left, right := cursor, currentLeft := some row,
                      currentMatchFound := matched }
                    (joinedRows plan row matched rows ++ later) (rows.length + 1 + further) := by
                  refine ⟨(by simp), fun now same => ?_⟩
                  obtain rfl := Option.some.inj same
                  exact ⟨lefts, rows, final, later, further, comes, rights, drained, pads,
                    joined, rfl, rfl⟩
                cases matched : holds (plan.predicate row.values found.values) with
                | true =>
                    have hands := hands_row (joinTuple plan.rightSchema row (some found))
                      (ih (moved true fun found => by cases found) (by omega) (room_for _ full))
                    simpa [joinedRows, matched, current, build_matched] using hands_more
                      hands (by omega)
                | false =>
                    have hands := ih
                      (moved state.currentMatchFound fun unmatched =>
                        pads_tail (pads unmatched) matched) (by omega) room
                    simpa [joinedRows, matched, current] using hands_more hands (by omega)

theorem nested_loop_delivers {fuel work : Nat} {rest : List (Row × RID)}
    (toJoin : ToJoin strict plan state rest work) (enough : work < fuel + 2) :
    (nestedLoopJoinExecutor (fuel + 2) plan outer inner).Delivers true state rest := by
  apply delivers_of fun (now : NestedLoopState outer inner) rest =>
    ∃ work, ToJoin strict plan now rest work ∧ work < fuel + 2
  · rintro now rest size ⟨work, toJoin, enough⟩ positive
    have room : ([] : List (Row × RID)).length ≤ size := Nat.zero_le size
    obtain ⟨made, after, left, further, fetched, right, within, toJoin, length⟩ :=
      hands_answers (nested_loop_fetch_spec fuel toJoin enough room) positive
    exact ⟨handOut made, after, left, by simp [nestedLoopJoinExecutor, fetched], right, fun _ =>
      within, further, toJoin,
      by omega⟩
  · exact ⟨work, toJoin, enough⟩

end NestedLoops

section HashJoins
variable {strict : Bool} {outer inner : Executor} {plan : HashJoinPlan}
  {state : HashJoinState outer inner}

/-- What is joined to a left row, given its matches to come. -/
def matchedRows (plan : HashJoinPlan) (current : Row) (found : Bool) : List Row → List (Row × RID)
  | [] => paddedRows plan.joinType plan.rightSchema current found
  | rows => rows.map fun row => joinTuple plan.rightSchema current (some row)

def lookedUp (plan : HashJoinPlan) (table : HashJoinTable) (left : Row) : List (Row × RID) :=
  matchedRows plan left false (plan.lookup table left)

def matchRounds (plan : HashJoinPlan) (table : HashJoinTable) (left : Row) :
    Nat := (plan.lookup table left).length + 2

/-- A left row that finds none in the table can be padded. -/
def HashJoinPlan.Pads (plan : HashJoinPlan) (table : HashJoinTable) (left : Row) : Prop :=
  plan.joinType = .left → plan.lookup table left = [] → HasNulls plan.rightSchema

/-- What a state of the join has still to hand out. -/
structure ToMatch (strict : Bool) (plan : HashJoinPlan) (state : HashJoinState outer inner)
    (rest : List (Row × RID)) (work : Nat) : Prop where
  between : state.currentLeft = none → ∃ lefts, Comes strict state.left lefts ∧
    (∀ left ∈ lefts, plan.Pads state.hashTable left) ∧
    rest = lefts.flatMap (lookedUp plan state.hashTable) ∧
      work = (lefts.map (matchRounds plan state.hashTable)).sum
  inside : ∀ current, state.currentLeft = some current → ∃ lefts, Comes strict state.left lefts ∧
    (∀ left ∈ lefts, plan.Pads state.hashTable left) ∧
    (state.currentMatchFound = false → plan.joinType = .left → state.currentMatches = [] →
      HasNulls plan.rightSchema) ∧
    rest = matchedRows plan current state.currentMatchFound state.currentMatches ++
      lefts.flatMap (lookedUp plan state.hashTable) ∧
    work = state.currentMatches.length + 1 + (lefts.map (matchRounds plan state.hashTable)).sum

theorem matched_cons (current row : Row) (found : Bool) (rows : List Row) :
    matchedRows plan current found (row :: rows) =
      joinTuple plan.rightSchema current (some row) :: matchedRows plan current true rows := by
  cases rows <;> simp [matchedRows, paddedRows]

theorem hash_join_fetch_spec {size round work : Nat} {rest out : List (Row × RID)}
    (toMatch : ToMatch strict plan state rest work) (enough : work < round)
    (room : out.length ≤ size) :
    HandsOut (ToMatch strict plan) size rest work out
      (hashJoinFetch plan outer inner size round state out) := by
  induction round generalizing state rest work out with
  | zero => omega
  | succ round ih =>
      unfold hashJoinFetch
      by_cases full : size ≤ out.length
      · simpa [full] using hands_none toMatch room (Or.inl full)
      · simp only [full, ↓reduceIte]
        cases current : state.currentLeft with
        | none =>
            obtain ⟨lefts, comes, pads, rfl, rfl⟩ := toMatch.between current
            obtain ⟨cursor, advanced, comes⟩ := advance_spec comes
            rw [advanced]
            cases lefts with
            | nil =>
                apply hands_none _ room (Or.inr rfl)
                exact ⟨fun _ => ⟨[], comes, pads, rfl, rfl⟩, (by simp)⟩
            | cons left lefts =>
                simp only [List.map_cons, List.sum_cons, matchRounds] at enough ⊢
                have moved : ToMatch strict plan
                  { state with
                    left := cursor, currentLeft := some left, currentMatches :=
                      plan.lookup state.hashTable left,
                    currentMatchFound := false }
                  (lookedUp plan state.hashTable left ++
                    lefts.flatMap (lookedUp plan state.hashTable))
                  ((plan.lookup state.hashTable left).length + 1 +
                    (lefts.map (matchRounds plan state.hashTable)).sum) := by
                  refine ⟨(by simp), fun now same => ?_⟩
                  obtain rfl := Option.some.inj same
                  exact ⟨lefts, comes, fun left member => pads left (List.mem_cons_of_mem _ member),
                    fun _ joins none => pads left List.mem_cons_self joins none, rfl, rfl⟩
                have hands := ih moved (by omega) room
                exact hands_more hands (by omega)
        | some row =>
            obtain ⟨lefts, comes, others, pads, rfl, rfl⟩ := toMatch.inside row current
            cases matched : state.currentMatches with
            | cons found rows =>
                simp only [matched, List.length_cons] at enough ⊢
                have moved : ToMatch strict plan { state with
                    currentMatches := rows
                    currentMatchFound := true }
                    (matchedRows plan row true rows ++
                      lefts.flatMap (lookedUp plan state.hashTable))
                    (rows.length + 1 + (lefts.map (matchRounds plan state.hashTable)).sum) := by
                  refine ⟨fun none => by simp [current] at none, fun now same => ?_⟩
                  obtain rfl : row = now := by simpa [current] using same
                  exact ⟨lefts, comes, others, (fun found => by cases found), rfl, rfl⟩
                have hands := hands_row (joinTuple plan.rightSchema row (some found))
                  (ih moved (by omega) (room_for _ full))
                rw [matched_cons]
                simpa [current, build_matched] using hands_more hands (by omega)
            | nil =>
                simp only [matched, List.length_nil] at enough ⊢
                have moved : ToMatch strict plan { state with currentLeft := none }
                  (lefts.flatMap (lookedUp plan state.hashTable))
                    (lefts.map (matchRounds plan state.hashTable)).sum :=
                  ⟨fun _ => ⟨lefts, comes, others, rfl, rfl⟩, (by simp)⟩
                cases padded : !state.currentMatchFound && decide (plan.joinType = .left) with
                | true =>
                    have unmatched : state.currentMatchFound = false ∧ plan.joinType = .left := by
                      simpa using padded
                    have nulls := pads unmatched.1 unmatched.2 matched
                    have hands := hands_row (joinTuple plan.rightSchema row none)
                      (ih moved (by omega) (room_for _ full))
                    simpa [matchedRows, paddedRows, padded, matched, build_padded nulls] using
                      hands_more hands (Nat.le_add_left _ _)
                | false =>
                    have hands := ih moved (by omega) room
                    simpa [matchedRows, paddedRows, padded, matched] using hands_more hands
                      (Nat.le_add_left _ _)

theorem hash_join_delivers {fuel work : Nat} {rest : List (Row × RID)}
    (toMatch : ToMatch strict plan state rest work) (enough : work < fuel) :
    (hashJoinExecutor fuel plan outer inner).Delivers true state rest := by
  apply delivers_of fun (now : HashJoinState outer inner) rest =>
    ∃ work, ToMatch strict plan now rest work ∧ work < fuel
  · rintro now rest size ⟨work, toMatch, enough⟩ positive
    have room : ([] : List (Row × RID)).length ≤ size := Nat.zero_le size
    obtain ⟨made, after, left, further, fetched, right, within, toMatch, length⟩ :=
      hands_answers (hash_join_fetch_spec toMatch enough room) positive
    exact ⟨handOut made, after, left,
        by simp [hashJoinExecutor, fetched], right, fun _ => within, further, toMatch, by omega⟩
  · exact ⟨work, toMatch, enough⟩

end HashJoins

end BusTub
