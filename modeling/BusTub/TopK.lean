import BusTub.CountMinSketch
import BusTub.LexicographicOrder

/-!
`CountMinSketch::TopK`: the candidates by their counts, the greatest first, as many as are
asked for. The counts are never too small, so that what is left out is no more frequent
than the counts of what is kept.
-/

namespace BusTub.CountMinSketch

open TransitionSystem (Reachable graph)
open Listing LexicographicOrder

section Code
variable {Key : Type}

def topK (std : StdSort (Key × Nat)) (columns : Key → Nat → Option Nat) (sketch : CountMinSketch)
    (k : Nat) (candidates : List Key) : Option (List (Key × Nat)) := do
  let result ← candidates.mapM fun item => (sketch.count (columns item)).map fun count =>
    (item, count)
  let sorted := std.sort (fun a b => b.2 < a.2) result
  return if k < sorted.length then sorted.take k else sorted

end Code

section Candidates
variable {Key : Type} {hash : Key → UInt64} {object : ObjectId} {stream : List Key}
  {sketch : CountMinSketch} {objects : Objects} {state : Tracked Key}

/-- A count is at least the number of the item, and at most that of all items. -/
theorem count_within [DecidableEq Key] (here : objects object = some sketch)
    (inPlace : InPlace hash object stream sketch) (noOverflow : NoOverflow hash sketch stream)
    (item : Key) :
    ∃ result, sketch.count (sketch.columnOf hash objects item) = some result ∧
      stream.count item ≤ result ∧ result ≤ stream.length := by
  have rows : List.range sketch.depth ≠ [] := by
    have deep := inPlace.deep
    simp [Nat.ne_of_gt deep]
  -- every row has the item's own insertions, and no more than all of them
  have within : ∀ i ∈ List.range sketch.depth,
      stream.count item ≤ tally hash sketch.width stream i (ownColumn hash sketch.width item i) %
        2 ^ 32 ∧ tally hash sketch.width stream i (ownColumn hash sketch.width item i) % 2 ^ 32 ≤
          stream.length := by
    intro i member
    rw [Nat.mod_eq_of_lt (noOverflow i (List.mem_range.mp member) _ (own_column_lt inPlace item i))]
    exact ⟨count_le_tally, tally_le_length⟩
  have low : stream.count item ≤ 2 ^ 32 - 1 := by
    have first := (within 0 (List.mem_range.mpr inPlace.deep)).1
    omega
  obtain ⟨above, below⟩ := least_between rows within low
  exact ⟨_, count_grid inPlace.counters (fun i inside => own_columns here inPlace inside)
    fun i _ => own_column_lt inPlace item i, above, below⟩

/-- Comparing by the second parts is a weak order on any list. -/
theorem counts_weak (list : List (Key × Nat)) :
    WeakOn (· ∈ list) (fun a b : Key × Nat => decide (b.2 < a.2)) := by
  constructor
  · intro a b _ _ before
    simp only [decide_eq_true_eq] at before
    simp only [decide_eq_false_iff_not]
    omega
  · intro a b c _ _ _ before
    simp only [decide_eq_true_eq] at before ⊢
    omega

/-- The greatest come first, and each of the others is no greater than any of them. -/
theorem kept_greatest {k : Nat} {list : List (Key × Nat)}
    (sorted : list.Pairwise fun a b => b.2 ≤ a.2) :
    (list.take k).Pairwise (fun a b => b.2 ≤ a.2) ∧
      ∀ entry ∈ list.take k, ∀ other ∈ list.drop k, other.2 ≤ entry.2 := by
  rw [← List.take_append_drop k list, List.pairwise_append] at sorted
  exact ⟨sorted.1, sorted.2.2⟩

/-- In every state that a program reaches without moves, as long as no counter overflows: `TopK`
brings as many candidates as are asked for, the greatest counts first, each count between the
number of the item and that of all items; and no candidate that is left out was inserted more
often than any of the counts says. -/
theorem top_k_keeps_frequent [DecidableEq Key]
    (reached : Reachable (· = Tracked.start) (graph (Tracked.step hash)) state)
    (here : state.objects object = some sketch)
    (noOverflow : NoOverflow hash sketch (state.streams object)) (std : StdSort (Key × Nat))
    (k : Nat) (candidates : List Key) :
    ∃ result rest, sketch.topK std (sketch.columnOf hash state.objects) k candidates = some result ∧
      result.length = min k candidates.length ∧ (result.map Prod.fst ++ rest).Perm candidates ∧
      (result.Pairwise fun first later => later.2 ≤ first.2) ∧
      (∀ entry ∈ result, (state.streams object).count entry.1 ≤ entry.2 ∧
        entry.2 ≤ (state.streams object).length) ∧
      ∀ item ∈ rest, ∀ entry ∈ result, (state.streams object).count item ≤ entry.2 := by
  have inPlace := reached_counts reached object sketch here
  have within := count_within here inPlace noOverflow
  choose count counted bounds using within
  have made : (candidates.mapM fun item =>
      (sketch.count (sketch.columnOf hash state.objects item)).map
      fun count => (item, count)) = some (candidates.map fun item => (item, count item)) :=
    map_m_each fun item _ => by rw [counted item, Option.map_some]
  obtain ⟨pairs, isPairs⟩ : ∃ pairs, pairs = candidates.map fun item => (item, count item) :=
    ⟨_, rfl⟩
  obtain ⟨list, isList⟩ : ∃ list, list = std.sort (fun a b : Key × Nat => b.2 < a.2) pairs :=
    ⟨_, rfl⟩
  have perm : list.Perm pairs := isList ▸ std.perm _ pairs (counts_weak pairs)
  have sorted : list.Pairwise fun a b => b.2 ≤ a.2 := by
    have ordered := isList ▸ std.sorted _ pairs (counts_weak pairs)
    exact ordered.imp fun front => by simpa using front
  have length : list.length = candidates.length := by rw [perm.length_eq, isPairs, List.length_map]
  have each : ∀ entry ∈ list, entry.2 = count entry.1 := by
    intro entry member
    have inside := perm.mem_iff.mp member
    rw [isPairs] at inside
    obtain ⟨item, -, rfl⟩ := List.mem_map.mp inside
    rfl
  have brings : sketch.topK std (sketch.columnOf hash state.objects) k candidates =
      some (list.take k) := by
    simp only [topK, made, Option.bind_eq_bind, Option.bind_some,
      Option.pure_def, ← isPairs, ← isList]
    split
    · rfl
    · rw [List.take_of_length_le (by omega)]
  obtain ⟨first, others⟩ := @kept_greatest Key k list sorted
  refine ⟨list.take k, (list.drop k).map Prod.fst, brings, ?_, ?_, first, ?_, ?_⟩
  · rw [List.length_take, length]
  · rw [← List.map_append, List.take_append_drop]
    have items := perm.map Prod.fst
    rw [isPairs, List.map_map] at items
    simpa [Function.comp_def] using items
  · intro entry member
    rw [each entry (List.mem_of_mem_take member)]
    exact bounds entry.1
  · intro item member entry kept
    obtain ⟨other, left, rfl⟩ := List.mem_map.mp member
    have above := (bounds other.1).1
    rw [← each other (List.mem_of_mem_drop left)] at above
    exact above.trans (others entry kept other left)

end Candidates

theorem top_of_sevens :
    ∃ result rest, ((mergedState.objects 0).get merged_sketch_found).topK (mergeSorting _)
    (((mergedState.objects 0).get merged_sketch_found).columnOf UInt64.ofNat mergedState.objects) 1
      [8, 7] =
      some result ∧ result.length = 1 ∧ (result.map Prod.fst ++ rest).Perm [8, 7] ∧
      (result.Pairwise fun first later => later.2 ≤ first.2) ∧
      (∀ entry ∈ result, (mergedState.streams 0).count entry.1 ≤ entry.2 ∧
        entry.2 ≤ (mergedState.streams 0).length) ∧
      ∀ item ∈ rest, ∀ entry ∈ result, (mergedState.streams 0).count item ≤ entry.2 := by
  have reached : Reachable (· = Tracked.start) (graph (Tracked.step UInt64.ofNat)) mergedState :=
    ⟨_, mergedSevens, rfl, TransitionSystem.run_of_fold (Option.some_get _).symm⟩
  have here : mergedState.objects 0 = some ((mergedState.objects 0).get merged_sketch_found) :=
    (Option.some_get _).symm
  have stream : mergedState.streams 0 = [7, 7] := by decide +kernel
  have small : NoOverflow UInt64.ofNat ((mergedState.objects 0).get merged_sketch_found)
    (mergedState.streams 0) := by
    intro i _ j _
    refine Nat.lt_of_le_of_lt tally_le_length ?_
    rw [stream]
    decide
  exact top_k_keeps_frequent reached here small (mergeSorting _) 1 [8, 7]

end BusTub.CountMinSketch
