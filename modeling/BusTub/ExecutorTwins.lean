import BusTub.Executors

/-!
Every executor over children that restart: a second `Init` leads to the answers
that the first one leads to, but for what a filter or a projection still holds of
its last child batch, and for the order in which the aggregation's map lists its
groups. Each executor has a relation on its states that a call of `Next` keeps:
the same variables, and child states that answer alike.
-/

namespace BusTub

open BatchSource

section Buffered
variable {child : Executor} {emit : Row → Option Row} {first second : BufferedState child}

structure SameBuffer (emit : Row → Option Row) (first second : BufferedState child) : Prop where
  leftover : first.leftover emit = second.leftover emit
  child : child.Paired first.child second.child

theorem filter_fetch_same {size fuel : Nat} {first second : child.State}
    (paired : child.Paired first second) (out : List (Row × RID)) :
    Twins (SameBuffer emit) (filterFetch emit child size fuel first out)
      (filterFetch emit child size fuel second out) := by
  induction fuel generalizing first second out with
  | zero => exact Option.Rel.none
  | succ fuel ih =>
      apply rel_bind (paired_next paired size)
      rintro ⟨batch, after⟩ ⟨_, after'⟩ ⟨rfl, paired⟩
      dsimp only
      split
      · split
        · exact Option.Rel.some ⟨rfl, rfl, paired⟩
        · exact ih paired _
      · exact Option.Rel.some ⟨rfl, rfl, paired⟩

theorem project_fetch_same {size : Nat} (same : SameBuffer emit first second) :
    Twins (SameBuffer emit) (projectFetch emit child size first)
      (projectFetch emit child size second) := by
  unfold projectFetch
  rw [same.leftover]
  apply rel_bind (paired_next same.child size)
  rintro ⟨batch, after⟩ ⟨_, after'⟩ ⟨rfl, paired⟩
  dsimp only
  split
  · exact Option.Rel.some ⟨rfl, rfl, paired⟩
  · exact Option.Rel.some ⟨rfl, rfl, paired⟩

theorem buffered_init (restarts : child.Restarts) (reached : child.Reached first.child)
    (reached' : child.Reached second.child)
    (leftover : first.leftover emit = second.leftover emit) :
    Option.Rel (SameBuffer emit) ((child.init first.child).map fun started =>
      { first with child := started })
      ((child.init second.child).map fun started => { second with child := started }) := by
  apply rel_map (paired_init restarts reached reached')
  intro started begun paired
  exact ⟨leftover, paired⟩

end Buffered

/-! ### Limit -/

structure SameLimit {child : Executor} (first second : LimitState child) : Prop where
  emitted : first.emitted = second.emitted
  child : child.Paired first.child second.child

theorem limit_next_same {limit : Nat} {child : Executor} {first second : LimitState child}
    (same : SameLimit first second) (size : Nat) :
    Twins SameLimit ((limitExecutor limit child).next first size)
      ((limitExecutor limit child).next second size) := by
  simp only [limitExecutor, same.emitted]
  split
  · exact Option.Rel.some ⟨rfl, same⟩
  · apply rel_bind (paired_next same.child _)
    rintro ⟨batch, after⟩ ⟨_, after'⟩ ⟨rfl, paired⟩
    dsimp only
    split
    · exact Option.Rel.some ⟨rfl, rfl, paired⟩
    · exact Option.Rel.some ⟨rfl, rfl, paired⟩

/-! ### Joins -/

structure SameCursor {child : Executor} (first second : Cursor child) : Prop where
  tuples : first.tuples = second.tuples
  index : first.index = second.index
  state : child.Paired first.state second.state

section Cursors
variable {child : Executor} {first second : Cursor child}

theorem started_same {started begun : child.State} (paired : child.Paired started begun) :
    SameCursor { state := started } { state := begun } :=
  ⟨rfl, rfl, paired⟩

theorem advance_same (same : SameCursor first second) :
    Twins SameCursor first.advance second.advance := by
  unfold Cursor.advance
  rw [same.tuples, same.index]
  split
  · exact Option.Rel.some ⟨rfl, rfl, rfl, same.state⟩
  · apply rel_bind (paired_next same.state _)
    rintro ⟨batch, after⟩ ⟨_, after'⟩ ⟨rfl, paired⟩
    dsimp only
    split
    · split
      · exact Option.Rel.none
      · exact Option.Rel.some ⟨rfl, rfl, rfl, paired⟩
    · exact Option.Rel.some ⟨rfl, rfl, rfl, paired⟩

theorem fetch_same {fuel : Nat} (same : SameCursor first second) :
    Twins SameCursor (first.fetchNextRightTuple fuel) (second.fetchNextRightTuple fuel) := by
  induction fuel generalizing first second with
  | zero => exact Option.Rel.none
  | succ fuel ih =>
      unfold Cursor.fetchNextRightTuple
      rw [same.tuples, same.index]
      split
      · exact Option.Rel.some ⟨rfl, rfl, rfl, same.state⟩
      · apply rel_bind (paired_next same.state _)
        rintro ⟨batch, after⟩ ⟨_, after'⟩ ⟨rfl, paired⟩
        dsimp only
        split
        · exact ih ⟨rfl, rfl, paired⟩
        · exact Option.Rel.some ⟨rfl, rfl, rfl, paired⟩

end Cursors

section NestedLoops
variable {outer inner : Executor} {plan : NestedLoopJoinPlan}

/-- Between two left rows the right side only has to be a state that was reached:
it is started again before it is asked. -/
structure SameNestedLoop (first second : NestedLoopState outer inner) : Prop where
  left : SameCursor first.left second.left
  current : first.currentLeft = second.currentLeft
  right : first.currentLeft.isSome → SameCursor first.right second.right
  found : first.currentLeft.isSome → first.currentMatchFound = second.currentMatchFound
  reached : inner.Reached first.right.state
  reached' : inner.Reached second.right.state

theorem nested_loop_fetch_same (restarts : inner.Restarts) {fuel size rounds : Nat}
    {first second : NestedLoopState outer inner} (same : SameNestedLoop first second)
    (out : List (Row × RID)) :
    Twins SameNestedLoop (nestedLoopFetch fuel plan outer inner size rounds first out)
      (nestedLoopFetch fuel plan outer inner size rounds second out) := by
  induction rounds generalizing first second out with
  | zero => exact Option.Rel.none
  | succ rounds ih =>
      unfold nestedLoopFetch
      split
      · exact Option.Rel.some ⟨rfl, same⟩
      · rw [same.current]
        cases current : second.currentLeft with
        | none =>
            apply rel_bind (advance_same same.left)
            rintro ⟨row, cursor⟩ ⟨_, cursor'⟩ ⟨rfl, moved⟩
            cases row with
            | none =>
                exact Option.Rel.some ⟨rfl, moved, rfl, (by simp), (by simp), same.reached,
                  same.reached'⟩
            | some row =>
                apply rel_bind (paired_init restarts same.reached same.reached')
                intro started begun paired
                apply ih
                exact ⟨moved, rfl, fun _ => started_same paired, fun _ => rfl,
                  paired.left, paired.right⟩
        | some row =>
            have inside : first.currentLeft.isSome := by simp [same.current, current]
            apply rel_bind (fetch_same (same.right inside))
            rintro ⟨found, cursor⟩ ⟨_, cursor'⟩ ⟨rfl, moved⟩
            cases found with
            | none =>
                simp only [same.found inside]
                split
                · cases buildJoinTuple plan.rightSchema row none with
                  | none => exact Option.Rel.none
                  | some padded =>
                      apply ih
                      exact ⟨same.left, rfl, (by simp), (by simp), moved.state.left,
                        moved.state.right⟩
                · apply ih
                  exact ⟨same.left, rfl, (by simp), (by simp), moved.state.left, moved.state.right⟩
            | some found =>
                dsimp only
                split
                · cases buildJoinTuple plan.rightSchema row (some found) with
                  | none => exact Option.Rel.none
                  | some joined =>
                      apply ih
                      exact ⟨same.left, rfl, fun _ => moved, fun _ => rfl, moved.state.left,
                        moved.state.right⟩
                · apply ih
                  exact ⟨same.left, rfl, fun _ => moved, fun _ => same.found inside,
                      moved.state.left, moved.state.right⟩

end NestedLoops

section HashJoins
variable {outer inner : Executor} {plan : HashJoinPlan}

structure SameHashJoin (first second : HashJoinState outer inner) : Prop where
  left : SameCursor first.left second.left
  table : first.hashTable = second.hashTable
  current : first.currentLeft = second.currentLeft
  matched : first.currentLeft.isSome → first.currentMatches = second.currentMatches
  found : first.currentLeft.isSome → first.currentMatchFound = second.currentMatchFound
  reached : inner.Reached first.right
  reached' : inner.Reached second.right

theorem hash_join_fetch_same {size rounds : Nat} {first second : HashJoinState outer inner}
    (same : SameHashJoin first second) (out : List (Row × RID)) :
    Twins SameHashJoin (hashJoinFetch plan outer inner size rounds first out)
      (hashJoinFetch plan outer inner size rounds second out) := by
  induction rounds generalizing first second out with
  | zero => exact Option.Rel.none
  | succ rounds ih =>
      unfold hashJoinFetch
      split
      · exact Option.Rel.some ⟨rfl, same⟩
      · rw [same.current]
        cases current : second.currentLeft with
        | none =>
            apply rel_bind (advance_same same.left)
            rintro ⟨row, cursor⟩ ⟨_, cursor'⟩ ⟨rfl, moved⟩
            cases row with
            | none =>
                exact Option.Rel.some ⟨rfl, moved, same.table, rfl, (by simp), (by simp),
                  same.reached, same.reached'⟩
            | some row =>
                simp only [same.table]
                apply ih
                exact ⟨moved, rfl, rfl, fun _ => rfl, fun _ => rfl, same.reached, same.reached'⟩
        | some row =>
            have inside : first.currentLeft.isSome := by simp [same.current, current]
            simp only [same.matched inside]
            cases second.currentMatches with
            | cons found rest =>
                dsimp only
                cases buildJoinTuple plan.rightSchema row (some found) with
                | none => exact Option.Rel.none
                | some joined =>
                    apply ih
                    exact ⟨same.left, same.table, rfl, fun _ => rfl, fun _ => rfl, same.reached,
                      same.reached'⟩
            | nil =>
                simp only [same.found inside]
                split
                · cases buildJoinTuple plan.rightSchema row none with
                  | none => exact Option.Rel.none
                  | some padded =>
                      apply ih
                      exact ⟨same.left, same.table, rfl, (by simp), (by simp), same.reached,
                        same.reached'⟩
                · apply ih
                  exact ⟨same.left, same.table, rfl, (by simp), (by simp), same.reached,
                    same.reached'⟩

end HashJoins

section Reading
variable {child : Executor}

/-- The entries and the cursor; the child is started again before it is asked. -/
structure SameSort (first second : SortState child) : Prop where
  entries : first.entries = second.entries
  cursor : first.cursor = second.cursor
  reached : child.Reached first.child
  reached' : child.Reached second.child

structure SameAggregation (first second : AggregationState child) : Prop where
  iterator : first.ahtIterator = second.ahtIterator
  reached : child.Reached first.child
  reached' : child.Reached second.child

end Reading

end BusTub
