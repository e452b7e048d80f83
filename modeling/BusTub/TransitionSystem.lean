import Mathlib.Logic.Relation

/-!
Labelled transition systems: finite runs, what a run preserves, and what one
system's run says about another's. Nothing here names a program. A system is
a step relation; a program whose step is a partial function uses the graph of
that function.
-/

namespace BusTub.TransitionSystem

variable {State Label : Type}

inductive Run (Step : State → Label → State → Prop) : State → List Label → State → Prop where
  | refl (state : State) : Run Step state [] state
  | next {before middle after : State} {label : Label} {rest : List Label} :
      Step before label middle → Run Step middle rest after → Run Step before (label :: rest) after

def Reachable (Init : State → Prop) (Step : State → Label → State → Prop) (state : State) : Prop :=
  ∃ start labels, Init start ∧ Run Step start labels state

def graph (step : State → Label → Option State) (before : State) (label : Label)
    (after : State) : Prop :=
  step before label = some after

def guarded (Allowed : State → Label → Prop) (Step : State → Label → State → Prop) (before : State)
    (label : Label) (after : State) : Prop :=
  Allowed before label ∧ Step before label after

def Along (Step : State → Label → State → Prop) (Holds : State → Prop) (start : State)
    (labels : List Label) : Prop :=
  ∀ front back state, labels = front ++ back → Run Step start front state → Holds state

section Invariants
variable {Step : State → Label → State → Prop} {Init Inv : State → Prop} {labels : List Label}
  {label : Label} {step : State → Label → Option State} {before after : State}
  {first middle last : State} {front back : List Label} {state : State}
  {Allowed : State → Label → Prop}

theorem run_append (head : Run Step first front middle) (tail : Run Step middle back last) :
    Run Step first (front ++ back) last := by
  induction head with
  | refl _ => exact tail
  | next step _ ih => exact Run.next step (ih tail)

theorem run_snoc {front : List Label} (head : Run Step first front middle)
    (step : Step middle label last) :
    Run Step first (front ++ [label]) last :=
  run_append head (Run.next step (Run.refl last))

theorem run_split {first last : State} (run : Run Step first (front ++ back) last) :
    ∃ middle, Run Step first front middle ∧ Run Step middle back last := by
  induction front generalizing first with
  | nil => exact ⟨first, Run.refl first, run⟩
  | cons label rest ih =>
      cases run with
      | next step later =>
          obtain ⟨middle, front, back⟩ := ih later
          exact ⟨middle, Run.next step front, back⟩

theorem run_snoc_split {first last : State} {front : List Label}
    (run : Run Step first (front ++ [label]) last) : ∃ middle, Run Step first front middle ∧
    Step middle label last := by
  obtain ⟨middle, head, tail⟩ := run_split run
  cases tail with
  | next step rest =>
      cases rest
      exact ⟨middle, head, step⟩

/-- Where a step leaves no choice, the labels determine the run. -/
theorem run_unique
    (single : ∀ before label after other, Step before label after → Step before label other →
      after = other)
    {first last other : State} (run : Run Step first labels last)
    (second : Run Step first labels other) : last = other := by
  induction run with
  | refl _ =>
      cases second
      rfl
  | next step _ ih =>
      cases second with
      | next step' later =>
          obtain rfl := single _ _ _ _ step step'
          exact ih later

theorem run_preserves
    (keeps : ∀ before label after, Inv before → Step before label after → Inv after)
    {before after : State} {labels : List Label} (run : Run Step before labels after)
    (start : Inv before) : Inv after := by
  induction run with
  | refl _ => exact start
  | next step _ ih => exact ih (keeps _ _ _ start step)

theorem reachable_preserves (Inv : State → Prop) (initial : ∀ state, Init state → Inv state)
    (keeps : ∀ before label after, Inv before → Step before label after → Inv after)
    (reached : Reachable Init Step state) : Inv state := by
  obtain ⟨start, labels, first, run⟩ := reached
  exact run_preserves keeps run (initial start first)

/-- What the states of a run keep when each step keeps it from states that meet a condition. -/
theorem along_preserves {Allowed : State → Prop}
    (keeps : ∀ before label after, Allowed before → Inv before →
      Step before label after → Inv after)
    {start : State} (allowed : Along Step Allowed start labels)
    (first : Inv start) :
    Along Step Inv start labels := by
  intro front back state split run
  subst split
  induction run with
  | refl _ => exact first
  | @next before middle _ label rest step _ ih =>
      have here : Allowed before := allowed [] _ before rfl (Run.refl before)
      refine ih (keeps before label middle here first step) fun front' back' state split run => ?_
      exact allowed (label :: front') back' state
        (by rw [List.cons_append, split, List.cons_append])
        (Run.next step run)

theorem reachable_start (first : Init state) : Reachable Init Step state :=
  ⟨state, [], first, Run.refl state⟩

theorem reachable_step (reached : Reachable Init Step before) (step : Step before label after) :
    Reachable Init Step after := by
  obtain ⟨start, labels, first, run⟩ := reached
  exact ⟨start, labels ++ [label], first, run_snoc run step⟩

theorem run_mono {Other : State → Label → State → Prop}
    (more : ∀ before label after, Step before label after → Other before label after)
    (run : Run Step before labels after) :
    Run Other before labels after := by
  induction run with
  | refl state => exact Run.refl state
  | next step _ ih => exact Run.next (more _ _ _ step) ih

/-- A run of some of the steps of a partial function, with one more at its end. -/
theorem run_snoc_iff {Narrow : State → Label → State → Prop}
    (among : ∀ before label after, Narrow before label after → step before label = some after)
    {first before after : State} (run : Run (graph step) first labels before)
    (taken : step before label = some after) :
    Run Narrow first (labels ++ [label]) after ↔ Run Narrow first labels before ∧
      Narrow before label after := by
  constructor
  · intro narrow
    obtain ⟨middle, head, last⟩ := run_snoc_split narrow
    have single (before : State) (label : Label) (after other : State)
        (first : step before label = some after)
        (second : step before label = some other) : after = other :=
          Option.some.inj (first.symm.trans second)
    obtain rfl := run_unique single (run_mono among head) run
    exact ⟨head, last⟩
  · rintro ⟨head, last⟩
    exact run_snoc head last

theorem guarded_snoc_iff {first before after : State} (run : Run (graph step) first labels before)
    (taken : step before label = some after) :
    Run (guarded Allowed (graph step)) first (labels ++ [label]) after ↔
      Run (guarded Allowed (graph step)) first labels before ∧ Allowed before label := by
  rw [run_snoc_iff (fun _ _ _ both => both.2) run taken]
  exact and_congr_right fun _ => and_iff_left taken

theorem along_cons {before middle : State} {rest : List Label}
    (taken : step before label = some middle) :
    Along (graph step) Inv before (label :: rest) ↔ Inv before ∧
      Along (graph step) Inv middle rest := by
  constructor
  · intro along
    refine ⟨along [] _ before rfl (Run.refl before), fun front back state split run => ?_⟩
    exact along (label :: front) back state (by rw [split, List.cons_append]) (Run.next taken run)
  · rintro ⟨first, along⟩ front back state split run
    cases run with
    | refl _ => exact first
    | next step later =>
        obtain ⟨rfl, rfl⟩ := List.cons.inj split
        obtain rfl := Option.some.inj (taken.symm.trans step)
        exact along _ back state rfl later

/-- Where a step keeps a property exactly when it meets a condition, the property
holds all along a run exactly when every step of it meets the condition. -/
theorem along_guarded_iff {Holds : State → Prop}
    (keeps : ∀ before label after, Inv before → step before label = some after → Inv after)
    (decides : ∀ before label after, Inv before → Holds before → step before label = some after →
      (Holds after ↔ Allowed before label))
    {start last : State} (run : Run (graph step) start labels last)
    (first : Inv start)
    (holds : Holds start) :
    Along (graph step) Holds start labels ↔
      Run (guarded Allowed (graph step)) start labels last := by
  induction run with
  | refl state =>
      refine ⟨fun _ => Run.refl state, fun _ front back other split run => ?_⟩
      obtain ⟨rfl, rfl⟩ := List.append_eq_nil_iff.mp split.symm
      cases run
      exact holds
  | @next before middle last label rest taken later ih =>
      have onward := ih (keeps before label middle first taken)
      have decided := decides before label middle first holds taken
      rw [along_cons taken]
      constructor
      · rintro ⟨-, along⟩
        have kept : Holds middle := along [] rest middle rfl (Run.refl middle)
        exact Run.next ⟨decided.mp kept, taken⟩ ((onward kept).mp along)
      · intro allowed
        cases allowed with
        | next step after =>
            obtain rfl := Option.some.inj (taken.symm.trans step.2)
            exact ⟨holds, (onward (decided.mpr step.1)).mpr after⟩

/-- A system whose every step another one can match runs as the other does. -/
theorem run_follows {Other : Type} {Match : Other → Label → Other → Prop}
    {Related : State → Other → Prop}
    (follows : ∀ before label after other, Related before other → Step before label after →
      ∃ next, Match other label next ∧ Related after next) (run : Run Step before labels after)
    {other : Other}
    (related : Related before other) :
    ∃ last, Run Match other labels last ∧ Related after last := by
  induction run generalizing other with
  | refl state => exact ⟨other, Run.refl other, related⟩
  | next step _ ih =>
      obtain ⟨next, matched, related'⟩ := follows _ _ _ _ related step
      obtain ⟨last, later, final⟩ := ih related'
      exact ⟨last, Run.next matched later, final⟩

/-- A partial step function runs its labels one after the other. -/
theorem run_of_fold
    (done : labels.foldlM step before = some after) : Run (graph step) before labels after := by
  induction labels generalizing before with
  | nil =>
      obtain rfl : before = after := by simpa using done
      exact Run.refl before
  | cons label rest ih =>
      simp only [List.foldlM_cons, Option.bind_eq_bind, Option.bind_eq_some_iff] at done
      obtain ⟨middle, first, later⟩ := done
      exact Run.next first (ih later)

theorem run_of_guarded_fold {allowed : State → Label → Bool} {step : State → Label → Option State}
    {before after : State} {labels : List Label} (done : labels.foldlM (fun state label =>
      if allowed state label then step state label else none)
      before = some after) :
    Run (guarded (fun state label => allowed state label) (graph step)) before labels after := by
  induction labels generalizing before with
  | nil =>
      obtain rfl : before = after := by simpa using done
      exact Run.refl before
  | cons label rest ih =>
      simp only [List.foldlM_cons, Option.bind_eq_bind, Option.bind_eq_some_iff] at done
      obtain ⟨middle, first, later⟩ := done
      split at first
      · exact Run.next ⟨‹_›, first⟩ (ih later)
      · cases first

end Invariants

end BusTub.TransitionSystem
