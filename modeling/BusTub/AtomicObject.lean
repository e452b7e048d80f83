import BusTub.TransitionSystem
import Mathlib.Logic.Function.Basic

/-!
Objects that several threads call. An atomic object answers each call at one moment
between the call and its return. A system is linearizable when whatever its threads see
of it could have been seen of the atomic object. Nothing here names a program.
-/

namespace BusTub.AtomicObject

open Function (update)
open TransitionSystem

inductive Event (Thread Call Answer : Type) where
  | called (t : Thread) (call : Call)
  | returned (t : Thread) (answer : Answer)

inductive Status (Call Answer : Type) where
  | idle
  | asked (call : Call)
  | answered (answer : Answer)

structure Shared (Thread State Call Answer : Type) where
  state : State
  status : Thread → Status Call Answer

variable {Thread State Call Answer : Type}

def fresh (state : State) : Shared Thread State Call Answer where
  state := state
  status _ := .idle

variable [DecidableEq Thread]

inductive Step (apply : State → Thread → Call → State × Answer)
    (shared : Shared Thread State Call Answer) :
    Option (Event Thread Call Answer) → Shared Thread State Call Answer → Prop where
  | called (t : Thread) (call : Call) (idle : shared.status t = .idle) :
      Step apply shared (some (.called t call)) ⟨shared.state, update shared.status t (.asked call)⟩
  | takes (t : Thread) (call : Call) (asked : shared.status t = .asked call) :
      Step apply shared none
        ⟨(apply shared.state t call).1,
          update shared.status t (.answered (apply shared.state t call).2)⟩
  | returned (t : Thread) (answer : Answer) (answered : shared.status t = .answered answer) :
      Step apply shared (some (.returned t answer)) ⟨shared.state, update shared.status t .idle⟩

def Linearizable {Real Label : Type} (apply : State → Thread → Call → State × Answer)
    (start : State) (Init : Real → Prop) (Move : Real → Label → Real → Prop)
    (visible : Label → Option (Event Thread Call Answer)) : Prop :=
  ∀ first labels last, Init first → Run Move first labels last →
    ∃ events shared, Run (Step apply) (fresh start) events shared ∧
      events.filterMap id = labels.filterMap visible

def Matched (apply : State → Thread → Call → State × Answer)
    (shared : Shared Thread State Call Answer) (event : Option (Event Thread Call Answer))
    (Then : Shared Thread State Call Answer → Prop) : Prop :=
  ∃ events next, Run (Step apply) shared events next ∧
    events.filterMap id = event.toList ∧ Then next

section Rules
variable {apply : State → Thread → Call →
  State × Answer} {shared next : Shared Thread State Call Answer}
  {event : Option (Event Thread Call Answer)} {Then : Shared Thread State Call Answer → Prop}

theorem matched_still (holds : Then shared) : Matched apply shared none Then :=
  ⟨[], shared, Run.refl shared, rfl, holds⟩

theorem matched_step (step : Step apply shared event next) (holds : Then next) :
    Matched apply shared event Then := by
  refine ⟨[event], next, Run.next step (Run.refl next), ?_, holds⟩
  cases event <;> rfl

theorem linearizable_of_simulation {Real Label : Type} {start : State} {Init : Real → Prop}
    {Move : Real → Label → Real → Prop} {visible : Label → Option (Event Thread Call Answer)}
    (Related : Real → Shared Thread State Call Answer → Prop)
    (initial : ∀ first, Init first → Related first (fresh start))
    (follows : ∀ before label after shared, Related before shared → Move before label after →
      Matched apply shared (visible label) (Related after)) :
    Linearizable apply start Init Move visible := by
  intro first labels last init run
  have related := initial first init
  clear init
  generalize (fresh start : Shared Thread State Call Answer) = shared at related ⊢
  induction run generalizing shared with
  | refl _ => exact ⟨[], shared, Run.refl shared, rfl⟩
  | @next before middle after label rest step _ ih =>
      obtain ⟨events, next, run, seen, related'⟩ := follows before label middle shared related step
      obtain ⟨later, final, run', seen'⟩ := ih next related'
      refine ⟨events ++ later, final, run_append run run', ?_⟩
      rw [List.filterMap_append, seen, seen', List.filterMap_cons]
      cases visible label <;> rfl

end Rules

section Mutex
variable {Pc : Type} {inside : Pc → Bool} {pcs : Thread → Pc} {pc : Pc}
  {before after : Option Thread} {t : Thread}

theorem holder_set (exclusive : ∀ other, inside (pcs other) = true ↔ before = some other)
    (here : inside pc = true ↔ after = some t)
    (others : ∀ other, other ≠ t → (before = some other ↔ after = some other)) :
    ∀ other, inside (update pcs t pc other) = true ↔ after = some other := by
  intro other
  by_cases same : other = t
  · rw [same, Function.update_self]
    exact here
  · rw [Function.update_of_ne same]
    exact (exclusive other).trans (others other same)

theorem holder_takes (exclusive : ∀ other, inside (pcs other) = true ↔ before = some other)
    (free : before = none)
    (enters : inside pc = true) : ∀ other, inside (update pcs t pc other) = true ↔
    some t = some other := by
  refine holder_set exclusive ⟨fun _ => rfl, fun _ => enters⟩ fun other apart => ?_
  rw [free]
  exact ⟨fun none => (by cases none), fun same => absurd (Option.some.inj same).symm apart⟩

theorem holder_leaves (exclusive : ∀ other, inside (pcs other) = true ↔ before = some other)
    (was : inside (pcs t) = true)
    (leaves : inside pc = false) : ∀ other, inside (update pcs t pc other) = true ↔
    none = some other := by
  refine holder_set exclusive ⟨fun still =>
      absurd (leaves.symm.trans still) (by decide), fun none =>
    (by cases none)⟩ fun other apart => ?_
  rw [(exclusive t).mp was]
  exact ⟨fun same => absurd (Option.some.inj same).symm apart, fun none => (by cases none)⟩

theorem holder_stays (exclusive : ∀ other, inside (pcs other) = true ↔ before = some other)
    (same : inside pc = inside (pcs t)) : ∀ other, inside (update pcs t pc other) = true ↔
    before = some other :=
  holder_set exclusive (by rw [same]; exact exclusive t) fun _ _ => Iff.rfl

end Mutex

end BusTub.AtomicObject
