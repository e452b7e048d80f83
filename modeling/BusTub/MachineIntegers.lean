import Mathlib.Algebra.GroupWithZero.Nat
import Mathlib.Algebra.Ring.Int.Defs

/-!
Signed machine integers by the number of their value bits, the sign not counted,
and what a computation on them comes to: a value, an exception, or nothing that
the language defines.
-/

namespace MachineIntegers

inductive Outcome (Error Result : Type) where
  | returned (result : Result)
  | raised (error : Error)
  | undefined
  deriving DecidableEq

namespace Outcome

variable {Error Result Next : Type}

def andThen (first : Outcome Error Result) (next : Result → Outcome Error Next) :
    Outcome Error Next :=
  match first with
  | returned result => next result
  | raised error => raised error
  | undefined => undefined

instance : Monad (Outcome Error) where
  pure := returned
  bind := andThen

@[simp] theorem returned_bind (result : Result) (next : Result → Outcome Error Next) :
    (returned result >>= next) = next result := rfl

@[simp] theorem raised_bind (error : Error) (next : Result → Outcome Error Next) :
    (raised error >>= next) = raised error := rfl

@[simp] theorem undefined_bind (next : Result → Outcome Error Next) :
    ((undefined : Outcome Error Result) >>= next) = undefined := rfl

@[simp] theorem pure_returned (result : Result) :
    (pure result : Outcome Error Result) = returned result := rfl

end Outcome

/-- `number` is one of a type with this many value bits. -/
def Holds (bits : Nat) (number : Int) : Prop := -(2 ^ bits : Nat) ≤ number ∧
    number < (2 ^ bits : Nat)

def Inside (bits : Nat) (number : Int) : Prop := -(2 ^ bits : Nat) < number ∧
    number < (2 ^ bits : Nat)

instance (bits : Nat) (number : Int) : Decidable (Holds bits number) :=
  inferInstanceAs (Decidable (_ ∧ _))

instance (bits : Nat) (number : Int) : Decidable (Inside bits number) :=
  inferInstanceAs (Decidable (_ ∧ _))

def wrap (bits : Nat) (number : Int) : Int := number.bmod (2 ^ (bits + 1))

def compute {Error : Type} (bits : Nat) (number : Int) : Outcome Error Int :=
  if Holds bits number then .returned number else .undefined

theorem inside_iff {bits : Nat} {number : Int} :
    Inside bits number ↔ Holds bits number ∧ number ≠ -(2 ^ bits : Nat) := by
  unfold Inside Holds
  omega

theorem least_holds (bits : Nat) : Holds bits (-(2 ^ bits : Nat)) := by
  have positive := Nat.two_pow_pos bits
  unfold Holds
  omega

theorem Inside.holds {bits : Nat} {number : Int} (inside : Inside bits number) :
    Holds bits number :=
  (inside_iff.mp inside).1

theorem Holds.widen {bits wider : Nat} {number : Int} (holds : Holds bits number)
    (le : bits ≤ wider) :
    Holds wider number := by
  have grows : 2 ^ bits ≤ 2 ^ wider := Nat.pow_le_pow_right (by decide) le
  unfold Holds at *
  omega

theorem Inside.widen {bits wider : Nat} {number : Int} (inside : Inside bits number)
    (le : bits ≤ wider) :
    Inside wider number := by
  have grows : 2 ^ bits ≤ 2 ^ wider := Nat.pow_le_pow_right (by decide) le
  unfold Inside at *
  omega

theorem inside_natAbs {bits : Nat} {number : Int} : Inside bits number ↔
    number.natAbs < 2 ^ bits := by
  unfold Inside
  omega

/-- A conversion leaves what the type holds, and nothing else. -/
theorem wrap_eq_iff {bits : Nat} {number : Int} : wrap bits number = number ↔
    Holds bits number := by
  have positive : 0 < 2 ^ (bits + 1) := Nat.two_pow_pos _
  have size : 2 ^ (bits + 1) = 2 * 2 ^ bits := by rw [Nat.pow_succ, Nat.mul_comm]
  constructor
  · intro same
    have above := @Int.le_bmod number _ positive
    have below := @Int.bmod_lt number _ positive
    have kept : number.bmod (2 ^ (bits + 1)) = number := same
    rw [kept] at above below
    unfold Holds
    omega
  · intro holds
    unfold Holds at holds
    apply Int.bmod_eq_of_le
    · omega
    · omega

theorem wrap_of_holds {bits : Nat} {number : Int} (holds : Holds bits number) :
    wrap bits number = number :=
  wrap_eq_iff.mpr holds

theorem wrap_holds (bits : Nat) (number : Int) : Holds bits (wrap bits number) := by
  have positive : 0 < 2 ^ (bits + 1) := Nat.two_pow_pos _
  have size : 2 ^ (bits + 1) = 2 * 2 ^ bits := by rw [Nat.pow_succ, Nat.mul_comm]
  have above := @Int.le_bmod number _ positive
  have below := @Int.bmod_lt number _ positive
  unfold Holds wrap
  omega

theorem compute_of_holds {Error : Type} {bits : Nat} {number : Int} (holds : Holds bits number) :
    (compute bits number : Outcome Error Int) = .returned number := if_pos holds

theorem compute_overflows {Error : Type} {bits : Nat} {number : Int}
    (overflows : ¬Holds bits number) :
    (compute bits number : Outcome Error Int) = .undefined := if_neg overflows

theorem inside_tdiv {bits : Nat} {left : Int} (right : Int) (inside : Inside bits left) :
    Inside bits (left.tdiv right) := by
  rw [inside_natAbs] at *
  have smaller := Int.natAbs_tdiv_le_natAbs left right
  omega

theorem inside_tmod {bits : Nat} {left : Int} (right : Int) (inside : Inside bits left) :
    Inside bits (left.tmod right) := by
  rw [inside_natAbs] at *
  have smaller := Nat.mod_le left.natAbs right.natAbs
  rw [Int.natAbs_tmod]
  omega

end MachineIntegers
