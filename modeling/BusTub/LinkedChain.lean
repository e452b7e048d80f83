import Mathlib.Data.List.Nodup
import Mathlib.Logic.Function.Basic

/-!
Singly linked chains: what following a link function from an address visits and
where it stops. Nothing here names a program.
-/

namespace BusTub.LinkedChain

variable {Address : Type}

/-- From `start` the links lead through the visited addresses, and then to `stop`. -/
def Chain (link : Address → Option Address) : Address → List Address → Option Address → Prop
  | start, [], stop => link start = stop
  | start, address :: rest, stop => link start = some address ∧ Chain link address rest stop

/-- The last address of a chain. -/
def last (start : Address) (visited : List Address) : Address := visited.getLast?.getD start

@[simp] theorem last_nil (start : Address) : last start [] = start := rfl

@[simp] theorem last_cons (start address : Address) (rest : List Address) :
    last start (address :: rest) = last address rest := by
  cases rest <;> simp [last, List.getLast?_cons]

@[simp] theorem last_append (start : Address) (front back : List Address) :
    last start (front ++ back) = last (last start front) back := by
  induction front generalizing start with
  | nil => rfl
  | cons address front ih => simp [ih]

theorem last_mem (start : Address) (visited : List Address) :
    last start visited ∈ start :: visited := by
  induction visited generalizing start with
  | nil => simp
  | cons address rest ih =>
      rw [last_cons]
      exact List.mem_cons_of_mem _ (ih address)

theorem last_apart (start : Address) (front back : List Address)
    (unique : (start :: (front ++ back)).Nodup)
    (same : last start (front ++ back) = last start front) : back = [] := by
  cases back with
  | nil => rfl
  | cons address back =>
      rw [last_append, last_cons] at same
      rw [← List.cons_append, List.nodup_append] at unique
      exact absurd same.symm (unique.2.2 _ (last_mem start front) _ (last_mem address back))

section Chains
variable {link other : Address → Option Address} {start : Address}
  {front back visited : List Address} {stop : Option Address}

/-- Where a chain goes on behind a part of it. -/
theorem chain_append : Chain link start (front ++ back) stop ↔
    Chain link start front (back.head?.or stop) ∧ Chain link (last start front) back stop := by
  induction front generalizing start with
  | nil => cases back <;> simp [Chain]
  | cons address front ih => simp [Chain, ih, and_assoc]

theorem chain_last (chain : Chain link start visited stop) : link (last start visited) = stop := by
  have split := chain_append.mp (show Chain link start (visited ++ []) stop by simpa using chain)
  exact split.2

/-- Two addresses that follow each other in a chain are linked. -/
theorem chain_next {first second : Address} (chain : Chain link start visited stop)
    (split : start :: visited = front ++ first :: second :: back) : link first = some second := by
  induction visited generalizing start front with
  | nil =>
      have lengths := congrArg List.length split
      simp only [List.length_append, List.length_cons, List.length_nil] at lengths
      omega
  | cons next rest ih =>
      cases front with
      | nil =>
          obtain ⟨rfl, behind⟩ := List.cons.inj split
          obtain ⟨rfl, _⟩ := List.cons.inj behind
          exact chain.1
      | cons head more => exact ih chain.2 (List.cons.inj split).2

theorem chain_target (chain : Chain link start visited stop) :
    ∀ address ∈ visited, ∃ origin, link origin = some address := by
  induction visited generalizing start with
  | nil => simp
  | cons first rest ih =>
      intro address member
      rcases List.mem_cons.mp member with rfl | member
      · exact ⟨start, chain.1⟩
      · exact ih chain.2 address member

/-- The links of a chain that ends lead nowhere else. -/
theorem chain_closed {address next : Address} (chain : Chain link start visited none)
    (member : address ∈ start :: visited) (target : link address = some next) : next ∈ visited := by
  induction visited generalizing start with
  | nil =>
      rw [List.mem_singleton.mp member, show link start = none from chain] at target
      cases target
  | cons first rest ih =>
      rcases List.mem_cons.mp member with rfl | member
      · rw [Option.some.inj (target.symm.trans chain.1)]
        exact List.mem_cons_self
      · exact List.mem_cons_of_mem first (ih chain.2 member)

theorem chain_unique (chain : Chain link start visited none) (other : Chain link start front none) :
    visited = front := by
  induction visited generalizing start front with
  | nil =>
      cases front with
      | nil => rfl
      | cons address rest => exact absurd (chain.symm.trans other.1) (by simp)
  | cons first rest ih =>
      cases front with
      | nil => exact absurd (other.symm.trans chain.1) (by simp)
      | cons address front =>
          obtain rfl := Option.some.inj (chain.1.symm.trans other.1)
          rw [ih chain.2 other.2]

theorem chain_congr (same : ∀ address ∈ start :: visited, other address = link address)
    (chain : Chain link start visited stop) : Chain other start visited stop := by
  induction visited generalizing start with
  | nil => exact (same start List.mem_cons_self).trans chain
  | cons address rest ih =>
      refine ⟨(same start List.mem_cons_self).trans chain.1, ih (fun next member => ?_) chain.2⟩
      exact same next (List.mem_cons_of_mem _ member)

/-- The link of the last address of a chain is its own to change. -/
theorem chain_relink [DecidableEq Address] (unique : (start :: visited).Nodup)
    (chain : Chain link start visited stop) (next : Option Address) :
    Chain (Function.update link (last start visited) next) start visited next := by
  induction visited generalizing start with
  | nil => simp [Chain]
  | cons address rest ih =>
      rw [List.nodup_cons] at unique
      have apart : start ≠ last address rest := fun same => unique.1 (same ▸ last_mem address rest)
      refine ⟨?_, ?_⟩
      · rw [last_cons, Function.update_of_ne apart]
        exact chain.1
      · rw [last_cons]
        exact ih unique.2 chain.2

theorem chain_apart [DecidableEq Address] {address : Address} (apart : address ∉ start :: visited)
    (chain : Chain link start visited stop) (next : Option Address) :
    Chain (Function.update link address next) start visited stop := by
  apply chain_congr _ chain
  intro place member
  rw [Function.update_of_ne]
  rintro rfl
  exact apart member

/-- A new address behind a part of a chain. -/
theorem chain_insert [DecidableEq Address] {address : Address}
    (unique : (start :: (front ++ back)).Nodup) (fresh : address ∉ start :: (front ++ back))
    (chain : Chain link start (front ++ back) stop) :
    Chain (Function.update (Function.update link (last start front) (some address)) address
      (link (last start front)))
      start (front ++ address :: back) stop := by
  obtain ⟨before, after⟩ := chain_append.mp chain
  have inFront : last start front ∈ start :: (front ++ back) := by
    rcases List.mem_cons.mp (last_mem start front) with same | member
    · rw [same]
      exact List.mem_cons_self
    · exact List.mem_cons_of_mem _ (List.mem_append_left _ member)
  have apart : address ≠ last start front := fun same => fresh (same ▸ inFront)
  have notInFront : address ∉ start :: front := fun member => fresh
    ((List.cons_sublist_cons.mpr (List.sublist_append_left front back)).subset member)
  have uniqueFront : (start :: front).Nodup :=
    unique.sublist (List.cons_sublist_cons.mpr (List.sublist_append_left front back))
  rw [chain_append]
  refine ⟨chain_apart notInFront (chain_relink uniqueFront before (some address)) _, ?_, ?_⟩
  · rw [Function.update_of_ne apart.symm, Function.update_self]
  · cases back with
    | nil => exact (Function.update_self address _ _).trans after
    | cons first back =>
        refine ⟨by rw [Function.update_self]; exact after.1, ?_⟩
        have inBack : ∀ place ∈ first :: back, place ∈ start :: (front ++ first :: back) :=
          fun place member =>
            List.mem_cons_of_mem _ (List.mem_append_right _ member)
        apply chain_congr _ after.2
        intro place member
        have notNew : place ≠ address := fun same => fresh (same ▸ inBack place member)
        have notLast : place ≠ last start front := by
          rintro rfl
          rw [← List.cons_append, List.nodup_append] at unique
          exact unique.2.2 _ (last_mem start front) _ member rfl
        rw [Function.update_of_ne notNew, Function.update_of_ne notLast]

/-- An address is taken out of a chain by the link in front of it. -/
theorem chain_remove [DecidableEq Address] {address : Address}
    (unique : (start :: (front ++ address :: back)).Nodup)
    (chain : Chain link start (front ++ address :: back) stop) :
    Chain (Function.update link (last start front) (link address)) start (front ++ back) stop := by
  obtain ⟨before, -, after⟩ := chain_append.mp chain
  have uniqueFront : (start :: front).Nodup :=
    unique.sublist (List.cons_sublist_cons.mpr (List.sublist_append_left front _))
  rw [← List.cons_append, List.nodup_append] at unique
  rw [chain_append]
  cases back with
  | nil =>
      have here : link address = stop := after
      simpa [here, Chain] using chain_relink uniqueFront before stop
  | cons first back =>
      obtain ⟨here, after⟩ := after
      refine ⟨by simpa [here] using chain_relink uniqueFront before (some first), ?_, ?_⟩
      · rw [Function.update_self, here]
      · apply chain_apart _ after
        intro member
        exact unique.2.2 _ (last_mem start front) _ (List.mem_cons_of_mem _ member) rfl

end Chains

end BusTub.LinkedChain
