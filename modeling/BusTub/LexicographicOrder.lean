import Mathlib.Data.List.Pairwise
import Mathlib.Data.List.Forall2

/-!
Orders given by Boolean comparisons that are only good on part of a type: strict
linear orders, lists of cells compared cell by cell, weak orders through a key,
and what a sorting routine promises for them. Nothing here names a program.
-/

namespace BusTub.LexicographicOrder

variable {A B : Type}

structure LinearOn (S : A → Prop) (less : A → A → Bool) : Prop where
  irrefl : ∀ a, S a → less a a = false
  trans : ∀ a b c, S a → S b → S c → less a b = true → less b c = true → less a c = true
  total : ∀ a b, S a → S b → a ≠ b → less a b = true ∨ less b a = true

structure WeakOn (S : A → Prop) (less : A → A → Bool) : Prop where
  asymm : ∀ a b, S a → S b → less a b = true → less b a = false
  through : ∀ a b c, S a → S b → S c → less a c = true → less a b = true ∨ less b c = true

section Orders
variable {S : A → Prop} {less : A → A → Bool} {a b : A} {list : List A}

theorem linear_asymm (linear : LinearOn S less) (left : S a) (right : S b)
    (before : less a b = true) :
    less b a = false := by
  cases behind : less b a with
  | false => rfl
  | true =>
      have cycle := linear.trans a b a left right left before behind
      rw [linear.irrefl a left] at cycle
      cases cycle

theorem linear_weak (linear : LinearOn S less) : WeakOn S less where
  asymm := fun _ _ left right before => linear_asymm linear left right before
  through := by
    intro a b c first middle last before
    by_cases same : a = b
    · exact Or.inr (same ▸ before)
    · rcases linear.total a b first middle same with left | right
      · exact Or.inl left
      · exact Or.inr (linear.trans b a c middle first last right before)

theorem weak_of_key {T : B → Prop} {key : B → A} (weak : WeakOn S less)
    (keyed : ∀ b, T b → S (key b)) :
    WeakOn T fun left right => less (key left) (key right) where
  asymm := fun a b left right before =>
    weak.asymm (key a) (key b) (keyed a left) (keyed b right) before
  through := fun a b c first middle last before =>
    weak.through (key a) (key b) (key c) (keyed a first) (keyed b middle) (keyed c last) before

structure StrictWeakOn (S : A → Prop) (less : A → A → Bool) : Prop where
  irrefl : ∀ a, S a → less a a = false
  asymm : ∀ a b, S a → S b → less a b = true → less b a = false
  trans : ∀ a b c, S a → S b → S c → less a b = true → less b c = true → less a c = true
  incomparable : ∀ a b c, S a → S b → S c → less a b = false ∧ less b a = false → less b c = false ∧
    less c b = false →
    less a c = false ∧ less c a = false

theorem weak_strict (weak : WeakOn S less) : StrictWeakOn S less where
  irrefl := by
    intro a inside
    by_contra before
    have after := weak.asymm a a inside inside (by simpa using before)
    exact before after
  asymm := weak.asymm
  trans := by
    intro a b c first middle last before after
    rcases weak.through a c b first last middle before with through | behind
    · exact through
    · rw [weak.asymm b c middle last after] at behind
      cases behind
  incomparable := by
    intro a b c first middle last front back
    -- what comes between two of them would come next to the third
    have apart {a b c : A} (first : S a) (middle : S b) (last : S c) (front : less a b = false)
      (back : less b c = false) :
        less a c = false := by
      by_contra before
      rcases weak.through a b c first middle last (by simpa using before) with left | right
      · rw [front] at left
        cases left
      · rw [back] at right
        cases right
    exact ⟨apart first middle last front.1 back.1, apart last middle first back.2 front.2⟩

theorem weak_congr {other : A → A → Bool} (weak : WeakOn S less)
    (same : ∀ a b, S a → S b → other a b = less a b) : WeakOn S other where
  asymm := by
    intro a b left right before
    rw [same a b left right] at before
    rw [same b a right left]
    exact weak.asymm a b left right before
  through := by
    intro a b c first middle last before
    rw [same a c first last] at before
    rw [same a b first middle, same b c middle last]
    exact weak.through a b c first middle last before

theorem pairwise_of_chain (weak : WeakOn S less) (inside : ∀ a ∈ list, S a)
    (chain : list.IsChain fun a b => less b a = false) :
    list.Pairwise fun a b => less b a = false := by
  induction list with
  | nil => exact List.Pairwise.nil
  | cons first rest ih =>
      cases rest with
      | nil => exact List.pairwise_singleton _ first
      | cons second rest =>
          have later :=
            ih (fun a member => inside a (List.mem_cons_of_mem _ member))
              (List.isChain_cons_cons.mp chain).2
          apply List.Pairwise.cons _ later
          intro a member
          have step : less second first = false := (List.isChain_cons_cons.mp chain).1
          rcases List.mem_cons.mp member with rfl | further
          · exact step
          · have behind := List.rel_of_pairwise_cons later further
            cases before : less a first with
            | false => rfl
            | true =>
                rcases weak.through a second first (inside a (List.mem_cons_of_mem _ member))
                  (inside second (by simp))
                  (inside first (by simp)) before with left | right
                · rw [behind] at left
                  cases left
                · rw [step] at right
                  cases right

theorem pairwise_either {R : A → A → Prop} (pairwise : list.Pairwise R) (front : a ∈ list)
    (back : b ∈ list) (different : a ≠ b) : R a b ∨ R b a := by
  induction pairwise with
  | nil => cases front
  | cons related _ ih =>
      rcases List.mem_cons.mp front with rfl | first
      · rcases List.mem_cons.mp back with rfl | second
        · exact absurd rfl different
        · exact Or.inl (related b second)
      · rcases List.mem_cons.mp back with rfl | second
        · exact Or.inr (related a first)
        · exact ih first second

end Orders

section Cells
variable [DecidableEq A]

def lexLess : List (A → A → Bool) → List A → List A → Bool
  | less :: orders, a :: left, b :: right => if a = b then lexLess orders left right else less a b
  | _, _, _ => false

def Cells : List (A → Prop) → List A → Prop := List.Forall₂ fun S a => S a

theorem lex_linear {sets : List (A → Prop)} {orders : List (A → A → Bool)}
    (linear : List.Forall₂ LinearOn sets orders) :
    LinearOn (Cells sets) (lexLess orders) := by
  induction linear with
  | nil =>
      constructor
      · exact fun _ _ => rfl
      · intro a b c _ _ _ before
        cases before
      · intro a b left right different
        cases left
        cases right
        exact absurd rfl different
  | @cons S less sets orders here _ ih =>
      constructor
      · intro a cells
        cases cells with
        | cons inside rest =>
            simp only [lexLess, if_true]
            exact ih.irrefl _ rest
      · intro a b c first middle last before behind
        cases first with
        | @cons _ x _ _ inX restX =>
          cases middle with
          | @cons _ y _ _ inY restY =>
            cases last with
            | @cons _ z _ _ inZ restZ =>
                simp only [lexLess] at before behind ⊢
                by_cases front : x = y
                · subst front
                  rw [if_pos rfl] at before
                  by_cases back : x = z
                  · rw [if_pos back] at behind ⊢
                    exact ih.trans _ _ _ restX restY restZ before behind
                  · rwa [if_neg back] at behind ⊢
                · rw [if_neg front] at before
                  by_cases back : y = z
                  · subst back
                    rwa [if_neg front]
                  · rw [if_neg back] at behind
                    have step := here.trans x y z inX inY inZ before behind
                    by_cases both : x = z
                    · rw [both, here.irrefl z inZ] at step
                      cases step
                    · rwa [if_neg both]
      · intro a b left right different
        cases left with
        | @cons _ x _ _ inX restX =>
          cases right with
          | @cons _ y _ _ inY restY =>
              simp only [lexLess]
              by_cases same : x = y
              · subst same
                rw [if_pos rfl, if_pos rfl]
                apply ih.total _ _ restX restY
                intro equal
                exact different (by rw [equal])
              · rw [if_neg same, if_neg (Ne.symm same)]
                exact here.total x y inX inY same

end Cells

/-- What is documented of a sorting routine. Of a comparison that is no strict
weak order on the list nothing is promised. -/
structure StdSort (A : Type) where
  sort : (A → A → Bool) → List A → List A
  perm : ∀ less list, WeakOn (· ∈ list) less → (sort less list).Perm list
  sorted : ∀ less list, WeakOn (· ∈ list) less → (sort less list).Pairwise fun a b =>
    less b a = false

def mergeSorting (A : Type) : StdSort A where
  sort less list := (list.attach.mergeSort fun a b => !less b.1 a.1).map Subtype.val
  perm := by
    intro less list _
    have same := (List.mergeSort_perm list.attach fun a b => !less b.1 a.1).map Subtype.val
    rwa [List.attach_map_subtype_val] at same
  sorted := by
    intro less list weak
    rw [List.pairwise_map]
    have ordered :=
      @List.pairwise_mergeSort { a // a ∈ list } (fun a b => !less b.1 a.1) ?_ ?_ list.attach
    · exact ordered.imp fun front => by simpa using front
    · intro a b c front back
      simp only [Bool.not_eq_true'] at front back ⊢
      cases before : less c.1 a.1 with
      | false => rfl
      | true =>
          rcases weak.through c.1 b.1 a.1 c.2 b.2 a.2 before with left | right
          · rw [back] at left
            cases left
          · rw [front] at right
            cases right
    · intro a b
      cases before : less b.1 a.1 with
      | false => rfl
      | true => simp [weak.asymm b.1 a.1 b.2 a.2 before]

end BusTub.LexicographicOrder
