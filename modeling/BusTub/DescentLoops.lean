import BusTub.TreeSearch

/-!
The searches that a descent makes in an internal page. All but one of them are
written out where they are used, with a half-open range; `Lookup` has a closed one
and keeps the best place so far. `none` is a loop that has not ended in the turns it
was given, or a read beyond the entries. A page of 8192 bytes has far fewer slots
than an `int` can count, so that no sum of two of its places overflows.
-/

namespace BusTub.BPlusTree

/-- What a `KeyComparator` of a total order answers: below zero, zero or above. -/
structure TotalComparator {K : Type} (comparator : K → K → Int) : Prop where
  flips : ∀ first second, comparator first second < 0 ↔ 0 < comparator second first
  trans : ∀ first second third, comparator first second ≤ 0 → comparator second third ≤ 0 →
    comparator first third ≤ 0
  same : ∀ first second, comparator first second = 0 ↔ first = second

namespace InternalPage
variable {K : Type} (comparator : K → K → Int)

/-- `while (lo < hi)`, with `KeyAt(mid) <= key` as what makes it go on to the right. -/
def upperLoop (page : InternalPage K) (key : K) : Nat → Nat → Nat → Option Nat
  | 0, _, _ => none
  | turns + 1, lo, hi =>
      if lo < hi then do
        let mid := (lo + hi) / 2
        let entry ← page.entries[mid]?
        if comparator entry.1 key ≤ 0 then upperLoop page key turns (mid + 1) hi
        else upperLoop page key turns lo mid
      else some lo

def upperChild (turns : Nat) (page : InternalPage K) (key : K) : Option PageId := do
  let lo ← upperLoop comparator page key turns 1 page.getSize
  page.valueAt (lo - 1)

def closedLoop (page : InternalPage K) (key : K) : Nat → Nat → Nat → Nat → Option Nat
  | 0, _, _, _ => none
  | turns + 1, left, right, result =>
      if left ≤ right then do
        let mid := (left + right) / 2
        let entry ← page.entries[mid]?
        if comparator entry.1 key ≤ 0 then closedLoop page key turns (mid + 1) right mid
        else closedLoop page key turns left (mid - 1) result
      else some result

def lookupChild (turns : Nat) (page : InternalPage K) (key : K) : Option PageId := do
  let result ← closedLoop comparator page key turns 1 (page.getSize - 1) 0
  page.valueAt result

def getValueChild (turns : Nat) (page : InternalPage K) (key : K) :
    Option PageId := upperChild comparator turns page key

def insertChild (turns : Nat) (page : InternalPage K) (key : K) :
    Option PageId := upperChild comparator turns page key

def findLeafPageOptimisticChild (turns : Nat) (page : InternalPage K) (key : K) : Option PageId :=
  upperChild comparator turns page key

def removeChild (turns : Nat) (page : InternalPage K) (key : K) :
    Option PageId := lookupChild comparator turns page key

def beginChild (turns : Nat) (page : InternalPage K) (key : K) : Option PageId :=
  upperChild comparator turns page key

def Sorted (page : InternalPage K) : Prop :=
  (page.entries.tail.map Prod.fst).Pairwise fun first second => comparator first second ≤ 0

def KeyLe (page : InternalPage K) (key : K) (place : Nat) : Prop :=
  ∃ entry, page.entries[place]? = some entry ∧ comparator entry.1 key ≤ 0

/-- The greatest place that is the first one or has a key that is not above the one looked for. -/
structure Routes (page : InternalPage K) (key : K) (place : Nat) : Prop where
  inside : place < page.getSize
  routed : place = 0 ∨ KeyLe comparator page key place
  greatest : ∀ other, KeyLe comparator page key other → other ≤ place

end InternalPage

open InternalPage

/-- The places in the source that search an internal page on the way down. -/
inductive DescentLoop where
  | lookup
  | getValue
  | insert
  | findLeafPageOptimistic
  | remove
  | begin

def DescentLoop.child {K : Type} (comparator : K → K → Int) : DescentLoop → Nat → InternalPage K →
    K → Option PageId
  | .lookup => lookupChild comparator
  | .getValue => getValueChild comparator
  | .insert => insertChild comparator
  | .findLeafPageOptimistic => findLeafPageOptimisticChild comparator
  | .remove => removeChild comparator
  | .begin => beginChild comparator

section Loops
variable {K : Type} {comparator : K → K → Int} {page : InternalPage K} {key : K} {turns : Nat}
  {place : Nat} {first second : Nat} {lo hi mid : Nat} {tree : Tree K V}

theorem key_le_inside (below : KeyLe comparator page key place) :
    place < page.getSize := by
  obtain ⟨entry, found, -⟩ := below
  exact (List.getElem?_eq_some_iff.mp found).1

/-- A key that is not above the one looked for has only such keys before it. -/
theorem key_le_falls (total : TotalComparator comparator) (sorted : Sorted comparator page)
    (positive : 1 ≤ first) (order : first ≤ second)
    (below : KeyLe comparator page key second) :
    KeyLe comparator page key first := by
  rcases Nat.eq_or_lt_of_le order with rfl | before
  · exact below
  · obtain ⟨last, atSecond, notAbove⟩ := below
    have inside := (List.getElem?_eq_some_iff.mp atSecond).1
    obtain ⟨entry, atFirst⟩ := entry_at (Nat.lt_trans before inside)
    refine ⟨entry, atFirst, total.trans _ _ _ ?_ notAbove⟩
    unfold Sorted at sorted
    rw [List.pairwise_iff_getElem] at sorted
    have ordered := sorted (first - 1) (second - 1) (by simp; omega) (by simp; omega) (by omega)
    have firstAt : page.entries[first - 1 + 1]? = some entry := by rwa [Nat.sub_add_cancel positive]
    have secondAt : page.entries[second - 1 + 1]? = some last :=
      by rwa [Nat.sub_add_cancel (Nat.le_trans positive order)]
    rw [List.getElem_map, List.getElem_map, List.getElem_tail, List.getElem_tail] at ordered
    rwa [(List.getElem?_eq_some_iff.mp firstAt).2,
      (List.getElem?_eq_some_iff.mp secondAt).2] at ordered

structure Closing (comparator : K → K → Int) (page : InternalPage K) (key : K)
    (lo hi : Nat) : Prop where
  low : ∀ place, 1 ≤ place → place < lo → KeyLe comparator page key place
  high : ∀ place, KeyLe comparator page key place → place < hi

theorem closing_right (total : TotalComparator comparator) (sorted : Sorted comparator page)
    (closing : Closing comparator page key lo hi)
    (below : KeyLe comparator page key mid) :
    Closing comparator page key (mid + 1) hi :=
  ⟨fun _ positive before => key_le_falls total sorted positive (Nat.le_of_lt_succ before) below,
    closing.high⟩

theorem closing_left (total : TotalComparator comparator) (sorted : Sorted comparator page)
    (closing : Closing comparator page key lo hi) (positive : 1 ≤ mid)
    (above : ¬ KeyLe comparator page key mid) :
    Closing comparator page key lo mid := by
  refine ⟨closing.low, fun place below => ?_⟩
  by_contra behind
  exact above (key_le_falls total sorted positive (Nat.le_of_not_lt behind) below)

theorem closing_routes (closing : Closing comparator page key (place + 1) (place + 1))
    (inside : place < page.getSize) : Routes comparator page key place := by
  refine ⟨inside, ?_, fun other below => Nat.le_of_lt_succ (closing.high other below)⟩
  cases place with
  | zero => exact Or.inl rfl
  | succ place => exact Or.inr (closing.low _ (Nat.succ_pos place) (Nat.lt_succ_self _))

theorem closing_start : Closing comparator page key 1 page.getSize :=
  ⟨fun _ positive before => absurd before (Nat.not_lt_of_le positive), fun _ below =>
    key_le_inside below⟩

theorem upper_loop_closes (total : TotalComparator comparator) (sorted : Sorted comparator page)
    {turns lo hi : Nat} (positive : 1 ≤ lo) (order : lo ≤ hi) (inside : hi ≤ page.getSize)
    (enough : hi - lo < turns) (closing : Closing comparator page key lo hi) :
    ∃ place, upperLoop comparator page key turns lo hi = some (place + 1) ∧ place < page.getSize ∧
      Closing comparator page key (place + 1) (place + 1) := by
  induction turns generalizing lo hi with
  | zero => exact absurd enough (Nat.not_lt_zero _)
  | succ turns ih =>
      rw [upperLoop]
      by_cases more : lo < hi
      · obtain ⟨entry, found⟩ :=
          entry_at
            (show (lo + hi) / 2 < page.entries.length from Nat.lt_of_lt_of_le (by omega) inside)
        simp only [if_pos more, found, Option.bind_eq_bind, Option.bind_some]
        by_cases below : comparator entry.1 key ≤ 0
        · rw [if_pos below]
          exact ih (by omega) (by omega) inside (by omega)
            (closing_right total sorted closing ⟨entry, found, below⟩)
        · rw [if_neg below]
          have above : ¬ KeyLe comparator page key ((lo + hi) / 2) := by
            rintro ⟨other, again, low⟩
            obtain rfl := Option.some.inj (found.symm.trans again)
            exact below low
          exact ih positive (by omega) (by omega) (by omega)
            (closing_left total sorted closing (by omega) above)
      · obtain rfl : lo = hi := by omega
        rw [if_neg more]
        refine ⟨lo - 1, by rw [Nat.sub_add_cancel positive], by omega, ?_⟩
        rwa [Nat.sub_add_cancel positive]

theorem closed_loop_closes (total : TotalComparator comparator) (sorted : Sorted comparator page)
    {turns left right : Nat} (order : left ≤ right) (inside : right < page.getSize)
    (enough : right - left < turns) (closing : Closing comparator page key (left + 1) (right + 1)) :
    ∃ place, closedLoop comparator page key turns (left + 1) right left = some place ∧
      place < page.getSize ∧ Closing comparator page key (place + 1) (place + 1) := by
  induction turns generalizing left right with
  | zero => exact absurd enough (Nat.not_lt_zero _)
  | succ turns ih =>
      rw [closedLoop]
      by_cases more : left + 1 ≤ right
      · obtain ⟨entry, found⟩ :=
          entry_at
            (show (left + 1 + right) / 2 <
            page.entries.length from Nat.lt_of_le_of_lt (by omega) inside)
        simp only [if_pos more, found, Option.bind_eq_bind, Option.bind_some]
        by_cases below : comparator entry.1 key ≤ 0
        · rw [if_pos below]
          exact ih (by omega) inside (by omega)
            (closing_right total sorted closing ⟨entry, found, below⟩)
        · rw [if_neg below]
          have above : ¬ KeyLe comparator page key ((left + 1 + right) / 2) := by
            rintro ⟨other, again, low⟩
            obtain rfl := Option.some.inj (found.symm.trans again)
            exact below low
          have onward := closing_left total sorted closing (by omega) above
          rw [← Nat.sub_add_cancel (show 1 ≤ (left + 1 + right) / 2 by omega)] at onward
          exact ih (by omega) (by omega) (by omega) onward
      · obtain rfl : left = right := by omega
        rw [if_neg more]
        exact ⟨left, rfl, inside, closing⟩

theorem routes_unique (routes : Routes comparator page key first)
    (other : Routes comparator page key second) : first = second := by
  have upTo : first ≤ second := by
    rcases routes.routed with rfl | below
    · exact Nat.zero_le _
    · exact other.greatest first below
  have back : second ≤ first := by
    rcases other.routed with rfl | below
    · exact Nat.zero_le _
    · exact routes.greatest second below
  exact Nat.le_antisymm upTo back

theorem upper_child_routes (total : TotalComparator comparator) (nonempty : 1 ≤ page.getSize)
    (sorted : Sorted comparator page) (key : K) (enough : page.getSize ≤ turns) :
    ∃ place, Routes comparator page key place ∧ upperChild comparator turns page key =
      page.valueAt place := by
  have start : Closing comparator page key 1 page.getSize := closing_start
  have room : page.getSize - 1 < turns := by omega
  obtain ⟨place, ended, inside, closing⟩ :=
    upper_loop_closes total sorted (le_refl 1) nonempty (le_refl _) room start
  refine ⟨place, closing_routes closing inside, ?_⟩
  rw [upperChild, ended]
  rfl

theorem lookup_child_routes (total : TotalComparator comparator) (nonempty : 1 ≤ page.getSize)
    (sorted : Sorted comparator page) (key : K) (enough : page.getSize ≤ turns) :
    ∃ place, Routes comparator page key place ∧ lookupChild comparator turns page key =
      page.valueAt place := by
  have start : Closing comparator page key (0 + 1) (page.getSize - 1 + 1) := by
    rw [Nat.sub_add_cancel nonempty]
    exact closing_start
  have room : page.getSize - 1 - 0 < turns := by omega
  obtain ⟨place, ended, inside, closing⟩ :=
    closed_loop_closes total sorted (Nat.zero_le (page.getSize - 1)) (by omega) room start
  refine ⟨place, closing_routes closing inside, ?_⟩
  rw [lookupChild, ended]
  rfl

theorem child_routes (total : TotalComparator comparator) (nonempty : 1 ≤ page.getSize)
    (sorted : Sorted comparator page) (key : K) (loop : DescentLoop)
    (enough : page.getSize ≤ turns) :
    ∃ place, Routes comparator page key place ∧ loop.child comparator turns page key =
      page.valueAt place := by
  cases loop with
  | lookup => exact lookup_child_routes total nonempty sorted key enough
  | getValue => exact upper_child_routes total nonempty sorted key enough
  | insert => exact upper_child_routes total nonempty sorted key enough
  | findLeafPageOptimistic => exact upper_child_routes total nonempty sorted key enough
  | remove => exact lookup_child_routes total nonempty sorted key enough
  | begin => exact upper_child_routes total nonempty sorted key enough

/-- In as many turns as the page has entries, each of the searches ends at the child of
one and the same place. -/
theorem descent_loops_route_alike (total : TotalComparator comparator) (nonempty : 1 ≤ page.getSize)
    (sorted : Sorted comparator page) (key : K) :
    ∃ place child, Routes comparator page key place ∧ page.valueAt place = some child ∧
      ∀ (loop : DescentLoop) (turns : Nat), page.getSize ≤ turns →
        loop.child comparator turns page key = some child := by
  obtain ⟨place, routes, -⟩ := child_routes total nonempty sorted key .lookup (le_refl _)
  obtain ⟨entry, found⟩ := entry_at routes.inside
  have child : page.valueAt place = some entry.2 := by rw [valueAt, found]; rfl
  refine ⟨place, entry.2, routes, child, fun loop turns enough => ?_⟩
  obtain ⟨other, otherRoutes, ended⟩ := child_routes total nonempty sorted key loop enough
  rw [ended, routes_unique otherRoutes routes, child]

/-! ### Whole descents -/

variable {V : Type}

theorem descend_congr {first second : InternalPage K → Option PageId}
    (alike : ∀ pid page, tree.pages pid = some (.inr page) → first page = second page) (fuel : Nat)
    (pid : PageId) (path : List PageId) :
    tree.descend first fuel pid path = tree.descend second fuel pid path := by
  induction fuel generalizing pid path with
  | zero => rfl
  | succ fuel ih =>
      unfold Tree.descend
      cases found : tree.pages pid with
      | none => rfl
      | some page =>
          cases page with
          | inl leaf => rfl
          | inr page =>
              simp only [alike pid page found]
              cases second page with
              | none => rfl
              | some child => exact ih child (pid :: path)

/-- Readers and writers of one key come down the same pages to the same leaf. -/
theorem descents_meet (total : TotalComparator comparator)
    (nonempty : ∀ pid page, tree.pages pid = some (.inr page) → 1 ≤ page.getSize)
    (sorted : ∀ pid page, tree.pages pid = some (.inr page) → Sorted comparator page)
    (first second : DescentLoop) (fuel : Nat) (pid : PageId) (path : List PageId) :
    tree.descend (fun page => first.child comparator page.getSize page key) fuel pid path =
      tree.descend (fun page => second.child comparator page.getSize page key) fuel pid path := by
  apply descend_congr
  intro pid page found
  obtain ⟨place, child, -, -, ended⟩ :=
    descent_loops_route_alike total (nonempty pid page found) (sorted pid page found) key
  rw [ended first _ (le_refl _), ended second _ (le_refl _)]

end Loops

section Ordered
variable {K : Type} [LinearOrder K] {page : InternalPage K} {key : K}

def comparatorOf (first second : K) : Int := if first < second then -1
    else if first = second then 0 else 1

theorem comparator_of_le {first second : K} : comparatorOf first second ≤ 0 ↔ first ≤ second := by
  rcases lt_trichotomy first second with less | same | greater
  · simp [comparatorOf, less, less.le]
  · simp [comparatorOf, same]
  · simp [comparatorOf, greater.not_gt, greater.ne', greater]

theorem comparator_of_total : TotalComparator (@comparatorOf K _) := by
  refine ⟨?_, ?_, ?_⟩
  · intro first second
    rcases lt_trichotomy first second with less | same | greater
    · simp [comparatorOf, less, less.not_gt, less.ne']
    · simp [comparatorOf, same]
    · simp [comparatorOf, greater, greater.not_gt, greater.ne']
  · intro first second third below above
    rw [comparator_of_le] at below above ⊢
    exact below.trans above
  · intro first second
    rcases lt_trichotomy first second with less | same | greater
    · simp [comparatorOf, less, less.ne]
    · simp [comparatorOf, same]
    · simp [comparatorOf, greater.not_gt, greater.ne']

theorem upper_loop_bisect {turns lo hi : Nat} (inside : hi ≤ page.getSize)
    (enough : hi - lo ≤ turns) :
    upperLoop comparatorOf page key (turns + 1) lo hi =
      some (bisect (fun mid => (page.entries[mid]?).any fun entry => entry.1 ≤ key)
        turns lo hi) := by
  induction turns generalizing lo hi with
  | zero =>
      have ended : ¬ lo < hi := by omega
      rw [upperLoop, bisect, if_neg ended]
  | succ turns ih =>
      rw [upperLoop, bisect]
      by_cases more : lo < hi
      · obtain ⟨entry, found⟩ :=
          entry_at
            (show (lo + hi) / 2 < page.entries.length from Nat.lt_of_lt_of_le (by omega) inside)
        simp only [if_pos more, found, Option.bind_eq_bind, Option.bind_some, Option.any_some,
          comparator_of_le, decide_eq_true_eq]
        by_cases below : entry.1 ≤ key
        · rw [if_pos below, if_pos below]
          exact ih inside (by omega)
        · rw [if_neg below, if_neg below]
          exact ih (by omega) (by omega)
      · rw [if_neg more, if_neg more]

theorem closed_loop_lookup {turns left right result : Nat} (positive : 1 ≤ left)
    (inside : right < page.getSize) (enough : right + 1 - left ≤ turns) :
    closedLoop comparatorOf page key (turns + 1) left right result = some
      (page.lookupLoop key turns left right result) := by
  induction turns generalizing left right result with
  | zero =>
      have ended : ¬ left ≤ right := by omega
      rw [closedLoop, lookupLoop, if_neg ended]
  | succ turns ih =>
      rw [closedLoop, lookupLoop]
      by_cases more : left ≤ right
      · obtain ⟨entry, found⟩ :=
          entry_at
            (show (left + right) / 2 <
            page.entries.length from Nat.lt_of_le_of_lt (by omega) inside)
        simp only [if_pos more, found, Option.bind_eq_bind, Option.bind_some, Option.any_some,
          comparator_of_le, decide_eq_true_eq]
        by_cases below : entry.1 ≤ key
        · rw [if_pos below, if_pos below]
          exact ih (by omega) inside (by omega)
        · rw [if_neg below, if_neg below]
          exact ih positive (by omega) (by omega)
      · rw [if_neg more, if_neg more]

/-- The searches that the operations on a tree are modelled with are these. -/
theorem child_for_upper :
    page.childFor key = upperChild comparatorOf (page.getSize + 1) page key := by
  rw [upperChild, upper_loop_bisect (le_refl _) (Nat.sub_le _ _)]
  rfl

theorem lookup_closed (nonempty : 1 ≤ page.getSize) :
    page.lookup key = lookupChild comparatorOf (page.getSize + 1) page key := by
  rw [lookupChild, closed_loop_lookup (le_refl 1) (by omega) (by omega)]
  rfl

end Ordered

def threeChildren : InternalPage Nat := ⟨4, [(0, 7), (20, 8), (50, 9)]⟩

/-- A key that is the separator itself goes to the right of it. -/
theorem separator_routes_right :
    ∃ place child, Routes comparatorOf threeChildren 20 place ∧
      threeChildren.valueAt place = some child ∧
        ∀ (loop : DescentLoop) (turns : Nat), threeChildren.getSize ≤ turns →
        loop.child comparatorOf turns threeChildren 20 = some child :=
  descent_loops_route_alike comparator_of_total (by decide)
    (by simp [Sorted, threeChildren, comparatorOf]) 20

end BusTub.BPlusTree
