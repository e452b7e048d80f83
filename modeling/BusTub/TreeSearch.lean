import BusTub.BPlusTree
import BusTub.SearchForest
import BusTub.LinkedChain
import Mathlib.Data.List.Perm.Subperm

/-!
What the searches in a B+ tree find: the two loops over the keys of a page end at the
same child, and a descent ends at the one leaf in whose range the key lies.
-/

namespace BusTub.BPlusTree

open SearchForest

/-! The searches in one page. -/

theorem bisect_spec {goesRight : Nat → Bool} {fuel lo hi : Nat} (order : lo ≤ hi)
    (enough : hi - lo ≤ fuel)
    (falls : ∀ i j, lo ≤ i → i ≤ j → j < hi → goesRight j = true → goesRight i = true) :
    lo ≤ bisect goesRight fuel lo hi ∧ bisect goesRight fuel lo hi ≤ hi ∧
      (∀ i, lo ≤ i → i < bisect goesRight fuel lo hi → goesRight i = true) ∧
      (∀ i, bisect goesRight fuel lo hi ≤ i → i < hi → goesRight i = false) := by
  induction fuel generalizing lo hi with
  | zero =>
      have same : lo = hi := by omega
      subst same
      refine ⟨le_refl _, le_refl _, ?_, ?_⟩
      · intro i low high
        simp only [bisect] at high
        omega
      · intro i low high
        simp only [bisect] at low
        omega
  | succ fuel ih =>
      unfold bisect
      by_cases more : lo < hi
      · rw [if_pos more]
        have mid : lo ≤ (lo + hi) / 2 ∧ (lo + hi) / 2 < hi := by omega
        by_cases goes : goesRight ((lo + hi) / 2) = true
        · rw [if_pos goes]
          obtain ⟨low, high, left, right⟩ := ih (show (lo + hi) / 2 + 1 ≤ hi by omega) (by omega)
            (fun i j above between below => falls i j (by omega) between below)
          refine ⟨by omega, high, ?_, right⟩
          intro i above below
          by_cases upTo : i ≤ (lo + hi) / 2
          · exact falls i _ above upTo mid.2 goes
          · exact left i (by omega) below
        · rw [if_neg goes]
          obtain ⟨low, high, left, right⟩ := ih (show lo ≤ (lo + hi) / 2 by omega) (by omega)
            (fun i j above between below => falls i j above between (by omega))
          refine ⟨low, by omega, left, ?_⟩
          intro i above below
          by_cases upTo : i < (lo + hi) / 2
          · exact right i above upTo
          · cases there : goesRight i with
            | false => rfl
            | true => exact absurd (falls _ i mid.1 (by omega) below there) goes
      · rw [if_neg more]
        refine ⟨le_refl _, by omega, ?_, ?_⟩
        · intro i low high
          omega
        · intro i low high
          omega

theorem entry_at {K : Type} {list : List (K × PageId)} {i : Nat} (inside : i < list.length) :
    ∃ entry, list[i]? = some entry :=
  ⟨list[i], List.getElem?_eq_getElem inside⟩

section Pages
variable {K V : Type} [LinearOrder K] {key : K} {list : List (K × PageId)} {i : Nat}

def Rising (list : List (K × PageId)) : Prop := (list.tail.map Prod.fst).Pairwise (· < ·)

structure Cut (list : List (K × PageId)) (key : K) (left : List (K × PageId)) (separator : K)
    (child : PageId) (right : List (K × PageId)) : Prop where
  whole : list = left ++ (separator, child) :: right
  low : left ≠ [] → separator ≤ key
  high : ∀ entry ∈ right, key < entry.1

theorem rising_lt (rising : Rising list) {i j : Nat} (positive : 1 ≤ i) (between : i < j)
    {first second : K × PageId} (atFirst : list[i]? = some first)
    (atSecond : list[j]? = some second) :
    first.1 < second.1 := by
  cases list with
  | nil => cases atFirst
  | cons entry rest =>
      obtain ⟨i, rfl⟩ : ∃ n, i = n + 1 := ⟨i - 1, by omega⟩
      obtain ⟨j, rfl⟩ : ∃ n, j = n + 1 := ⟨j - 1, by omega⟩
      simp only [List.getElem?_cons_succ] at atFirst atSecond
      obtain ⟨insideFirst, rfl⟩ := List.getElem?_eq_some_iff.mp atFirst
      obtain ⟨insideSecond, rfl⟩ := List.getElem?_eq_some_iff.mp atSecond
      have pairs := List.pairwise_iff_getElem.mp (List.pairwise_map.mp rising)
      exact pairs i j insideFirst insideSecond (by omega)

/-- A place such that the keys in front of it, from the second on, are not above the key and the
others are. -/
theorem cut_at {list : List (K × PageId)} {key : K} {place : Nat} (positive : 1 ≤ place)
    (inside : place ≤ list.length)
    (low : ∀ i entry, 1 ≤ i → i < place → list[i]? = some entry → entry.1 ≤ key)
    (high : ∀ i entry, place ≤ i → list[i]? = some entry → key < entry.1) :
    ∃ left separator child right, Cut list key left separator child right ∧
      left.length = place - 1 := by
  obtain ⟨place, rfl⟩ : ∃ n, place = n + 1 := ⟨place - 1, by omega⟩
  have here : list[place]? = some list[place] := List.getElem?_eq_getElem (by omega)
  refine ⟨list.take place, (list[place]).1, (list[place]).2, list.drop (place + 1),
    ⟨?_, ?_, ?_⟩, ?_⟩
  · rw [Prod.mk.eta, ← List.drop_eq_getElem_cons, List.take_append_drop]
  · intro more
    have positive : 1 ≤ place := by
      rcases Nat.eq_zero_or_pos place with zero | positive
      · subst zero
        exact absurd rfl more
      · exact positive
    exact low place _ positive (by omega) here
  · intro entry member
    obtain ⟨i, found⟩ := List.getElem?_of_mem member
    rw [List.getElem?_drop] at found
    exact high _ entry (by omega) found
  · simp
    omega

theorem any_le :
    ((list[i]?).any fun entry => decide (entry.1 ≤ key)) = true ↔ ∃ entry, list[i]? = some entry ∧
      entry.1 ≤ key := by
  cases list[i]? <;> simp

theorem any_le_false {entry : K × PageId} (found : list[i]? = some entry)
    (past : ((list[i]?).any fun entry => decide (entry.1 ≤ key)) = false) : key < entry.1 := by
  simpa [found] using past

/-- `GetValue`, `Insert` and the others go to the child behind the last key that is not above
theirs. -/
theorem upper_bound_cut {page : InternalPage K} {key : K} (more : page.entries ≠ [])
    (rising : Rising page.entries) :
    ∃ left separator child right, Cut page.entries key left separator child right ∧
      page.upperBound key = left.length + 1 := by
  have size : 1 ≤ page.getSize := List.length_pos_iff.mpr more
  have falls : ∀ i j, 1 ≤ i → i ≤ j → j < page.getSize →
      ((page.entries[j]?).any fun entry => decide (entry.1 ≤ key)) = true →
      ((page.entries[i]?).any fun entry => decide (entry.1 ≤ key)) = true := by
    intro i j positive between inside goes
    rcases Nat.eq_or_lt_of_le between with same | before
    · rwa [same]
    obtain ⟨entry, found, low⟩ := any_le.mp goes
    obtain ⟨first, here⟩ := entry_at (lt_of_lt_of_le before (Nat.le_of_lt inside))
    exact any_le.mpr ⟨first, here, (rising_lt rising positive before here found).le.trans low⟩
  obtain ⟨positive, inside, low, high⟩ :=
    bisect_spec size (show page.getSize - 1 ≤ page.getSize by omega) falls
  obtain ⟨left, separator, child, right, cut, place⟩ :=
    @cut_at K _ page.entries key _ positive inside
      (fun i entry above before found => by
        obtain ⟨other, here, below⟩ := any_le.mp (low i above before)
        obtain rfl : entry = other := Option.some.inj (found.symm.trans here)
        exact below)
      (fun i entry above found =>
        any_le_false found (high i above (List.getElem?_eq_some_iff.mp found).1))
  refine ⟨left, separator, child, right, cut, ?_⟩
  unfold InternalPage.upperBound
  omega

theorem lookup_loop_spec {page : InternalPage K} {key : K} (rising : Rising page.entries)
    {fuel left right : Nat} (positive : 1 ≤ left) (order : left ≤ right + 1)
    (inside : right < page.getSize) (enough : right + 1 - left ≤ fuel)
    (low : ∀ i entry, 1 ≤ i → i < left → page.entries[i]? = some entry → entry.1 ≤ key)
    (high : ∀ i entry, right < i → page.entries[i]? = some entry → key < entry.1) :
    (∀ i entry, 1 ≤ i → i ≤ page.lookupLoop key fuel left right (left - 1) →
      page.entries[i]? = some entry → entry.1 ≤ key) ∧
      (∀ i entry, page.lookupLoop key fuel left right (left - 1) < i →
        page.entries[i]? = some entry → key < entry.1) ∧
      page.lookupLoop key fuel left right (left - 1) < page.getSize := by
  induction fuel generalizing left right with
  | zero =>
      refine ⟨fun i entry above below => low i entry above ?_, fun i entry above =>
        high i entry ?_, ?_⟩
      · simp only [InternalPage.lookupLoop] at below
        omega
      · simp only [InternalPage.lookupLoop] at above
        omega
      · simp only [InternalPage.lookupLoop]
        omega
  | succ fuel ih =>
      unfold InternalPage.lookupLoop
      by_cases more : left ≤ right
      · rw [if_pos more]
        have middle : (left + right) / 2 < page.getSize := by omega
        obtain ⟨mid, here⟩ := entry_at middle
        by_cases goes : ((page.entries[(left + right) / 2]?).any fun entry =>
          decide (entry.1 ≤ key)) = true
        · simp only [goes, if_true]
          have atMid : mid.1 ≤ key := by
            obtain ⟨entry, found, below⟩ := any_le.mp goes
            obtain rfl := Option.some.inj (here.symm.trans found)
            exact below
          have := @ih ((left + right) / 2 + 1) right (by omega) (by omega) inside (by omega) ?_ high
          · simpa using this
          · intro i entry above below found
            rcases Nat.lt_or_ge i ((left + right) / 2) with before | upTo
            · exact (rising_lt rising above before found here).le.trans atMid
            · obtain rfl : i = (left + right) / 2 := by omega
              obtain rfl := Option.some.inj (here.symm.trans found)
              exact atMid
        · simp only [goes]
          have past : key < mid.1 := any_le_false here (by simpa using goes)
          have := @ih left ((left + right) / 2 - 1) positive (by omega) (by omega) (by omega) low ?_
          · simpa using this
          · intro i entry above found
            rcases Nat.lt_or_ge ((left + right) / 2) i with before | upTo
            · exact past.trans (rising_lt rising (by omega) before here found)
            · obtain rfl : i = (left + right) / 2 := by omega
              obtain rfl := Option.some.inj (here.symm.trans found)
              exact past
      · rw [if_neg more]
        refine ⟨fun i entry above below => low i entry above (by omega), fun i entry above =>
          high i entry (by omega), ?_⟩
        omega

theorem lookup_cut {page : InternalPage K} {key : K} (more : page.entries ≠ [])
    (rising : Rising page.entries) :
    ∃ left separator child right, Cut page.entries key left separator child right ∧
      page.lookup key = some child := by
  have size : 1 ≤ page.getSize := List.length_pos_iff.mpr more
  obtain ⟨low, high, inside⟩ :=
    @lookup_loop_spec K _ page key rising page.getSize 1 (page.getSize - 1) (le_refl _)
      (by omega) (by omega) (by omega) (fun i entry above below => by omega)
      (fun i entry above found => by
        have := (List.getElem?_eq_some_iff.mp found).1
        unfold InternalPage.getSize at above
        omega)
  rw [Nat.sub_self] at low high inside
  obtain ⟨left, separator, child, right, cut, place⟩ :=
    @cut_at K _ page.entries key (page.lookupLoop key page.getSize 1 (page.getSize - 1) 0 + 1)
      (by omega) inside
      (fun i entry above before => low i entry above (by omega))
        (fun i entry above => high i entry (by omega))
  refine ⟨left, separator, child, right, cut, ?_⟩
  have here : page.entries[left.length]? = some (separator, child) := by simp [cut.whole]
  unfold InternalPage.lookup InternalPage.valueAt
  rw [show page.lookupLoop key page.getSize 1 (page.getSize - 1) 0 = left.length by omega, here]
  rfl

theorem child_for_cut {page : InternalPage K} (more : page.entries ≠ [])
    (rising : Rising page.entries) :
    ∃ left separator child right, Cut page.entries key left separator child right ∧
      page.childFor key =
      some child := by
  obtain ⟨left, separator, child, right, cut, place⟩ := @upper_bound_cut K _ page key more rising
  refine ⟨left, separator, child, right, cut, ?_⟩
  have here : page.entries[left.length]? = some (separator, child) := by simp [cut.whole]
  unfold InternalPage.childFor InternalPage.valueAt
  rw [show page.upperBound key - 1 = left.length by omega, here]
  rfl

theorem lower_bound_cut {page : LeafPage K V} {key : K}
    (sorted : (page.entries.map Prod.fst).Pairwise (· < ·)) :
    ∃ front back, page.entries = front ++ back ∧ Tree.lowerBound page key = front.length ∧
      (∀ entry ∈ front, entry.1 < key) ∧ ∀ entry ∈ back, key ≤ entry.1 := by
  have pairs := List.pairwise_iff_getElem.mp (List.pairwise_map.mp sorted)
  have falls : ∀ i j, 0 ≤ i → i ≤ j → j < page.getSize →
      ((page.entries[j]?).any fun entry => decide (entry.1 < key)) = true →
      ((page.entries[i]?).any fun entry => decide (entry.1 < key)) = true := by
    intro i j _ between inside goes
    rcases Nat.eq_or_lt_of_le between with same | before
    · rwa [same]
    have insideFirst : i < page.entries.length := lt_of_lt_of_le before (Nat.le_of_lt inside)
    rw [List.getElem?_eq_getElem inside, Option.any_some, decide_eq_true_eq] at goes
    rw [List.getElem?_eq_getElem insideFirst, Option.any_some, decide_eq_true_eq]
    exact (pairs i j insideFirst inside before).trans goes
  obtain ⟨_, inside, low, high⟩ :=
    bisect_spec (Nat.zero_le page.getSize) (show page.getSize - 0 ≤ page.getSize by omega) falls
  refine ⟨page.entries.take (Tree.lowerBound page key),
    page.entries.drop (Tree.lowerBound page key), ?_, ?_, ?_, ?_⟩
  · rw [List.take_append_drop]
  · have upTo : Tree.lowerBound page key ≤ page.entries.length := inside
    rw [List.length_take, Nat.min_eq_left upTo]
  · intro entry member
    obtain ⟨i, place, found⟩ := List.mem_take_iff_getElem.mp member
    have below := low i (Nat.zero_le i) (by unfold Tree.lowerBound at place; omega)
    rw [List.getElem?_eq_getElem (by omega), found] at below
    simpa using below
  · intro entry member
    obtain ⟨i, found⟩ := List.getElem?_of_mem member
    rw [List.getElem?_drop] at found
    have above :=
      high (Tree.lowerBound page key + i) (Nat.le_add_right _ _)
        (List.getElem?_eq_some_iff.mp found).1
    rw [found] at above
    simpa using above

theorem has_key_iff {page : LeafPage K V} {front back : List (K × V)}
    (sorted : (page.entries.map Prod.fst).Pairwise (· < ·)) (whole : page.entries = front ++ back)
    (low : ∀ entry ∈ front, entry.1 < key) (high : ∀ entry ∈ back, key ≤ entry.1) :
    Tree.hasKeyAt page front.length key = true ↔ key ∈ page.entries.map Prod.fst := by
  unfold Tree.hasKeyAt
  rw [whole, List.getElem?_append_right (le_refl _), Nat.sub_self]
  rw [whole, List.map_append, List.pairwise_append] at sorted
  constructor
  · intro here
    cases back with
    | nil => simp at here
    | cons entry rest =>
        have same : entry.1 = key := by simpa using here
        simp [← same]
  · intro member
    rw [List.map_append, List.mem_append] at member
    rcases member with inFront | inBack
    · obtain ⟨entry, inside, rfl⟩ := List.mem_map.mp inFront
      exact absurd (low entry inside) (lt_irrefl _)
    · cases back with
      | nil => cases inBack
      | cons entry rest =>
          obtain ⟨other, inside, rfl⟩ := List.mem_map.mp inBack
          rcases List.mem_cons.mp inside with rfl | later
          · simp
          · -- an entry behind the first one is above it, and the first one is not below the key
            have rise := (List.pairwise_cons.mp sorted.2.1).1 _ (List.mem_map_of_mem later)
            exact absurd (high entry List.mem_cons_self) (not_le.mpr rise)

end Pages

/-! The way down a tree. -/

section Descents
variable {K V : Type} [LinearOrder K] {tree : Tree K V} {OkLeaf : PageId → LeafPage K V → Prop}
  {OkNode : PageId → InternalPage K → Prop} {root pid : PageId} {path : List PageId}
  {before after : Row K PageId} {fence : WithBot K} {height : Nat} {key : K}

def Searches (search : InternalPage K → Option PageId) (key : K) : Prop :=
  ∀ page : InternalPage K, page.entries ≠ [] → Rising page.entries →
    ∃ left separator child right, Cut page.entries key left separator child right ∧
      search page = some child

theorem rising_of_fences {page : InternalPage K} (found : tree.pages pid = some (.inr page))
    (rise : ((expand InternalPage.entries tree.pages (before ++ (fence, pid) :: after)).map
      Prod.fst).Pairwise (· < ·)) :
    Rising page.entries := by
  rw [expand_append, expand_cons, kids_node found, List.map_append, List.map_append,
      List.pairwise_append, List.pairwise_append] at rise
  have inner := rise.2.1.1
  unfold Rising
  cases list : page.entries with
  | nil => simp
  | cons entry rest =>
      rw [list] at inner
      simp only [refence, List.map_cons, List.pairwise_cons, raise, List.map_map] at inner
      rw [List.tail_cons, List.pairwise_map]
      have := List.pairwise_map.mp inner.2
      exact this.imp fun {a b} less => by simpa using less

theorem descend_finds {search : InternalPage K → Option PageId} (searches : Searches search key)
    (way : Descent InternalPage.entries tree.pages root path before fence pid after)
    (forest : Forest InternalPage.entries tree.pages OkLeaf OkNode (height + path.length)
      [((⊥ : WithBot K), root)])
    (rise : ((fringe InternalPage.entries tree.pages (height + path.length)
      [((⊥ : WithBot K), root)]).map Prod.fst).Pairwise (· < ·))
    (near : Near key fence after) {fuel : Nat} (enough : height < fuel) :
    ∃ path' before' fence' pid' after' leaf, tree.descend search fuel pid path =
      .ok (path', pid', leaf) ∧
        Descent InternalPage.entries tree.pages root path' before' fence' pid' after' ∧
        path'.length = height + path.length ∧ Near key fence' after' ∧
        tree.pages pid' = some (.inl leaf) ∧
      OkLeaf pid' leaf := by
  induction height generalizing path before fence pid after fuel with
  | zero =>
      have here : Forest InternalPage.entries tree.pages OkLeaf OkNode 0
        (before ++ (fence, pid) :: after) :=
        descent_row way ▸ forest_fringe forest
      obtain ⟨leaf, found, good⟩ := here (fence, pid) (by simp)
      obtain ⟨fuel, rfl⟩ : ∃ n, fuel = n + 1 := ⟨fuel - 1, by omega⟩
      simp only at found
      exact ⟨path, before, fence, pid, after, leaf,
        by simp [Tree.descend, found], way, by simp, near, found, good⟩
  | succ height ih =>
      have row := descent_row way
      have here : Forest InternalPage.entries tree.pages OkLeaf OkNode (height + 1)
        (before ++ (fence, pid) :: after) :=
        row ▸ forest_fringe forest
      obtain ⟨fuel, rfl⟩ : ∃ n, fuel = n + 1 := ⟨fuel - 1, by omega⟩
      obtain ⟨page, found, more, _⟩ := here.1 (fence, pid) (by simp)
      simp only at found
      have lowest : fringe InternalPage.entries tree.pages (height + 1)
        (before ++ (fence, pid) :: after) =
        fringe InternalPage.entries tree.pages (height + 1 + path.length)
          [((⊥ : WithBot K), root)] := by
        rw [← row, fringe_fringe, Nat.add_comm]
      have fences : ((expand InternalPage.entries tree.pages (before ++ (fence, pid) :: after)).map
          Prod.fst).Pairwise (· < ·) := by
        rw [← lowest] at rise
        exact List.Pairwise.sublist (fences_sublist here.2) rise
      obtain ⟨left, separator, child, right, cut, goes⟩ :=
        searches page more (rising_of_fences found fences)
      have deeper := Descent.down way found cut.whole
      have afterFences : ((expand InternalPage.entries tree.pages after).map Prod.fst).Pairwise
        (· < ·) := by
        rw [expand_append, expand_cons] at fences
        have part :=
          (List.sublist_append_right (refence fence (kids InternalPage.entries tree.pages pid))
            (expand InternalPage.entries tree.pages after)).trans
            (List.sublist_append_right (expand InternalPage.entries tree.pages before) _)
        exact List.Pairwise.sublist (part.map Prod.fst) fences
      have nearer := near_down near (fun slot member => by
        obtain ⟨node, there, some, _⟩ := here.1 slot (by simp [member])
        exact ⟨node, there, some⟩) afterFences cut.low cut.high
      have length : height + 1 + path.length = height + (pid :: path).length := by
        rw [List.length_cons]
        omega
      rw [length] at forest rise
      obtain ⟨path', before', fence', pid', after', leaf, done, lower, depth, rest⟩ :=
        ih deeper forest rise nearer (show height < fuel by omega)
      refine ⟨path', before', fence', pid', after', leaf, ?_, lower, by omega, rest⟩
      rw [Tree.descend, found]
      simp only [goes]
      exact done

end Descents

end BusTub.BPlusTree
