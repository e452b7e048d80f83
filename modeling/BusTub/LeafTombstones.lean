import BusTub.TreeInsert

/-!
The tombstones of one leaf. The reference has its entries in order and the keys that
are to be deleted, in the order of their deletion; when it has as many of these as
there are slots for tombstones, the oldest one goes for good.
-/

namespace BusTub.LeafTombstones

open BPlusTree

variable {K V : Type} [LinearOrder K]

inductive LeafOp (K V : Type) where
  | insert (key : K) (value : V)
  | remove (key : K)
  | removeAt (index : Nat)

def applyOp (tombCnt : Nat) (page : LeafPage K V) : LeafOp K V → LeafPage K V
  | .insert key value =>
      let index := Tree.lowerBound page key
      if Tree.hasKeyAt page index key then page else page.insertAt index key value
  | .remove key => (page.remove tombCnt key).2
  | .removeAt index => if index < page.getSize then page.removeAt index else page

def applyOps (tombCnt : Nat) (page : LeafPage K V) (ops : List (LeafOp K V)) : LeafPage K V :=
  ops.foldl (applyOp tombCnt) page

/-- A leaf with the keys that are to be deleted as a queue. -/
structure Reference (K V : Type) where
  entries : List (K × V)
  deleted : List K

def Reference.apply (tombCnt : Nat) (reference : Reference K V) : LeafOp K V → Reference K V
  | .insert key value =>
      if key ∈ reference.entries.map Prod.fst then reference
      else { reference with
        entries :=
          reference.entries.takeWhile (·.1 < key) ++ (key, value) :: reference.entries.dropWhile
          (·.1 < key) }
  | .remove key =>
      if key ∉ reference.entries.map Prod.fst ∨ key ∈ reference.deleted then reference
      else if reference.deleted.length < tombCnt then
        { reference with deleted := reference.deleted ++ [key] }
      else
        match reference.deleted with
        | [] => { reference with entries := reference.entries.filter (·.1 ≠ key) }
        | oldest :: rest => ⟨reference.entries.filter (·.1 ≠ oldest), rest ++ [key]⟩
  | .removeAt index =>
      match reference.entries[index]? with
      | none => reference
      | some (key, _) => ⟨reference.entries.eraseIdx index, reference.deleted.filter (· ≠ key)⟩

def Reference.applyOps (tombCnt : Nat) (reference : Reference K V) (ops : List (LeafOp K V)) :
    Reference K V :=
  ops.foldl (Reference.apply tombCnt) reference

/-- The leaf has the entries of the reference, and its tombstones are distinct places of
the deleted keys, in the order of deletion. -/
structure Represents (tombCnt : Nat) (page : LeafPage K V) (reference : Reference K V) : Prop where
  entries : page.entries = reference.entries
  sorted : (page.entries.map Prod.fst).Pairwise (· < ·)
  unique : page.tombstones.Nodup
  inside : ∀ tombstone ∈ page.tombstones, tombstone < page.getSize
  bound : page.tombstones.length ≤ tombCnt
  order : page.getTombstones = reference.deleted

section Steps
variable {tombCnt : Nat} {page : LeafPage K V} {reference : Reference K V} {key : K} {value : V}
  {index : Nat} {list : List Nat}

omit [LinearOrder K] in
/-- Renumbering tombstones along with their entries leaves their keys as they are. -/
theorem renumbered (page other : LeafPage K V) {place : Nat → Nat}
    (moved : ∀ tombstone ∈ list, other.entries[place tombstone]? = page.entries[tombstone]?) :
    (list.map place).filterMap (fun tombstone => (other.entries[tombstone]?).map Prod.fst) =
      list.filterMap fun tombstone => (page.entries[tombstone]?).map Prod.fst := by
  rw [List.filterMap_map]
  apply List.filterMap_congr
  intro tombstone member
  rw [Function.comp_apply, moved tombstone member]

theorem represents_insert (represents : Represents tombCnt page reference) :
    Represents tombCnt (applyOp tombCnt page (.insert key value))
      (reference.apply tombCnt (.insert key value)) := by
  obtain ⟨front, back, whole, lower, low, high⟩ := @lower_bound_cut K V _ page key represents.sorted
  have here := has_key_iff represents.sorted whole low high
  simp only [applyOp, Reference.apply, ← represents.entries, lower]
  by_cases inPage : key ∈ page.entries.map Prod.fst
  · rw [if_pos (here.mpr inPage), if_pos inPage]
    exact represents
  · rw [if_neg (fun found => inPage (here.mp found)), if_neg inPage]
    have above : ∀ entry ∈ back, ¬entry.1 < key :=
      fun entry member => not_lt.mpr (high entry member)
    obtain ⟨index, upTo, place, _, sorted, _⟩ :=
      @place_for K V _ page key value represents.sorted inPage
    rw [lower] at place
    subst place
    have entries : (page.insertAt front.length key value).entries = front ++ (key, value) :: back :=
      leaf_insert_at whole
    have size : (page.insertAt front.length key value).getSize = page.getSize + 1 :=
      insert_at_size upTo
    refine ⟨?_, sorted, ?_, ?_, ?_, ?_⟩
    · have pass : ∀ entry ∈ front, decide (entry.1 < key) = true :=
        fun entry member => decide_eq_true (low entry member)
      have stop : back.takeWhile (fun entry => decide (entry.1 < key)) = [] ∧
          back.dropWhile (fun entry => decide (entry.1 < key)) = back := by
        cases back with
        | nil => exact ⟨rfl, rfl⟩
        | cons entry rest =>
            have blocked : decide (entry.1 < key) = false :=
              decide_eq_false (above entry List.mem_cons_self)
            constructor
            · rw [List.takeWhile_cons, blocked]
              rfl
            · rw [List.dropWhile_cons, blocked]
              rfl
      rw [entries, whole, List.takeWhile_append_of_pos pass, List.dropWhile_append_of_pos pass,
          stop.1, stop.2, List.append_nil]
    · exact represents.unique.map (shifted_injective _)
    · intro tombstone member
      rw [size]
      rcases mem_shifted.mp member with ⟨_, old⟩ | ⟨_, old⟩
      · have := represents.inside tombstone old
        omega
      · have := represents.inside _ old
        omega
    · rw [insert_at_tombstones, List.length_map]
      exact represents.bound
    · rw [← represents.order]
      apply renumbered page
      intro tombstone _
      rw [entries, whole]
      by_cases later : front.length ≤ tombstone
      · rw [if_pos later, List.getElem?_append_right later, List.getElem?_append_right (by omega),
          show tombstone + 1 - front.length = tombstone - front.length + 1 by
            omega, List.getElem?_cons_succ]
      · rw [if_neg later, List.getElem?_append_left (by omega),
          List.getElem?_append_left (by omega)]

def unshifted (index tombstone : Nat) : Nat := if index < tombstone then tombstone - 1
    else tombstone

omit [LinearOrder K] in
theorem remove_at_entry {tombstone : Nat} (other : tombstone ≠ index) :
    (page.removeAt index).entries[unshifted index tombstone]? = page.entries[tombstone]? := by
  unfold unshifted
  simp only [LeafPage.removeAt, List.getElem?_eraseIdx]
  by_cases later : index < tombstone
  · rw [if_pos later, if_neg (by omega), show tombstone - 1 + 1 = tombstone by omega]
  · rw [if_neg later, if_pos (by omega)]

theorem same_place (sorted : (page.entries.map Prod.fst).Pairwise (· < ·)) {one two : Nat}
    {first second : K × V} (atOne : page.entries[one]? = some first)
    (atTwo : page.entries[two]? = some second) (same : first.1 = second.1) :
    one = two := by
  have different : (page.entries.map Prod.fst).Nodup := sorted.imp fun less => ne_of_lt less
  have inside : one < (page.entries.map Prod.fst).length := by
    rw [List.length_map]
    exact (List.getElem?_eq_some_iff.mp atOne).1
  refine (List.getElem?_inj inside different).mp ?_
  rw [List.getElem?_map, List.getElem?_map, atOne, atTwo, Option.map_some, Option.map_some, same]

theorem tombstones_left (sorted : (page.entries.map Prod.fst).Pairwise (· < ·)) {entry : K × V}
    (found : page.entries[index]? = some entry)
    (inside : ∀ tombstone ∈ list, tombstone < page.getSize) :
    (list.filter (· ≠ index)).filterMap (fun tombstone => (page.entries[tombstone]?).map Prod.fst) =
      (list.filterMap fun tombstone => (page.entries[tombstone]?).map Prod.fst).filter
        (· ≠ entry.1) := by
  induction list with
  | nil => rfl
  | cons tombstone list ih =>
      have rest := ih fun other member => inside other (List.mem_cons_of_mem _ member)
      obtain ⟨held, here⟩ : ∃ held, page.entries[tombstone]? = some held :=
        ⟨_, List.getElem?_eq_getElem (inside tombstone List.mem_cons_self)⟩
      by_cases same : tombstone = index
      · rw [List.filter_cons_of_neg (by simpa using same), rest, List.filterMap_cons, same, found,
          Option.map_some]
        rw [List.filter_cons_of_neg (by simp)]
      · have other : held.1 ≠ entry.1 := fun sameKey =>
          same (same_place sorted here found sameKey)
        rw [List.filter_cons_of_pos (by simpa using same), List.filterMap_cons,
            List.filterMap_cons, here, Option.map_some]
        simp only
        rw [rest, List.filter_cons_of_pos (by simpa using other)]

theorem represents_remove_at (represents : Represents tombCnt page reference) :
    Represents tombCnt (applyOp tombCnt page (.removeAt index))
      (reference.apply tombCnt (.removeAt index)) := by
  simp only [applyOp, Reference.apply, ← represents.entries]
  by_cases inPage : index < page.getSize
  · obtain ⟨entry, found⟩ : ∃ entry, page.entries[index]? = some entry :=
      ⟨_, List.getElem?_eq_getElem inPage⟩
    rw [if_pos inPage, found]
    have tombstones : (page.removeAt index).tombstones =
        (page.tombstones.filter (· ≠ index)).map (unshifted index) :=
      rfl
    have left : ∀ tombstone ∈ page.tombstones.filter (· ≠ index), tombstone ≠ index ∧
        tombstone < page.getSize := by
      intro tombstone member
      rw [List.mem_filter] at member
      exact ⟨by simpa using member.2, represents.inside tombstone member.1⟩
    refine ⟨rfl, ?_, ?_, ?_, ?_, ?_⟩
    · apply List.Pairwise.sublist _ represents.sorted
      exact (List.eraseIdx_sublist _ _).map Prod.fst
    · rw [tombstones]
      apply List.Nodup.map_on _ (represents.unique.filter _)
      intro one inOne two inTwo same
      have := (left one inOne).1
      have := (left two inTwo).1
      unfold unshifted at same
      split at same <;> split at same <;> omega
    · rw [tombstones]
      intro place member
      obtain ⟨tombstone, old, rfl⟩ := List.mem_map.mp member
      obtain ⟨other, below⟩ := left tombstone old
      have size : (page.removeAt index).getSize = page.getSize - 1 := by
        simp only [LeafPage.getSize, LeafPage.removeAt]
        rw [List.length_eraseIdx_of_lt inPage]
      rw [size]
      unfold unshifted
      split <;> omega
    · rw [tombstones, List.length_map]
      exact (List.length_filter_le _ _).trans represents.bound
    · rw [LeafPage.getTombstones, tombstones, ← represents.order,
        renumbered page _ fun tombstone member => remove_at_entry (left tombstone member).1,
        tombstones_left represents.sorted found represents.inside]
      rfl
  · rw [if_neg inPage, List.getElem?_eq_none (by simpa [LeafPage.getSize] using inPage)]
    exact represents

theorem find_place (sorted : (page.entries.map Prod.fst).Pairwise (· < ·))
    (found : page.entries[index]? = some (key, value)) :
    page.entries.findIdx? (fun entry => decide (entry.1 = key)) = some index := by
  rw [List.findIdx?_eq_some_iff_getElem]
  obtain ⟨inside, here⟩ := List.getElem?_eq_some_iff.mp found
  refine ⟨inside, by simp [here], fun place before => ?_⟩
  have there : page.entries[place]? = some page.entries[place] :=
    List.getElem?_eq_getElem (by omega)
  rw [decide_eq_true_eq]
  intro same
  have := same_place sorted there found same
  omega

theorem tombstone_iff (represents : Represents tombCnt page reference)
    (found : page.entries[index]? = some (key, value)) :
    index ∈ page.tombstones ↔ key ∈ reference.deleted := by
  rw [← represents.order, LeafPage.getTombstones, List.mem_filterMap]
  constructor
  · intro member
    exact ⟨index, member, by rw [found]; rfl⟩
  · rintro ⟨place, member, there⟩
    obtain ⟨entry, atPlace, same⟩ := Option.map_eq_some_iff.mp there
    rwa [same_place represents.sorted found atPlace same.symm]

theorem deleted_length (represents : Represents tombCnt page reference) :
    reference.deleted.length = page.tombstones.length := by
  have all : ∀ list : List Nat, (∀ tombstone ∈ list, tombstone < page.getSize) →
      (list.filterMap fun tombstone => (page.entries[tombstone]?).map Prod.fst).length =
        list.length := by
    intro list
    induction list with
    | nil => exact fun _ => rfl
    | cons tombstone list ih =>
        intro inside
        obtain ⟨held, here⟩ : ∃ held, page.entries[tombstone]? = some held :=
          ⟨_, List.getElem?_eq_getElem (inside tombstone List.mem_cons_self)⟩
        rw [List.filterMap_cons, here]
        simp only [Option.map_some, List.length_cons]
        rw [ih fun other member => inside other (List.mem_cons_of_mem _ member)]
  rw [← represents.order]
  exact all page.tombstones represents.inside

/-- The leaf has as many tombstones as it can, and a live key is to be removed. -/
def Crowded (tombCnt : Nat) (page : LeafPage K V) (key : K) : Prop :=
  tombCnt ≤ page.tombstones.length ∧ ∃ value, Live page key value

theorem represents_remove (represents : Represents tombCnt page reference)
    (space : ¬Crowded tombCnt page key) :
    Represents tombCnt (applyOp tombCnt page (.remove key))
      (reference.apply tombCnt (.remove key)) := by
  simp only [applyOp, Reference.apply, ← represents.entries]
  by_cases inPage : key ∈ page.entries.map Prod.fst
  · obtain ⟨⟨key, value⟩, member, rfl⟩ := List.mem_map.mp inPage
    obtain ⟨index, found⟩ := List.getElem?_of_mem member
    have place := find_place represents.sorted found
    simp only [LeafPage.remove, place, LeafPage.isTombstone, decide_eq_true_eq]
    by_cases dead : index ∈ page.tombstones
    · rw [if_pos dead, if_pos (Or.inr ((tombstone_iff represents found).mp dead))]
      exact represents
    · have alive : key ∉ reference.deleted :=
        fun deleted => dead ((tombstone_iff represents found).mpr deleted)
      have room : page.tombstones.length < tombCnt := by
        by_contra full
        exact space ⟨by omega, value, index, found, dead⟩
      rw [if_neg dead, if_neg (by omega), if_neg
        (by rintro (absent | deleted); exacts [absent inPage, alive deleted]),
        if_pos (by rw [deleted_length represents]; exact room)]
      refine ⟨rfl, represents.sorted, ?_, ?_, ?_, ?_⟩
      · rw [List.nodup_append]
        refine ⟨represents.unique, List.nodup_singleton _, fun one inOne two inTwo => ?_⟩
        rintro rfl
        exact dead (List.mem_singleton.mp inTwo ▸ inOne)
      · intro tombstone inside
        rcases List.mem_append.mp inside with old | new
        · exact represents.inside tombstone old
        · rw [List.mem_singleton.mp new]
          exact (List.getElem?_eq_some_iff.mp found).1
      · rw [List.length_append, List.length_singleton]
        omega
      · rw [← represents.order, LeafPage.getTombstones, List.filterMap_append]
        simp [LeafPage.getTombstones, found]
  · have missing : page.entries.findIdx? (fun entry => decide (entry.1 = key)) = none := by
      rw [List.findIdx?_eq_none_iff]
      intro entry member
      rw [decide_eq_false_iff_not]
      rintro rfl
      exact inPage (List.mem_map_of_mem member)
    simp only [LeafPage.remove, missing]
    rw [if_pos (Or.inl inPage)]
    exact represents

/-- There the leaf loses the entry of the key, and the reference that of its oldest tombstone. -/
theorem crowded_parts (positive : 1 ≤ tombCnt) (represents : Represents tombCnt page reference)
    (crowded : Crowded tombCnt page key) :
    ¬Represents tombCnt (applyOp tombCnt page (.remove key))
      (reference.apply tombCnt (.remove key)) := by
  obtain ⟨full, value, index, found, dead⟩ := crowded
  have alive : key ∉ reference.deleted :=
    fun deleted => dead ((tombstone_iff represents found).mpr deleted)
  have inPage : key ∈ page.entries.map Prod.fst :=
    List.mem_map.mpr ⟨_, List.mem_of_getElem? found, rfl⟩
  have length := deleted_length represents
  obtain ⟨oldest, rest, list⟩ : ∃ oldest rest, reference.deleted = oldest :: rest :=
    List.exists_cons_of_length_pos (by omega)
  intro after
  have same := after.entries
  have other : key ≠ oldest := fun same => alive (by rw [list, same]; exact List.mem_cons_self)
  have stays : (key, value) ∈ (reference.apply tombCnt (.remove key)).entries := by
    simp only [Reference.apply, ← represents.entries]
    rw [if_neg (by rintro (absent | deleted); exacts [absent inPage, alive deleted]),
      if_neg (by omega), list]
    simp only [List.mem_filter, decide_eq_true_eq]
    exact ⟨List.mem_of_getElem? found, by simpa using other⟩
  rw [← same] at stays
  simp only [applyOp, LeafPage.remove, find_place represents.sorted found, LeafPage.isTombstone,
    decide_eq_true_eq, if_neg dead, if_pos full, LeafPage.removeAt] at stays
  obtain ⟨place, there⟩ := List.getElem?_of_mem stays
  rw [List.getElem?_eraseIdx] at there
  split at there
  · have := same_place represents.sorted found there rfl
    omega
  · have := same_place represents.sorted found there rfl
    omega

end Steps

section Runs
variable {tombCnt : Nat} {page : LeafPage K V} {reference : Reference K V}

theorem represents_step (represents : Represents tombCnt page reference) (op : LeafOp K V)
    (space : ∀ key, op = .remove key → ¬Crowded tombCnt page key) :
    Represents tombCnt (applyOp tombCnt page op) (reference.apply tombCnt op) := by
  cases op with
  | insert key value => exact represents_insert represents
  | remove key => exact represents_remove represents (space key rfl)
  | removeAt index => exact represents_remove_at represents

/-- The tombstones of a leaf are the deletions of the reference, all along a run, just when no
live key is removed from a leaf that has all the tombstones it can have. -/
theorem tombstones_fifo_iff_uncrowded (tombCnt : Nat) (positive : 1 ≤ tombCnt) (page : LeafPage K V)
    (reference : Reference K V) (start : Represents tombCnt page reference)
    (ops : List (LeafOp K V)) :
    (∀ done left, ops = done ++ left →
        Represents tombCnt (applyOps tombCnt page done) (reference.applyOps tombCnt done)) ↔
      ∀ done key left, ops = done ++ .remove key :: left →
      ¬Crowded tombCnt (applyOps tombCnt page done) key := by
  constructor
  · intro all done key left split crowded
    have before := all done (.remove key :: left) split
    have after := all (done ++ [.remove key]) left (by rw [split, List.append_assoc]; rfl)
    simp only [applyOps, Reference.applyOps, List.foldl_append, List.foldl_cons, List.foldl_nil]
      at after
    exact crowded_parts positive before crowded after
  · intro space done left split
    induction done generalizing page reference ops with
    | nil => exact start
    | cons op done ih =>
        subst split
        have next := represents_step start op fun key same => by
          subst same
          exact space [] key (done ++ left) rfl
        refine ih _ _ next (done ++ left) (fun early key later split => ?_) rfl
        exact space (op :: early) key later (by rw [List.cons_append, split, List.cons_append])

theorem one_tombstone_suffices :
    Represents 1
      (applyOps 1 ⟨4, none, [(1, 10), (2, 20)], []⟩
      ([.insert 3 30, .remove 2] : List (LeafOp Nat Nat)))
      (Reference.applyOps 1 ⟨[(1, 10), (2, 20)], []⟩ [.insert 3 30, .remove 2]) := by
  refine (tombstones_fifo_iff_uncrowded 1 (le_refl _) ⟨4, none, [(1, 10), (2, 20)], []⟩
    ⟨[(1, 10), (2, 20)], []⟩ ⟨rfl, by simp, by simp, by simp, by simp, rfl⟩ _).mpr
      (fun done key left split crowded => ?_) _ [] rfl
  -- only the second operation removes a key, and there are no tombstones before it
  rcases done with _ | ⟨first, _ | ⟨second, done⟩⟩
  · simp at split
  · simp only [List.cons_append, List.nil_append, List.cons.injEq] at split
    rw [← split.1] at crowded
    exact absurd crowded.1 (by decide)
  · have := congrArg List.length split
    simp at this

/-- The removal of 2 takes 2 itself out, though 1 was deleted before. -/
theorem second_removal_overtakes :
    ¬∀ (tombCnt : Nat) (page : LeafPage Nat Nat) (reference : Reference Nat Nat), 1 ≤ tombCnt →
      Represents tombCnt page reference → ∀ ops done left, ops = done ++ left →
        Represents tombCnt (applyOps tombCnt page done) (reference.applyOps tombCnt done) := by
  intro claim
  have after := claim 1 ⟨4, none, [(1, 10), (2, 20)], []⟩ ⟨[(1, 10), (2, 20)], []⟩ (le_refl _)
    ⟨rfl, by simp, by simp, by simp, by simp, rfl⟩ [.remove 1, .remove 2]
      [.remove 1, .remove 2] [] rfl
  exact absurd after.entries (by decide)

end Runs

end BusTub.LeafTombstones
