import BusTub.BPlusTree

/-!
The array accesses of the page functions, loop by loop: which indexes of
`key_array_` with `rid_array_` or `page_id_array_`, and which of `tombstones_`, a
call uses. A page is stored in the tree where its entries and tombstones fit the
arrays. For the functions that put entries into a page this is the case exactly
where all of these indexes are inside; the others never use an index outside.
-/

namespace BusTub.PageAccesses

open BPlusTree

structure Accesses where
  entries : List Nat := []
  tombstones : List Nat := []

def Accesses.append (first second : Accesses) : Accesses :=
  ⟨first.entries ++ second.entries, first.tombstones ++ second.tombstones⟩

structure Accesses.Inside (slots tombs : Nat) (accesses : Accesses) : Prop where
  entries : ∀ index ∈ accesses.entries, index < slots
  tombstones : ∀ index ∈ accesses.tombstones, index < tombs

theorem append_inside {slots tombs : Nat} {first second : Accesses}
    (firstInside : first.Inside slots tombs)
    (secondInside : second.Inside slots tombs) : (first.append second).Inside slots tombs where
  entries := List.forall_mem_append.mpr ⟨firstInside.entries, secondInside.entries⟩
  tombstones := List.forall_mem_append.mpr ⟨firstInside.tombstones, secondInside.tombstones⟩

/-! ### Loops -/

/-- `for (int i = size; i > index; i--)`, which moves the entry at `i - 1` to `i`. -/
def moveUp (index size : Nat) : List Nat :=
  (List.range (size - index)).flatMap fun turn => [size - turn, size - turn - 1]

/-- `for (int i = index; i < size - 1; i++)`, which moves the entry at `i + 1` to `i`. -/
def moveDown (index size : Nat) : List Nat :=
  (List.range (size - 1 - index)).flatMap fun turn => [index + turn, index + turn + 1]

/-- `for (int i = 0; i < count; i++)`, which copies the entry at `source + i` to `target + i`. -/
def copy (source target count : Nat) : List Nat :=
  (List.range count).flatMap fun turn => [source + turn, target + turn]

section Loops
variable {index size source target count slots : Nat}

theorem range_inside (short : count ≤ slots) : ∀ place ∈ List.range count, place < slots := by
  intro place member
  exact (List.mem_range.mp member).trans_le short

theorem move_up_inside (inside : size < slots) : ∀ place ∈ moveUp index size, place < slots := by
  intro place member
  simp only [moveUp, List.mem_flatMap, List.mem_range, List.mem_cons, List.not_mem_nil, or_false]
    at member
  obtain ⟨turn, within, rfl | rfl⟩ := member
  · omega
  · omega

theorem move_up_top (below : index < size) : size ∈ moveUp index size := by
  simp only [moveUp, List.mem_flatMap, List.mem_range, List.mem_cons, List.not_mem_nil, or_false]
  exact ⟨0, by omega, Or.inl rfl⟩

/-- The first of the moves writes behind the last entry; without any the new entry is put there. -/
theorem shifted_inside_iff (within : index ≤ size) :
    (∀ place ∈ moveUp index size ++ [index], place < slots) ↔ size < slots := by
  constructor
  · intro inside
    by_cases last : index = size
    · exact last ▸ inside index (List.mem_append_right _ (List.mem_singleton_self index))
    · exact inside size (List.mem_append_left _ (move_up_top (by omega)))
  · intro room
    refine List.forall_mem_append.mpr ⟨move_up_inside room, ?_⟩
    intro place member
    obtain rfl := List.mem_singleton.mp member
    omega

theorem move_down_inside (inside : size ≤ slots) :
    ∀ place ∈ moveDown index size, place < slots := by
  intro place member
  simp only [moveDown, List.mem_flatMap, List.mem_range, List.mem_cons, List.not_mem_nil, or_false]
    at member
  obtain ⟨turn, within, rfl | rfl⟩ := member
  · omega
  · omega

theorem copy_inside_iff : (∀ place ∈ copy source target count, place < slots) ↔
    count = 0 ∨ source + count ≤ slots ∧ target + count ≤ slots := by
  simp only [copy, List.mem_flatMap, List.mem_range, List.mem_cons, List.not_mem_nil, or_false]
  constructor
  · intro inside
    by_cases empty : count = 0
    · exact Or.inl empty
    · have last := inside (source + (count - 1)) ⟨count - 1, by omega, Or.inl rfl⟩
      have lastTarget := inside (target + (count - 1)) ⟨count - 1, by omega, Or.inr rfl⟩
      omega
  · rintro bounds place ⟨turn, within, rfl | rfl⟩
    · omega
    · omega

end Loops

/-! ### Searches -/

def probes (goesRight : Nat → Bool) : Nat → Nat → Nat → List Nat
  | 0, _, _ => []
  | fuel + 1, lo, hi =>
      if lo < hi then
        (lo + hi) / 2 ::
          (if goesRight ((lo + hi) / 2) then probes goesRight fuel ((lo + hi) / 2 + 1) hi
          else probes goesRight fuel lo ((lo + hi) / 2))
      else []

theorem probes_below {goesRight : Nat → Bool} {fuel lo hi : Nat} :
    ∀ index ∈ probes goesRight fuel lo hi, index < hi := by
  induction fuel generalizing lo hi with
  | zero => exact List.forall_mem_nil _
  | succ fuel ih =>
      unfold probes
      split
      case isFalse => exact List.forall_mem_nil _
      case isTrue more =>
        intro index member
        cases List.mem_cons.mp member with
        | inl middle => omega
        | inr later =>
            split at later
            · exact ih index later
            -- the search goes on to the left of its middle
            · exact (ih index later).trans (by omega)

theorem bisect_within {goesRight : Nat → Bool} {fuel lo hi : Nat} :
    bisect goesRight fuel lo hi ≤ max lo hi := by
  induction fuel generalizing lo hi with
  | zero => exact Nat.le_max_left lo hi
  | succ fuel ih =>
      unfold bisect
      split
      case isFalse => exact Nat.le_max_left lo hi
      case isTrue more =>
        split
        · exact ih.trans (by omega)
        · exact ih.trans (by omega)

/-! ### Leaves -/

namespace Leaf
variable {K V : Type}

def Stored (options : Options) (page : LeafPage K V) : Prop :=
  page.entries.length ≤ options.LEAF_PAGE_SLOT_CNT ∧
    page.tombstones.length ≤ options.LEAF_PAGE_TOMB_CNT

def Inside (options : Options) :
    Accesses → Prop := Accesses.Inside options.LEAF_PAGE_SLOT_CNT options.LEAF_PAGE_TOMB_CNT

def insertAt (page : LeafPage K V) (index : Nat) : Accesses where
  entries := moveUp index page.getSize ++ [index]
  tombstones := List.range page.tombstones.length

def split (page : LeafPage K V) : Accesses where
  entries := copy (page.getSize / 2) 0 (page.getSize - page.getSize / 2)
  tombstones := List.range page.tombstones.length

def removeAt (page : LeafPage K V) (index : Nat) : Accesses where
  entries := moveDown index page.getSize
  tombstones := List.range page.tombstones.length

def isTombstone (page : LeafPage K V) (index : Nat) : Accesses where
  tombstones := List.range (min page.tombstones.length (page.tombstones.idxOf index + 1))

def remove [DecidableEq K] (tombCnt : Nat) (page : LeafPage K V) (key : K) : Accesses :=
  match page.entries.findIdx? fun entry => entry.1 = key with
  | none => ⟨List.range page.getSize, []⟩
  | some index =>
      let searched := Accesses.append ⟨List.range (index + 1), []⟩ (isTombstone page index)
      if page.isTombstone index then searched
      -- the tombstone buffer is full
      else if tombCnt ≤ page.tombstones.length then searched.append (removeAt page index)
      else searched.append ⟨[], [page.tombstones.length]⟩

def moveLastToFrontOf (page recipient : LeafPage K V) : Accesses where
  entries := moveUp 0 recipient.getSize ++ [0] ++ [page.getSize - 1]

def moveFirstToEndOf (page recipient : LeafPage K V) : Accesses where
  entries := [recipient.getSize, 0] ++ moveDown 0 page.getSize

def moveAllTo (page recipient : LeafPage K V) : Accesses where
  entries := copy 0 recipient.getSize page.getSize

def lowerBound [LinearOrder K] (page : LeafPage K V) (key : K) : Accesses where
  entries :=
    probes (fun mid => (page.entries[mid]?).any fun entry => entry.1 < key) page.getSize 0
      page.getSize ++
    if Tree.lowerBound page key < page.getSize then [Tree.lowerBound page key] else []

section Bounds
variable {options : Options} {tree : Tree K V} {pid : PageId} {page recipient : LeafPage K V}

theorem put_leaf_fails_iff : tree.putLeaf options pid page = .error .slots ↔
    ¬Stored options page := by
  unfold Tree.putLeaf Stored
  split
  case isTrue fits => simp [fits]
  case isFalse long => simp [long]

theorem insert_at_inside_iff (stored : Stored options page) {index : Nat}
    (within : index ≤ page.getSize) (key : K) (value : V) :
    Inside options (insertAt page index) ↔ Stored options (page.insertAt index key value) := by
  have length : (page.insertAt index key value).entries.length = page.getSize + 1 :=
    List.length_insertIdx_of_le_length within _
  have tombstones : (page.insertAt index key value).tombstones.length = page.tombstones.length :=
    List.length_map _
  constructor
  · intro inside
    exact ⟨length.trans_le ((shifted_inside_iff within).mp inside.entries),
      tombstones.trans_le stored.2⟩
  · intro fits
    exact ⟨(shifted_inside_iff within).mpr (length.symm.trans_le fits.1), range_inside stored.2⟩

theorem split_inside (stored : Stored options page) : Inside options (split page) where
  entries := by
    have entries : page.getSize ≤ _ := stored.1
    exact copy_inside_iff.mpr (Or.inr (by omega))
  tombstones := range_inside stored.2

theorem remove_at_inside (stored : Stored options page) (index : Nat) :
    Inside options (removeAt page index) :=
  ⟨move_down_inside stored.1, range_inside stored.2⟩

theorem is_tombstone_inside (stored : Stored options page) (index : Nat) :
    Inside options (isTombstone page index) :=
  ⟨List.forall_mem_nil _, range_inside ((Nat.min_le_left _ _).trans stored.2)⟩

/-- A tombstone is written only while there is a slot for it. -/
theorem remove_inside [DecidableEq K] (stored : Stored options page) (key : K) :
    Inside options (remove options.LEAF_PAGE_TOMB_CNT page key) := by
  unfold remove
  split
  case h_1 => exact ⟨range_inside stored.1, List.forall_mem_nil _⟩
  case h_2 index found =>
    have within : index < page.entries.length := (List.findIdx?_eq_some_iff_getElem.mp found).1
    have scanned : Inside options ⟨List.range (index + 1), []⟩ :=
      ⟨range_inside (within.trans_le stored.1), List.forall_mem_nil _⟩
    have searched := append_inside scanned (is_tombstone_inside stored index)
    dsimp only
    split
    · exact searched
    · split
      case isTrue => exact append_inside searched (remove_at_inside stored index)
      case isFalse space =>
        apply append_inside searched
        constructor
        · exact List.forall_mem_nil _
        · intro place member
          obtain rfl := List.mem_singleton.mp member
          omega

theorem move_last_inside_iff (stored : Stored options page)
    (recipientStored : Stored options recipient) (lender : 0 < page.getSize) :
    Inside options (moveLastToFrontOf page recipient) ↔
      Stored options (page.moveLastToFrontOf recipient).2 := by
  have entries : page.getSize ≤ options.LEAF_PAGE_SLOT_CNT := stored.1
  have length : (page.moveLastToFrontOf recipient).2.entries.length = recipient.getSize + 1 := by
    have nonempty := List.ne_nil_of_length_pos lender
    simp [LeafPage.moveLastToFrontOf, LeafPage.getSize, List.getLast?_eq_some_getLast nonempty]
  constructor
  · intro inside
    have moved :=
      (shifted_inside_iff (Nat.zero_le _)).mp (List.forall_mem_append.mp inside.entries).1
    exact ⟨length.trans_le moved, recipientStored.2⟩
  · intro fits
    constructor
    case tombstones => exact List.forall_mem_nil _
    case entries =>
      have moved := (shifted_inside_iff (Nat.zero_le _)).mpr (length.symm.trans_le fits.1)
      refine List.forall_mem_append.mpr ⟨moved, ?_⟩
      intro place member
      obtain rfl := List.mem_singleton.mp member
      omega

theorem move_first_inside_iff (stored : Stored options page)
    (recipientStored : Stored options recipient) (lender : 0 < page.getSize) :
    Inside options (moveFirstToEndOf page recipient) ↔
      Stored options (page.moveFirstToEndOf recipient).2 := by
  have entries : page.getSize ≤ options.LEAF_PAGE_SLOT_CNT := stored.1
  have length : (page.moveFirstToEndOf recipient).2.entries.length = recipient.getSize + 1 := by
    have nonempty := List.ne_nil_of_length_pos lender
    simp [LeafPage.moveFirstToEndOf, LeafPage.getSize, List.head?_eq_some_head nonempty]
  constructor
  · intro inside
    have moved := inside.entries recipient.getSize (List.mem_append_left _ (List.mem_cons_self ..))
    exact ⟨length.trans_le moved, recipientStored.2⟩
  · intro fits
    have moved : recipient.getSize < options.LEAF_PAGE_SLOT_CNT := length.symm.trans_le fits.1
    constructor
    case tombstones => exact List.forall_mem_nil _
    case entries =>
      refine List.forall_mem_append.mpr ⟨?_, move_down_inside entries⟩
      intro place member
      simp only [List.mem_cons, List.not_mem_nil, or_false] at member
      omega

theorem move_all_inside_iff (stored : Stored options page)
    (recipientStored : Stored options recipient) :
    Inside options (moveAllTo page recipient) ↔ Stored options (page.moveAllTo recipient) := by
  have entries : page.getSize ≤ options.LEAF_PAGE_SLOT_CNT := stored.1
  have kept : recipient.getSize ≤ options.LEAF_PAGE_SLOT_CNT := recipientStored.1
  have length : (page.moveAllTo recipient).entries.length = recipient.getSize + page.getSize :=
    List.length_append
  constructor
  · intro inside
    have copied := copy_inside_iff.mp inside.entries
    exact ⟨by omega, recipientStored.2⟩
  · intro fits
    have together := fits.1
    exact ⟨copy_inside_iff.mpr (Or.inr (by omega)), List.forall_mem_nil _⟩

theorem lower_bound_inside [LinearOrder K] (stored : Stored options page) (key : K) :
    Inside options (lowerBound page key) where
  tombstones := List.forall_mem_nil _
  entries := by
    have entries : page.getSize ≤ options.LEAF_PAGE_SLOT_CNT := stored.1
    refine List.forall_mem_append.mpr ⟨fun place member =>
      (probes_below place member).trans_le entries, ?_⟩
    intro place member
    split at member
    · obtain rfl := List.mem_singleton.mp member
      omega
    · cases member

end Bounds

end Leaf

/-! ### Internal pages -/

namespace Internal
variable {K : Type}

/-- What is seen to where an internal page is stored. -/
def Stored (options : Options) (page : InternalPage K) : Prop :=
  page.entries.length ≤ options.INTERNAL_PAGE_SLOT_CNT

def Inside (options : Options) : Accesses → Prop := Accesses.Inside options.INTERNAL_PAGE_SLOT_CNT 0

def insertAt (page : InternalPage K) (index : Nat) : Accesses where
  entries := moveUp index page.getSize ++ [index]

def split (page : InternalPage K) : Accesses where
  entries :=
    [page.getSize / 2, 0] ++ copy (page.getSize / 2 + 1) 1 (page.getSize - (page.getSize / 2 + 1))

def removeAt (page : InternalPage K) (index : Nat) : Accesses where
  entries := moveDown index page.getSize

def valueIndex (page : InternalPage K) (value : PageId) : Accesses where
  entries := List.range (((page.valueIndex value).map (· + 1)).getD page.getSize)

/-- `ValueIndex` of `UpdateAncestorMinKey` in the bytes of a leaf, up to the size of the leaf. -/
def valueIndexInLeaf {V : Type} (page : LeafPage K V) : Accesses where
  entries := List.range page.getSize

def setKeyAt (index : Nat) : Accesses where
  entries := [index]

/-- The separator is put at index 1 in any case. -/
def moveLastToFrontOf (page recipient : InternalPage K) : Accesses where
  entries := moveUp 0 recipient.getSize ++ [0] ++ [1, page.getSize - 1]

def moveFirstToEndOf (page recipient : InternalPage K) : Accesses where
  entries := [recipient.getSize, 0, 1] ++ moveDown 1 page.getSize

def moveAllTo (page recipient : InternalPage K) : Accesses where
  entries := [recipient.getSize, 0] ++ copy 1 (recipient.getSize + 1) (page.getSize - 1)

/-- The search on the way down, and `internal->ValueAt(lo - 1)` behind it. -/
def childFor [LinearOrder K] (page : InternalPage K) (key : K) : Accesses where
  entries :=
    probes (fun mid => (page.entries[mid]?).any fun entry => entry.1 ≤ key) page.getSize 1
      page.getSize ++
    [page.upperBound key - 1]

section Bounds
variable {V : Type} {options : Options} {tree : Tree K V} {pid : PageId}
  {page recipient : InternalPage K} {index : Nat}

theorem put_internal_fails_iff : tree.putInternal options pid page = .error .slots ↔
    ¬Stored options page := by
  unfold Tree.putInternal Stored
  split
  case isTrue fits => simp [fits]
  case isFalse long => simp [long]

theorem insert_at_inside_iff (within : index ≤ page.getSize) (key : K) (value : PageId) :
    Inside options (insertAt page index) ↔ Stored options (page.insertAt index key value) := by
  have length : (page.insertAt index key value).entries.length = page.getSize + 1 :=
    List.length_insertIdx_of_le_length within _
  constructor
  · intro inside
    exact length.trans_le ((shifted_inside_iff within).mp inside.entries)
  · intro fits
    exact ⟨(shifted_inside_iff within).mpr (length.symm.trans_le fits), List.forall_mem_nil _⟩

/-- The page to be split is not empty: it has just been given a child. -/
theorem split_inside (stored : Stored options page) (nonempty : 0 < page.getSize) :
    Inside options (split page) where
  tombstones := List.forall_mem_nil _
  entries := by
    have entries : page.getSize ≤ options.INTERNAL_PAGE_SLOT_CNT := stored
    have moved := (@copy_inside_iff (page.getSize / 2 + 1) 1 (page.getSize - (page.getSize / 2 + 1))
      options.INTERNAL_PAGE_SLOT_CNT).mpr (by omega)
    refine List.forall_mem_append.mpr ⟨?_, moved⟩
    intro place member
    simp only [List.mem_cons, List.not_mem_nil, or_false] at member
    omega

theorem remove_at_inside (stored : Stored options page) (index : Nat) :
    Inside options (removeAt page index) :=
  ⟨move_down_inside stored, List.forall_mem_nil _⟩

theorem value_index_inside (stored : Stored options page) (value : PageId) :
    Inside options (valueIndex page value) := by
  constructor
  case tombstones => exact List.forall_mem_nil _
  case entries =>
    cases found : page.valueIndex value with
    | none =>
        rw [valueIndex, found]
        exact range_inside stored
    | some index =>
        have within : index < page.entries.length := (List.findIdx?_eq_some_iff_getElem.mp found).1
        rw [valueIndex, found]
        exact range_inside (within.trans_le stored)

theorem value_index_in_leaf_inside {leaf : LeafPage K V} (stored : Leaf.Stored options leaf) :
    Inside options (valueIndexInLeaf leaf) where
  tombstones := List.forall_mem_nil _
  entries := by
    have fewer : options.LEAF_PAGE_SLOT_CNT ≤ options.INTERNAL_PAGE_SLOT_CNT :=
      Nat.div_le_div (by omega) (by omega) (by omega)
    exact range_inside (stored.1.trans fewer)

theorem set_key_inside (stored : Stored options page) {value : PageId}
    (found : page.valueIndex value = some index) : Inside options (setKeyAt index) where
  tombstones := List.forall_mem_nil _
  entries := by
    have within : index < page.entries.length := (List.findIdx?_eq_some_iff_getElem.mp found).1
    intro place member
    obtain rfl := List.mem_singleton.mp member
    exact within.trans_le stored

theorem move_all_inside_iff {middleKey : K} (stored : Stored options page)
    (nonempty : 0 < page.getSize) :
    Inside options (moveAllTo page recipient) ↔
      Stored options (page.moveAllTo recipient middleKey) := by
  have entries : page.getSize ≤ options.INTERNAL_PAGE_SLOT_CNT := stored
  have length : (page.moveAllTo recipient middleKey).entries.length = recipient.getSize +
    page.getSize := by
    simp [InternalPage.moveAllTo, InternalPage.getSize]
  have copies :=
    @copy_inside_iff 1 (recipient.getSize + 1) (page.getSize - 1) options.INTERNAL_PAGE_SLOT_CNT
  constructor
  · intro inside
    obtain ⟨ends, copied⟩ := List.forall_mem_append.mp inside.entries
    have first := ends recipient.getSize (List.mem_cons_self ..)
    have rest := copies.mp copied
    exact length.trans_le (by omega)
  · intro fits
    have together : recipient.getSize + page.getSize ≤ options.INTERNAL_PAGE_SLOT_CNT :=
      length.symm.trans_le fits
    constructor
    case tombstones => exact List.forall_mem_nil _
    case entries =>
      refine List.forall_mem_append.mpr ⟨?_, copies.mpr (by omega)⟩
      intro place member
      simp only [List.mem_cons, List.not_mem_nil, or_false] at member
      omega

section Moves
variable [Inhabited K] {middleKey : K}

theorem move_last_inside_iff (slots : 2 ≤ options.INTERNAL_PAGE_SLOT_CNT)
    (stored : Stored options page)
    (lender : 0 < page.getSize) : Inside options (moveLastToFrontOf page recipient) ↔
      Stored options (page.moveLastToFrontOf recipient middleKey).2.1 := by
  have entries : page.getSize ≤ options.INTERNAL_PAGE_SLOT_CNT := stored
  have length : (page.moveLastToFrontOf recipient middleKey).2.1.entries.length =
      recipient.getSize + 1 := by
    have nonempty := List.ne_nil_of_length_pos lender
    rw [InternalPage.moveLastToFrontOf, List.getLast?_eq_some_getLast nonempty,
      InternalPage.getSize]
    cases recipient.entries with
    | nil => rfl
    | cons entry rest => rfl
  constructor
  · intro inside
    have moved :=
      (shifted_inside_iff (Nat.zero_le _)).mp (List.forall_mem_append.mp inside.entries).1
    exact length.trans_le moved
  · intro fits
    constructor
    case tombstones => exact List.forall_mem_nil _
    case entries =>
      have moved := (shifted_inside_iff (Nat.zero_le _)).mpr (length.symm.trans_le fits)
      refine List.forall_mem_append.mpr ⟨moved, ?_⟩
      intro place member
      simp only [List.mem_cons, List.not_mem_nil, or_false] at member
      omega

theorem move_first_inside_iff (slots : 2 ≤ options.INTERNAL_PAGE_SLOT_CNT)
    (stored : Stored options page)
    (lender : 0 < page.getSize) : Inside options (moveFirstToEndOf page recipient) ↔
      Stored options (page.moveFirstToEndOf recipient middleKey).2.1 := by
  have length : (page.moveFirstToEndOf recipient middleKey).2.1.entries.length =
      recipient.getSize + 1 := by
    rw [InternalPage.moveFirstToEndOf, InternalPage.getSize]
    rw [InternalPage.getSize] at lender
    split
    case h_1 empty => simp [empty] at lender
    case h_2 => exact List.length_append
    case h_3 => exact List.length_append
  constructor
  · intro inside
    exact length.trans_le
      (inside.entries recipient.getSize (List.mem_append_left _ (List.mem_cons_self ..)))
  · intro fits
    have moved : recipient.getSize < options.INTERNAL_PAGE_SLOT_CNT := length.symm.trans_le fits
    constructor
    case tombstones => exact List.forall_mem_nil _
    case entries =>
      refine List.forall_mem_append.mpr ⟨?_, move_down_inside stored⟩
      intro place member
      simp only [List.mem_cons, List.not_mem_nil, or_false] at member
      omega

end Moves

/-- Also in a page without children, where the search ends at index 1. -/
theorem child_for_inside [LinearOrder K] (slots : 2 ≤ options.INTERNAL_PAGE_SLOT_CNT)
    (stored : Stored options page) (key : K) : Inside options (childFor page key) where
  tombstones := List.forall_mem_nil _
  entries := by
    have entries : page.getSize ≤ options.INTERNAL_PAGE_SLOT_CNT := stored
    refine List.forall_mem_append.mpr ⟨fun place member =>
      (probes_below place member).trans_le entries, ?_⟩
    intro place member
    obtain rfl := List.mem_singleton.mp member
    have ends :=
      @bisect_within (fun mid => (page.entries[mid]?).any fun entry => entry.1 ≤ key)
        page.getSize 1
        page.getSize
    rw [InternalPage.upperBound]
    omega

end Bounds

end Internal

end BusTub.PageAccesses
