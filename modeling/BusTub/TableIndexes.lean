import BusTub.SnapshotReads
import BusTub.SortOrder
import BusTub.TreeRuns
import Mathlib.Data.List.Lex

/-!
The indexes of a table. `CREATE INDEX` makes a B+ tree of the default sizes or one of
the two STL containers over one or two INTEGER columns. While no key has a NULL and no
leaf splits under a parent that is full, each of them is a map into which a key goes
once. A NULL is equal to every key that a search compares it with.
-/

namespace BusTub

open BPlusTree (Options Tree)

inductive IndexType where
  | bPlusTree
  | hashTable
  | stlOrdered
  | stlUnordered
  deriving DecidableEq

structure IndexInfo where
  indexOid : Nat
  indexType : IndexType
  keyAttrs : List Nat

def matchIndex (indexes : List IndexInfo) (indexKeyIdx : Nat) : Option IndexInfo :=
  indexes.find? fun index => index.keyAttrs = [indexKeyIdx]

def genericCompare : Tuple → Tuple → Int
  | left :: lefts, right :: rights =>
      if left.compare .lessThan right = some (some true) then -1
      else if left.compare .greaterThan right = some (some true) then 1
      else genericCompare lefts rights
  | _, _ => 0

section Numbers

theorem number_sortable (value : Int) : Sortable .integer (number value) :=
  ⟨by decide, rfl, fun datum same => by rw [← Option.some.inj same]; rfl⟩

theorem number_compare (comparison : ComparisonType) (left right : Int) :
    (number left).compare comparison (number right) =
      some (some (comparison.admits (some (orderIntegers left right)))) :=
  compare_sortable (number_sortable left) (number_sortable right) rfl rfl comparison

theorem number_less (left right : Int) :
    (number left).compare .lessThan (number right) = some (some true) ↔ left < right := by
  rw [number_compare, ← integers_lt]
  cases orderIntegers left right <;> simp [ComparisonType.admits]

theorem number_greater (left right : Int) :
    (number left).compare .greaterThan (number right) = some (some true) ↔ right < left := by
  rw [number_compare, ← integers_gt]
  cases orderIntegers left right <;> simp [ComparisonType.admits]

theorem number_equal (left right : Int) :
    (number left).compare .equal (number right) = some (some true) ↔ left = right := by
  rw [number_compare]
  constructor
  · intro equal
    grind [orderIntegers, ComparisonType.admits]
  · rintro rfl
    simp [orderIntegers, ComparisonType.admits]

theorem number_injective : Function.Injective number := by
  intro left right same
  simpa [number] using same

theorem generic_compare_less {left right : List Int} (sameLength : left.length = right.length) :
    genericCompare (left.map number) (right.map number) = -1 ↔ left < right := by
  induction left generalizing right with
  | nil => cases right <;> simp_all [genericCompare]
  | cons a left ih =>
      cases right with
      | nil => simp at sameLength
      | cons b right =>
          have rest := @ih right (by simpa using sameLength)
          simp only [List.map_cons, genericCompare, number_less, number_greater,
            List.cons_lt_cons_iff]
          -- the first column in which the keys differ decides
          rcases lt_trichotomy a b with less | rfl | greater
          · simp [less]
          · simpa using rest
          · simp [greater, not_lt_of_gt greater, ne_of_gt greater]

end Numbers

/-! ### The index -/

abbrev IndexKey := List Int

def keyNumbers (key : Tuple) : Option IndexKey :=
  key.mapM fun value =>
    match value.typeId, value.datum with
    | .integer, some (.number number) => some number
    | _, _ => none

theorem key_numbers (numbers : IndexKey) : keyNumbers (numbers.map number) = some numbers := by
  induction numbers with
  | nil => rfl
  | cons first numbers ih =>
      rw [keyNumbers] at ih ⊢
      rw [List.map_cons, List.mapM_cons, ih]
      rfl

def TWO_INTEGER_SIZE : Nat := 8

/-- `BPlusTreeIndex` leaves the sizes of its tree at their defaults, the slot counts. -/
def treeOptions : Options :=
  let opened : Options :=
    { leafMaxSize := 0, internalMaxSize := 0, keySize := TWO_INTEGER_SIZE, numTombs := 0 }
  { opened with
    leafMaxSize := opened.LEAF_PAGE_SLOT_CNT
    internalMaxSize := opened.INTERNAL_PAGE_SLOT_CNT }

example : treeOptions.leafMaxSize = 510 ∧ treeOptions.internalMaxSize = 681 := by decide

/-- `GetValue` of a NULL: each search in an internal page goes to the last child, and the one in
the leaf stays at the first entry. -/
def BPlusTree.Tree.getValueOfNull {K V : Type} (tree : Tree K V) :
    Except BPlusTree.Fault (Option V) :=
  match tree.rootPageId with
  | none => .ok none
  | some root => do
      let lastChild := fun page : BPlusTree.InternalPage K =>
        page.valueAt (BPlusTree.bisect (fun _ => true) page.getSize 1 page.getSize - 1)
      let (_, _, leaf) ← tree.descend lastChild tree.depthBound root []
      let index := BPlusTree.bisect (fun _ => false) leaf.getSize 0 leaf.getSize
      if index < leaf.getSize && !leaf.isTombstone index then
        .ok ((leaf.entries[index]?).map Prod.snd)
      else .ok none

/-- A search for a NULL in an STL container that stops at no key. -/
def noKey : UnorderedMap IndexKey RID → Option IndexKey := fun _ => none

inductive TableIndex where
  | bPlusTree (container : Tree IndexKey RID)
  /-- `STLOrderedIndex` or `STLUnorderedIndex` -/
  | stl (data : UnorderedMap IndexKey RID)

namespace TableIndex

/-- An index of a new catalog entry; the hash table throws in its constructor. -/
def make : IndexType → Option TableIndex
  | .bPlusTree => some (.bPlusTree {})
  | .hashTable => none
  | .stlOrdered | .stlUnordered => some (.stl ∅)

def insertEntry (index : TableIndex) (key : Tuple) (rid : RID) : Option (Bool × TableIndex) := do
  let numbers ← keyNumbers key
  match index with
  | .bPlusTree container =>
      (container.insert treeOptions numbers rid).toOption.map fun (inserted, container) =>
        (inserted, .bPlusTree container)
  | .stl data =>
      if (data.lookup numbers).isSome then some (false, .stl data)
      else some (true, .stl (data.insert numbers rid))

def getValue (index : TableIndex) (numbers : IndexKey) : Option (Option RID) :=
  match index with
  | .bPlusTree container => (container.getValue numbers).toOption
  | .stl data => some (data.lookup numbers)

/-- `nullKey` is the key at which an STL container stops that looks for a NULL, if it stops at
one. -/
def getValueOfNull (nullKey : UnorderedMap IndexKey RID → Option IndexKey) (index : TableIndex) :
    Option (Option RID) :=
  match index with
  | .bPlusTree container => container.getValueOfNull.toOption
  | .stl data => some ((nullKey data).bind data.lookup)

def scanKey (nullKey : UnorderedMap IndexKey RID → Option IndexKey) (index : TableIndex)
    (value : Value) :
    Option (List RID) :=
  if value = ⟨.integer, none⟩ then (index.getValueOfNull nullKey).map Option.toList
  else (keyNumbers [value]).bind fun numbers => (index.getValue numbers).map Option.toList

/-- From `GetBeginIterator` to the end, in so many rounds at most. A walk through another index than
the tree has a null pointer for it. -/
def entries (rounds : Nat) : TableIndex → Option (List (IndexKey × RID))
  | .bPlusTree container => (do container.iterate rounds (← container.begin)).toOption
  | .stl _ => none

def Room (index : TableIndex) (key : Tuple) : Prop :=
  match index with
  | .bPlusTree container => ∀ numbers, keyNumbers key = some numbers →
      ¬BPlusTree.Overflows treeOptions container numbers
  | .stl _ => True

def WellFormed : TableIndex → Prop
  | .bPlusTree container => BPlusTree.WellFormed (BPlusTree.fullRules treeOptions) container
  | .stl _ => True

def Holds : TableIndex → IndexKey → RID → Prop
  | .bPlusTree container, numbers, rid => BPlusTree.Holds container numbers rid
  | .stl data, numbers, rid => data.lookup numbers = some rid

structure Represents (index : TableIndex) (map : UnorderedMap Tuple RID) : Prop where
  wellFormed : index.WellFormed
  entries : ∀ numbers rid, index.Holds numbers rid ↔ map.lookup (numbers.map number) = some rid
  whole : ∀ key rid, map.lookup key = some rid → ∃ numbers : IndexKey, key = numbers.map number

end TableIndex

/-! ### What the tree does with its keys -/

namespace BPlusTree

open SearchForest

section Trees
variable {K V : Type} [LinearOrder K] {rules : Rules} {exempt : Set PageId} {tree : Tree K V}
  {height : Nat} {key : K} {options : Options}

omit [LinearOrder K] in
/-- A search that goes to one of the children of each page ends in a leaf under the root. -/
theorem descend_reaches {search : InternalPage K → Option PageId}
    (chooses : ∀ node : InternalPage K, node.entries ≠ [] →
      ∃ entry ∈ node.entries, search node = some entry.2)
    {fence : WithBot K} {pid : PageId} {path : List PageId}
    (forest : TreeForest rules exempt tree.pages height [(fence, pid)]) (reached : Reached tree pid)
    {fuel : Nat} (enough : height < fuel) :
    ∃ path' low leaf, tree.descend search fuel pid path = .ok (path', low, leaf) ∧
      Reached tree low ∧ tree.pages low = some (.inl leaf) := by
  induction height generalizing fence pid path fuel with
  | zero =>
      obtain ⟨fuel, rfl⟩ : ∃ n, fuel = n + 1 := ⟨fuel - 1, by omega⟩
      obtain ⟨leaf, found, _⟩ := forest _ List.mem_cons_self
      simp only at found
      exact ⟨path, pid, leaf, by simp [Tree.descend, found], reached, found⟩
  | succ height ih =>
      obtain ⟨fuel, rfl⟩ : ∃ n, fuel = n + 1 := ⟨fuel - 1, by omega⟩
      obtain ⟨node, found, more, _⟩ := forest.1 _ List.mem_cons_self
      simp only at found
      obtain ⟨entry, member, goes⟩ := chooses node more
      have below : expand InternalPage.entries tree.pages [(fence, pid)] =
          refence fence node.entries := by
        rw [expand_cons, kids_node found, expand_nil, List.append_nil]
      have inside : entry.2 ∈ (refence fence node.entries).map Prod.snd := by
        rw [refence_pages]
        exact List.mem_map_of_mem member
      obtain ⟨⟨low, child⟩, slot, same⟩ := List.mem_map.mp inside
      obtain rfl : child = entry.2 := same
      have lower := forest.2
      rw [below] at lower
      obtain ⟨path', low', leaf, done, rest⟩ :=
        @ih low entry.2 (pid :: path) (forest_mem lower slot) (.child reached found member) fuel
          (by omega)
      refine ⟨path', low', leaf, ?_, rest⟩
      rw [Tree.descend, found]
      simp only [goes]
      exact done

/-- What `GetValue` of a NULL brings stands in the tree under some key. -/
theorem get_value_of_null (wellFormed : WellFormed rules tree) :
    ∃ found, tree.getValueOfNull = .ok found ∧
      ∀ value, found = some value → ∃ key, Holds tree key value := by
  obtain ⟨fresh, none | ⟨root, height, standing⟩⟩ := wellFormed
  · exact ⟨.none, by simp only [Tree.getValueOfNull, none], fun value same => nomatch same⟩
  · have chooses (node : InternalPage K) (more : node.entries ≠ []) : ∃ entry ∈ node.entries,
        node.valueAt (bisect (fun _ => true) node.getSize 1 node.getSize - 1) = some entry.2 := by
      have some : 0 < node.entries.length := List.length_pos_iff.mpr more
      obtain ⟨-, high, -⟩ :=
        @bisect_spec (fun _ => true) node.getSize 1 node.getSize some (by omega)
          (fun _ _ _ _ _ _ => rfl)
      have within : bisect (fun _ => true) node.getSize 1 node.getSize - 1 <
          node.entries.length := by
        change _ ≤ node.entries.length at high
        omega
      exact ⟨_, List.getElem_mem within, by simp [InternalPage.valueAt, within]⟩
    obtain ⟨path, pid, leaf, down, reached, found⟩ :=
      @descend_reaches K V rules {root} tree height _
        chooses ⊥ root [] standing.forest (.root standing.top) tree.depthBound
        (height_bound fresh standing.forest)
    simp only [Tree.getValueOfNull, standing.top, down, bind, Except.bind]
    generalize bisect (fun _ => false) leaf.getSize 0 leaf.getSize = index
    split
    · rename_i there
      simp only [Bool.and_eq_true, decide_eq_true_eq, Bool.not_eq_true', LeafPage.isTombstone,
        decide_eq_false_iff_not] at there
      refine ⟨_, rfl, fun value same => ?_⟩
      obtain ⟨entry, inside, rfl⟩ := Option.map_eq_some_iff.mp same
      exact ⟨entry.1, pid, leaf, reached, found, index, inside, there.2⟩
    · exact ⟨.none, rfl, fun value same => nomatch same⟩

/-- In a tree whose leaves have no room for tombstones each key is live. -/
theorem stored_holds (noTombs : options.LEAF_PAGE_TOMB_CNT = 0)
    (wellFormed : WellFormed (fullRules options) tree) (stored : Stored tree key) :
    ∃ value, Holds tree key value := by
  obtain ⟨fresh, none | ⟨root, height, standing⟩⟩ := wellFormed
  · exact absurd stored (nothing_stored none)
  · obtain ⟨path, before, fence, pid, after, leaf, -, place⟩ :=
      descend_to_leaf fresh standing (searches_child_for key)
    obtain ⟨entry, member, same⟩ := List.mem_map.mp ((leaf_stored standing place).mp stored)
    obtain ⟨index, within, there⟩ := List.mem_iff_getElem.mp member
    -- without room for tombstones no entry of the leaf is dead
    have few := place.good.tombstones.1
    change leaf.tombstones.length ≤ options.LEAF_PAGE_TOMB_CNT at few
    have empty : leaf.tombstones = [] := List.length_eq_zero_iff.mp (by omega)
    refine ⟨entry.2, (leaf_holds standing place).mpr (Or.inl ⟨index, ?_, by simp [empty]⟩)⟩
    rw [List.getElem?_eq_getElem within, there, ← same]

end Trees

end BPlusTree

/-! ### An index as a map -/

namespace TableIndex
variable {index : TableIndex} {map : UnorderedMap Tuple RID} {numbers : IndexKey} {rid : RID}

open BPlusTree (Opens fullRules opens_roomy)

theorem tree_opens : Opens treeOptions := ⟨by decide, by decide, by decide, by decide⟩

theorem made_represents {indexType : IndexType} (made : make indexType = some index) :
    index.Represents ∅ := by
  have tree : (bPlusTree {}).Represents ∅ := by
    refine ⟨BPlusTree.empty_well_formed, fun numbers rid => ?_, fun key rid found =>
      (by cases found)⟩
    constructor
    · exact fun holds => absurd (BPlusTree.holds_stored holds) (BPlusTree.nothing_stored rfl)
    · intro found
      cases found
  have container : (stl ∅).Represents ∅ := by
    refine ⟨trivial, fun numbers rid => ?_, fun key rid found => (by cases found)⟩
    constructor
    · intro found
      cases found
    · intro found
      cases found
  cases indexType with
  | hashTable => cases made
  | bPlusTree =>
      obtain rfl := Option.some.inj made
      exact tree
  | stlOrdered | stlUnordered =>
      obtain rfl := Option.some.inj made
      exact container

theorem grown_represents {grown : TableIndex} (represents : index.Represents map)
    (wellFormed : grown.WellFormed) (holds : ∀ other place, grown.Holds other place ↔
      (other = numbers ∧ place = rid) ∨ index.Holds other place)
    (absent : map.lookup (numbers.map number) = none) :
    grown.Represents (map.insert (numbers.map number) rid) := by
  refine ⟨wellFormed, fun other place => ?_, fun key place found => ?_⟩
  · rw [holds, represents.entries]
    by_cases same : other = numbers
    · subst same
      simp [absent, AList.lookup_insert, eq_comm]
    · have apart : other.map number ≠ numbers.map number :=
        fun equal => same (List.map_injective_iff.mpr number_injective equal)
      simp [same, AList.lookup_insert_ne apart]
  · by_cases same : key = numbers.map number
    · exact ⟨numbers, same⟩
    · exact represents.whole key place ((AList.lookup_insert_ne same).symm.trans found)

theorem insert_represents (represents : index.Represents map)
    (room : index.Room (numbers.map number)) (rid : RID) :
    (map.lookup (numbers.map number) = none → ∃ grown,
      index.insertEntry (numbers.map number) rid = some (true, grown) ∧
        grown.Represents (map.insert (numbers.map number) rid)) ∧
    ∀ old, map.lookup (numbers.map number) = some old →
      index.insertEntry (numbers.map number) rid = some (false, index) := by
  obtain ⟨wellFormed, entries, whole⟩ := id represents
  simp only [insertEntry, key_numbers, Option.bind_eq_bind, Option.bind_some]
  cases index with
  | bPlusTree container =>
      constructor
      · intro absent
        -- a key that is not live is not in any leaf either
        have missing : ¬BPlusTree.Stored container numbers := by
          intro stored
          obtain ⟨place, holds⟩ := BPlusTree.stored_holds (by decide) wellFormed stored
          rw [(entries numbers place).mp holds] at absent
          cases absent
        have inserted :=
          @BPlusTree.insert_new IndexKey RID _ (fullRules treeOptions) container numbers
            rid _ (opens_roomy tree_opens) wellFormed missing (room numbers (key_numbers numbers))
        obtain ⟨grown, done, stands, holds⟩ := inserted
        change container.insert treeOptions numbers rid = _ at done
        refine ⟨.bPlusTree grown, by simp [done, Except.toOption], ?_⟩
        exact grown_represents represents stands holds absent
      · intro old there
        have refused :=
          @BPlusTree.insert_stored IndexKey RID _ (fullRules treeOptions) container numbers
            rid _ wellFormed (BPlusTree.holds_stored ((entries numbers old).mpr there))
        change container.insert treeOptions numbers rid = _ at refused
        simp [refused, Except.toOption]
  | stl data =>
      constructor
      · intro absent
        have missing : data.lookup numbers = none := by
          cases found : data.lookup numbers with
          | none => rfl
          | some place => cases absent.symm.trans ((entries numbers place).mp found)
        refine ⟨.stl (data.insert numbers rid), by simp [missing], ?_⟩
        refine grown_represents represents trivial (fun other place => ?_) absent
        simp only [Holds]
        by_cases same : other = numbers
        · subst same
          simp [missing, AList.lookup_insert, eq_comm]
        · simp [same, AList.lookup_insert_ne same]
      · intro old there
        have found : data.lookup numbers = some old := (entries numbers old).mpr there
        simp [found]

theorem value_represents (represents : index.Represents map) (numbers : IndexKey) :
    index.getValue numbers = some (map.lookup (numbers.map number)) := by
  obtain ⟨wellFormed, entries, -⟩ := represents
  cases index with
  | bPlusTree container =>
      obtain ⟨found, done, holds⟩ := BPlusTree.get_value_finds wellFormed numbers
      simp only [getValue, done, Except.toOption]
      apply congrArg
      apply Option.ext
      intro place
      rw [holds]
      exact entries numbers place
  | stl data =>
      apply congrArg some
      apply Option.ext
      exact entries numbers

theorem null_represents (represents : index.Represents map)
    (nullKey : UnorderedMap IndexKey RID → Option IndexKey) :
    ∃ found, index.getValueOfNull nullKey = some found ∧
      ∀ rid, found = some rid → ∃ key, map.lookup key = some rid := by
  obtain ⟨wellFormed, entries, -⟩ := represents
  cases index with
  | bPlusTree container =>
      obtain ⟨found, done, holds⟩ := BPlusTree.get_value_of_null wellFormed
      refine ⟨found, by simp [getValueOfNull, done, Except.toOption], fun rid same => ?_⟩
      obtain ⟨numbers, there⟩ := holds rid same
      exact ⟨_, (entries numbers rid).mp there⟩
  | stl data =>
      refine ⟨_, rfl, fun rid same => ?_⟩
      obtain ⟨numbers, -, there⟩ := Option.bind_eq_some_iff.mp same
      exact ⟨_, (entries numbers rid).mp there⟩

end TableIndex

namespace TableIndex

theorem entries_more {index : TableIndex} {few more : Nat} {list : List (IndexKey × RID)}
    (enough : few ≤ more)
    (walked : index.entries few = some list) : index.entries more = some list := by
  cases index with
  | stl data => cases walked
  | bPlusTree container =>
      simp only [entries, bind, Except.bind] at walked ⊢
      cases first : container.begin with
      | error fault => simp [first, Except.toOption] at walked
      | ok place =>
          cases seen : container.iterate few place with
          | error fault => simp [first, seen, Except.toOption] at walked
          | ok found =>
              obtain rfl : found = list := by simpa [first, seen, Except.toOption] using walked
              simp [BPlusTree.iterate_more enough seen, Except.toOption]

def single : TableIndex → Bool
  | .bPlusTree container => container.rootPageId.all fun root =>
    (container.pages root).any Sum.isLeft
  | .stl _ => true

theorem single_room {index : TableIndex} (small : index.single = true) (key : Tuple) :
    index.Room key := by
  cases index with
  | stl data => trivial
  | bPlusTree container =>
      -- a leaf at the root has no parent that could be full
      rintro numbers - ⟨root, path, pid, leaf, parent, node, top, down, -⟩
      simp only [single, top, Option.all_some, Option.any_eq_true] at small
      obtain ⟨page, found, isLeaf⟩ := small
      obtain ⟨only, rfl⟩ := Sum.isLeft_iff.mp isLeaf
      generalize container.depthBound = fuel at down
      cases fuel with
      | zero => cases down
      | succ fuel => simp [Tree.descend, found] at down

end TableIndex

theorem mem_map_entries {map : UnorderedMap Tuple RID} {key : Tuple} {rid : RID} :
    (key, rid) ∈ map.entries.map (fun entry => (entry.1, entry.2)) ↔ map.lookup key = some rid := by
  rw [← Option.mem_def, AList.mem_lookup_iff]
  constructor
  · intro member
    obtain ⟨⟨other, place⟩, inside, same⟩ := List.mem_map.mp member
    obtain ⟨rfl, rfl⟩ := Prod.mk.inj same
    exact inside
  · exact fun inside => List.mem_map.mpr ⟨_, inside, rfl⟩

theorem map_entries_nodup (map : UnorderedMap Tuple RID) :
    (map.entries.map fun entry => (entry.1, entry.2)).Nodup := by
  apply List.Nodup.map _ map.nodupKeys.nodup
  rintro ⟨key, rid⟩ ⟨other, place⟩ same
  obtain ⟨rfl, rfl⟩ := Prod.mk.inj same
  rfl

structure ListingOf (map : UnorderedMap Tuple RID) (listing : List (Tuple × RID)) : Prop where
  entries : listing.Perm (map.entries.map fun entry => (entry.1, entry.2))
  ascending : listing.Pairwise fun first second => genericCompare first.1 second.1 = -1

namespace TableIndex
variable {container : Tree IndexKey RID} {map : UnorderedMap Tuple RID}

def tupleEntry (entry : IndexKey × RID) : Tuple × RID := (entry.1.map number, entry.2)

theorem tuple_entry_injective : Function.Injective tupleEntry := by
  rintro ⟨first, rid⟩ ⟨second, place⟩ same
  obtain ⟨keys, rfl⟩ : first.map number = second.map number ∧ rid = place := Prod.mk.inj same
  rw [List.map_injective_iff.mpr number_injective keys]

/-- A walk through the tree lists the map, when all keys have as many columns. -/
theorem walk_lists (represents : (bPlusTree container).Represents map) {columns : Nat}
    (same : ∀ key rid, map.lookup key = some rid → key.length = columns) :
    ∃ list, (∀ rounds, list.length ≤ rounds → (bPlusTree container).entries rounds = some list) ∧
      ListingOf map (list.map tupleEntry) := by
  obtain ⟨wellFormed, entries, whole⟩ := represents
  obtain ⟨⟨list, walks, rising, holds⟩, -⟩ := BPlusTree.iteration_enumerates container wellFormed
  refine ⟨list,
      fun rounds enough => by
        simp only [TableIndex.entries, walks rounds enough, Except.toOption], ?_, ?_⟩
  -- each list has an entry once, so the same entries are enough
  · have unlike : list.Nodup := List.Nodup.of_map Prod.fst (rising.imp fun less => ne_of_lt less)
    apply (List.perm_ext_iff_of_nodup (unlike.map tuple_entry_injective)
      (map_entries_nodup map)).mpr
    rintro ⟨key, rid⟩
    rw [mem_map_entries]
    constructor
    · intro member
      obtain ⟨⟨numbers, place⟩, inside, same⟩ := List.mem_map.mp member
      obtain ⟨rfl, rfl⟩ := Prod.mk.inj same
      exact (entries numbers place).mp ((holds numbers place).mp inside)
    · intro found
      obtain ⟨numbers, rfl⟩ := whole key rid found
      have inTree := (holds numbers rid).mpr ((entries numbers rid).mpr found)
      exact List.mem_map.mpr ⟨(numbers, rid), inTree, rfl⟩
  · rw [List.pairwise_map] at rising ⊢
    apply rising.imp_of_mem
    rintro ⟨numbers, rid⟩ ⟨others, place⟩ front back less
    have long := same _ _ ((entries numbers rid).mp ((holds numbers rid).mp front))
    have long' := same _ _ ((entries others place).mp ((holds others place).mp back))
    rw [List.length_map] at long long'
    exact (generic_compare_less (long.trans long'.symm)).mpr less

end TableIndex

end BusTub
