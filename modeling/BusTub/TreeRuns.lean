import BusTub.RemovedKeys
import BusTub.TreeIteration
import BusTub.TransitionSystem

/-!
Runs of a B+ tree against a finite map. The map is what the index is for: a key has a
value or it has none. A run of the tree gives the map's answers as long as no call
comes to one of the things that the tree does wrong.
-/

namespace BusTub.BPlusTree

open SearchForest

/-! ### The map -/

/-- What is asked of an index. A scan goes from `Begin()` or from `Begin(key)` to the end. -/
inductive Call (K V : Type) where
  | insert (key : K) (value : V)
  | remove (key : K)
  | getValue (key : K)
  | scan (start : Option K)

inductive Answer (K V : Type) where
  | inserted (done : Bool)
  | removed
  | found (value : Option V)
  | scanned (list : List (K × V))

section Maps
variable {K V : Type} [LinearOrder K]

structure Enumerates (map : K → Option V) (start : Option K) (list : List (K × V)) : Prop where
  rising : (list.map Prod.fst).Pairwise (· < ·)
  entries : ∀ key value, (key, value) ∈ list ↔ map key = some value ∧
    ∀ first, start = some first → first ≤ key

inductive MapStep : (K → Option V) → Call K V × Answer K V → (K → Option V) → Prop where
  | inserts {map : K → Option V} {key : K} {value : V} : map key = none →
      MapStep map (.insert key value, .inserted true) (Function.update map key (some value))
  | refuses {map : K → Option V} {key : K} {value old : V} : map key = some old →
      MapStep map (.insert key value, .inserted false) map
  | removes {map : K → Option V} {key : K} : MapStep map (.remove key, .removed)
      (Function.update map key none)
  | finds {map : K → Option V} {key : K} : MapStep map (.getValue key, .found (map key)) map
  | scans {map : K → Option V} {start : Option K} {list : List (K × V)} : Enumerates
      map start list → MapStep map (.scan start, .scanned list) map

end Maps

section Trees
variable {K V : Type} [LinearOrder K] {rules : Rules} {tree after : Tree K V} {key : K} {value : V}
  {map : K → Option V} {options : Options} {few more : Nat} {asked : Call K V}

def Represents (tree : Tree K V) (map : K → Option V) : Prop :=
  ∀ key value, Holds tree key value ↔ map key = some value

theorem get_value_finds (wellFormed : WellFormed rules tree) (key : K) :
    ∃ found, tree.getValue key = .ok found ∧ ∀ value, found = some value ↔
      Holds tree key value := by
  obtain ⟨fresh, none | ⟨root, height, standing⟩⟩ := wellFormed
  · refine ⟨.none, by simp only [Tree.getValue, none], fun value => ?_⟩
    constructor
    · exact fun same => nomatch same
    · exact fun holds => absurd (holds_stored holds) (nothing_stored none)
  · obtain ⟨path, before, fence, pid, after, leaf, down, place⟩ :=
      descend_to_leaf fresh standing (searches_child_for key)
    obtain ⟨sorted, -⟩ := leaf_range standing place
    obtain ⟨front, back, whole, lower, low, high⟩ := @lower_bound_cut K V _ leaf key sorted
    have here := has_key_iff sorted whole low high
    have live {value : V} : Holds tree key value ↔ Live leaf key value := leaf_live standing place
    simp only [Tree.getValue, standing.top, down, bind, Except.bind, lower]
    by_cases inside : key ∈ leaf.entries.map Prod.fst
    · have hasKey := here.mpr inside
      obtain ⟨entry, found, same⟩ : ∃ entry, leaf.entries[front.length]? = some entry ∧
          entry.1 = key := by
        simpa [Tree.hasKeyAt, Option.any_eq_true] using hasKey
      by_cases marked : front.length ∈ leaf.tombstones
      · refine ⟨.none, by simp [hasKey, LeafPage.isTombstone, marked], fun value => ?_⟩
        rw [live]
        constructor
        · exact fun same => nomatch same
        · rintro ⟨index, there, unmarked⟩
          exact absurd (LeafTombstones.same_place sorted found there same ▸ marked) unmarked
      · refine ⟨some entry.2,
          by simp [hasKey, LeafPage.isTombstone, marked, found], fun value => ?_⟩
        rw [live]
        constructor
        · intro isValue
          refine ⟨front.length, ?_, marked⟩
          rw [found, ← same, ← Option.some.inj isValue]
        · rintro ⟨index, there, -⟩
          obtain rfl := LeafTombstones.same_place sorted found there same
          rw [Option.some.inj (found.symm.trans there)]
    · have noKey : Tree.hasKeyAt leaf front.length key = false := by
        rw [Bool.eq_false_iff]
        exact fun hasKey => inside (here.mp hasKey)
      refine ⟨.none, by simp [noKey], fun value => ?_⟩
      rw [live]
      constructor
      · exact fun same => nomatch same
      · exact fun alive => absurd (live_key alive) inside

variable [Inhabited K]

def call (options : Options) (rounds : Nat) (inBytes : Bool) (tree : Tree K V) :
    Call K V → Except Fault (Answer K V × Tree K V)
  | .insert key value => do
      let (done, tree) ← tree.insert options key value
      .ok (.inserted done, tree)
  | .remove key => do
      let tree ← tree.remove options inBytes key
      .ok (.removed, tree)
  | .getValue key => do
      let value ← tree.getValue key
      .ok (.found value, tree)
  | .scan none => do
      let list ← tree.iterate rounds (← tree.begin)
      .ok (.scanned list, tree)
  | .scan (some key) => do
      let list ← tree.iterate rounds (← tree.beginAt key)
      .ok (.scanned list, tree)

def treeStep (options : Options) (tree : Tree K V) (label : Call K V × Answer K V)
    (after : Tree K V) : Prop :=
  ∃ rounds inBytes, call options rounds inBytes tree label.1 = .ok (label.2, after)

def Answers (options : Options) (tree : Tree K V) (label : Call K V × Answer K V)
    (after : Tree K V) : Prop :=
  ∃ rounds, ∀ inBytes, call options rounds inBytes tree label.1 = .ok (label.2, after)

/-- The call comes to nothing that the tree does wrong: an insertion of a key that is still there
with its tombstone, one that splits a leaf under a parent without a slot to spare, and what
`Removable` leaves out. -/
def Admits (options : Options) (tree : Tree K V) : Call K V → Prop
  | .insert key _ => ¬Overflows options tree key ∧ (Stored tree key → ∃ value, Holds tree key value)
  | .remove key => Removable options tree key
  | .getValue _ | .scan _ => True

structure Opens (options : Options) : Prop where
  leaf : 2 ≤ options.leafMaxSize
  node : 2 ≤ options.internalMaxSize
  leafSlots : options.leafMaxSize ≤ options.LEAF_PAGE_SLOT_CNT
  nodeSlots : options.internalMaxSize ≤ options.INTERNAL_PAGE_SLOT_CNT

theorem opens_roomy (opens : Opens options) : Roomy (fullRules options) :=
  ⟨opens.leaf, opens.node, opens.leafSlots, opens.nodeSlots, le_refl _, le_refl _⟩

theorem remove_any (opens : Opens options) (wellFormed : WellFormed (fullRules options) tree)
    (removable : Removable options tree key) :
    ∃ result, (∀ inBytes, tree.remove options inBytes key = .ok result) ∧
      Removed (fullRules options) tree result key := by
  by_cases live : ∃ value, Holds tree key value
  · have done :=
      @remove_live K V _ (fullRules options) tree key _ (opens_roomy opens)
        (le_refl _) trivial wellFormed
        live removable
    exact done
  · have dead : ∀ value, ¬Holds tree key value := fun value holds => live ⟨value, holds⟩
    refine ⟨tree, @remove_dead K V _ (fullRules options) tree key _ trivial wellFormed dead,
        wellFormed, fun k v => ?_, drops_nothing⟩
    constructor
    · intro holds
      refine ⟨?_, holds⟩
      rintro rfl
      exact dead v holds
    · exact fun both => both.2

/-- The key is the first of a leaf right below the root. The leaf has others behind it, but none
to spare, and no room for a tombstone. -/
def LosesFirstKey (options : Options) (tree : Tree K V) (key : K) : Prop :=
  ∃ root pid leaf value second rest, tree.rootPageId = some root ∧
    tree.descend (fun page => page.lookup key) tree.depthBound root [] = .ok ([root], pid, leaf) ∧
      leaf.entries = (key, value) :: second :: rest ∧ 0 ∉ leaf.tombstones ∧
        leaf.getSize ≤ leaf.getMinSize ∧ options.LEAF_PAGE_TOMB_CNT ≤ leaf.tombstones.length

/-- `UpdateAncestorMinKey` takes the guard of the leaf for that of its parent. If it does not
write into the leaf, it gives up all guards, and the first of `write_set_` is asked for. -/
theorem first_key_lost (opens : Opens options) (wellFormed : WellFormed (fullRules options) tree)
    (loses : LosesFirstKey options tree key) (inBytes : Bool) :
    tree.remove options inBytes key = .error (if inBytes then .foreign else .empty) := by
  obtain ⟨root, pid, leaf, value, second, rest, top, down, list, alive, small, full⟩ := loses
  have room (node : InternalPage K) (found : tree.pages root = some (.inr node)) :
      node.getSize ≤ (fullRules options).options.internalMaxSize :=
    parent_room wellFormed (searches_lookup key) top down found
  obtain ⟨fresh, none | ⟨root', height, standing⟩⟩ := wellFormed
  · rw [none] at top
    cases top
  obtain rfl := Option.some.inj (standing.top.symm.trans top)
  obtain ⟨_, before, fence, _, after, _, again, place⟩ :=
    descend_to_leaf fresh standing (searches_lookup key)
  obtain ⟨_, _, _, _, _, _, tried, tryPlace⟩ :=
    descend_to_leaf fresh standing (searches_child_for key)
  rw [down] at again
  cases again
  have stored : key ∈ leaf.entries.map Prod.fst := by simp [list]
  obtain ⟨rfl, rfl⟩ := same_leaf standing place tryPlace stored
  have sorted := (leaf_range standing place).1
  have apart : key ≠ second.1 := by
    rw [list] at sorted
    simp only [List.map_cons, List.pairwise_cons] at sorted
    exact ne_of_lt (sorted.1 _ List.mem_cons_self)
  have first : leaf.remove options.LEAF_PAGE_TOMB_CNT key = (true, leaf.removeAt 0) := by
    have at_front : (leaf.entries.findIdx? fun entry => entry.1 = key) = some 0 := by
      simp [list, List.findIdx?_cons]
    simp [LeafPage.remove, at_front, LeafPage.isTombstone, alive, full]
  have entries : (leaf.removeAt 0).entries = second :: rest := by simp [LeafPage.removeAt, list]
  have space : leaf.getSize < options.leafMaxSize := place.good.room
  have marks : leaf.tombstones.length ≤ options.LEAF_PAGE_TOMB_CNT := place.good.tombstones.1
  have put : tree.putLeaf options pid (leaf.removeAt 0) =
      .ok (tree.setPage pid (.inl (leaf.removeAt 0))) := by
    apply put_leaf
    · have slots := opens.leafSlots
      simp only [LeafPage.getSize, entries, list, List.length_cons] at space ⊢
      omega
    · simp only [LeafPage.removeAt, List.length_map]
      exact (List.length_filter_le _ _).trans marks
  have declines : tree.tryOptimisticRemove options key = .ok .none :=
    @try_declines K V _ (fullRules options) tree _ pid key _ leaf standing.top tried
      (Or.inl (by simp only [LeafPage.getLiveSize]; omega))
  have short : ¬(leaf.removeAt 0).getMinSize ≤ (leaf.removeAt 0).getSize := by
    have same : (leaf.removeAt 0).getMinSize = leaf.getMinSize := rfl
    simp only [LeafPage.getSize, entries, list, List.length_cons, same] at small ⊢
    omega
  have lower := below_root standing place
  obtain rfl : height = 1 := place.depth.symm
  obtain ⟨node, atRoot, -⟩ := standing.forest.1 (⊥, root') (by simp)
  have fits (separator : K) (index : Nat) :
      (node.setKeyAt index separator).entries.length ≤ options.INTERNAL_PAGE_SLOT_CNT := by
    have bound := (room node atRoot).trans opens.nodeSlots
    simpa [InternalPage.setKeyAt, InternalPage.getSize] using bound
  have still : (tree.setPage pid (.inl (leaf.removeAt 0))).pages root' = some (.inr node) := by
    simp [Tree.setPage, Ne.symm lower, atRoot]
  have here : (tree.setPage pid (.inl (leaf.removeAt 0))).pages pid =
      some (.inl (leaf.removeAt 0)) := by
    simp [Tree.setPage]
  -- the root's guard is the last one, whether or not it has the separator
  obtain ⟨told, upwards⟩ : ∃ told, (tree.setPage pid (.inl (leaf.removeAt 0))).updateAncestorMinKey
    options inBytes pid
    second.1 [pid, root'] = if inBytes then .error .foreign else .ok (told, []) := by
    cases inBytes with
    | true => exact ⟨tree, by simp only [Tree.updateAncestorMinKey, here, if_true]⟩
    | false =>
        simp only [Tree.updateAncestorMinKey, here, still, Bool.false_eq_true, if_false]
        cases node.valueIndex pid with
        | none => exact ⟨_, rfl⟩
        | some index =>
            cases index with
            | zero => exact ⟨_, rfl⟩
            | succ index =>
                exact ⟨_, by simp only [Tree.putInternal, fits, if_true, bind, Except.bind]; rfl⟩
  simp only [Tree.remove, declines, Tree.removePessimistic, standing.top, down, first, put,
    list, entries, if_neg lower, if_neg apart, bind, Except.bind, upwards]
  cases inBytes with
  | true => rfl
  | false =>
      simp only [Bool.false_eq_true, if_false, if_neg short]
      rfl

omit [LinearOrder K] [Inhabited K] in
theorem iterate_more {place : Option (PageId × Nat)} {list : List (K × V)} (enough : few ≤ more)
    (done : tree.iterate few place = .ok list) : tree.iterate more place = .ok list := by
  induction few generalizing more place list with
  | zero =>
      match place, done with
      | none, done => cases more <;> exact done
  | succ few ih =>
      obtain ⟨more, rfl⟩ : ∃ n, more = n + 1 := ⟨more - 1, by omega⟩
      match place, done with
      | none, done => exact done
      | some (pid, index), done =>
          simp only [Tree.iterate, bind, Except.bind] at done ⊢
          cases here : tree.current pid index with
          | error fault => simp [here] at done
          | ok entry =>
              cases onward : tree.advance pid index with
              | error fault => simp [here, onward] at done
              | ok next =>
                  cases later : tree.iterate few next with
                  | error fault => simp [here, onward, later] at done
                  | ok rest =>
                      have same := ih (show few ≤ more by omega) later
                      simpa only [here, onward, later, same] using done

theorem call_more {inBytes : Bool} {result : Answer K V × Tree K V} (enough : few ≤ more)
    (done : call options few inBytes tree asked = .ok result) :
    call options more inBytes tree asked = .ok result := by
  match asked, done with
  | .insert key value, done => exact done
  | .remove key, done => exact done
  | .getValue key, done => exact done
  | .scan none, done =>
      simp only [call, bind, Except.bind] at done ⊢
      cases first : tree.begin with
      | error fault => simp [first] at done
      | ok place =>
          cases seen : tree.iterate few place with
          | error fault => simp [first, seen] at done
          | ok list => simpa only [first, seen, iterate_more enough seen] using done
  | .scan (some key), done =>
      simp only [call, bind, Except.bind] at done ⊢
      cases first : tree.beginAt key with
      | error fault => simp [first] at done
      | ok place =>
          cases seen : tree.iterate few place with
          | error fault => simp [first, seen] at done
          | ok list => simpa only [first, seen, iterate_more enough seen] using done

theorem step_single {answer other : Answer K V} {after second : Tree K V}
    (step : treeStep options tree (asked, answer) after)
    (again : Answers options tree (asked, other) second) :
    answer = other ∧ after = second := by
  obtain ⟨few, inBytes, done⟩ := step
  obtain ⟨more, same⟩ := again
  have first := call_more (Nat.le_max_left few more) done
  have last := call_more (Nat.le_max_right few more) (same inBytes)
  exact Prod.mk.inj (Except.ok.inj (first.symm.trans last))

theorem scan_enumerates (wellFormed : WellFormed rules tree) (represents : Represents tree map)
    (start : Option K) :
    ∃ list, Enumerates map start list ∧
      ∀ inBytes, call options list.length inBytes tree (.scan start) =
        .ok (.scanned list, tree) := by
  obtain ⟨fresh, bare | ⟨root, height, standing⟩⟩ := wellFormed
  · have nothing (key : K) (value : V) : map key ≠ some value := fun there =>
      nothing_stored bare (holds_stored ((represents key value).mpr there))
    refine ⟨[], ⟨List.Pairwise.nil, fun key value => ?_⟩, fun inBytes => ?_⟩
    · simp [nothing]
    · cases start <;> simp [call, Tree.begin, Tree.beginAt, bare, Tree.iterate, bind, Except.bind]
  · cases start with
    | none =>
        obtain ⟨list, done, rising, entries⟩ := begin_enumerates fresh standing
        refine ⟨list, ⟨rising, fun key value => ?_⟩, fun inBytes => ?_⟩
        · rw [entries, represents]
          simp
        · have seen := done list.length (le_refl _)
          simp only [bind, Except.bind] at seen
          simp only [call, bind, Except.bind]
          cases first : tree.begin with
          | error fault => simp [first] at seen
          | ok place =>
              simp only [first] at seen
              simp only [seen]
    | some key =>
        obtain ⟨list, done, rising, entries⟩ := begin_at_enumerates fresh standing key
        refine ⟨list, ⟨rising, fun k v => ?_⟩, fun inBytes => ?_⟩
        · rw [entries, represents]
          simp
        · have seen := done list.length (le_refl _)
          simp only [bind, Except.bind] at seen
          simp only [call, bind, Except.bind]
          cases first : tree.beginAt key with
          | error fault => simp [first] at seen
          | ok place =>
              simp only [first] at seen
              simp only [seen]

/-- One call gives the map's answer and leaves a tree that stands for the map. -/
theorem call_refines (opens : Opens options) (wellFormed : WellFormed (fullRules options) tree)
    (represents : Represents tree map) (asked : Call K V) (admits : Admits options tree asked) :
    ∃ answer result next, Answers options tree (asked, answer) result ∧
      MapStep map (asked, answer) next ∧ WellFormed (fullRules options) result ∧
      Represents result next := by
  cases asked with
  | insert key value =>
      obtain ⟨space, stored⟩ := admits
      cases there : map key with
      | none =>
          have absent : ¬Stored tree key := by
            intro inside
            obtain ⟨other, holds⟩ := stored inside
            rw [represents, there] at holds
            cases holds
          have inserted :=
            @insert_new K V _ (fullRules options) tree key value _ (opens_roomy opens)
              wellFormed absent
            space
          obtain ⟨grown, done, stands, holds⟩ : ∃ grown, tree.insert options key value =
              .ok (true, grown) ∧ WellFormed (fullRules options) grown ∧
                ∀ k v, Holds grown k v ↔ (k = key ∧ v = value) ∨ Holds tree k v := inserted
          refine ⟨.inserted true, grown, _, ⟨0, fun _ => ?_⟩, .inserts there, stands, fun k v => ?_⟩
          · simp only [call, done, bind, Except.bind]
          · rw [holds, represents, Function.update_apply]
            by_cases same : k = key
            · simp [same, there, eq_comm]
            · simp [same]
      | some old =>
          have inserted := @insert_stored K V _ (fullRules options) tree key value _ wellFormed
            (holds_stored ((represents key old).mpr there))
          have done : tree.insert options key value = .ok (false, tree) := inserted
          refine ⟨.inserted false, tree, map, ⟨0, fun _ => ?_⟩, .refuses there,
            wellFormed, represents⟩
          simp only [call, done, bind, Except.bind]
  | remove key =>
      obtain ⟨result, done, removed⟩ := remove_any opens wellFormed admits
      refine ⟨.removed, result, _, ⟨0, fun _ => ?_⟩, .removes, removed.wellFormed, fun k v => ?_⟩
      · simp only [call, done, bind, Except.bind]
      · rw [removed.holds, represents, Function.update_apply]
        by_cases same : k = key
        · simp [same]
        · simp [same]
  | getValue key =>
      obtain ⟨found, done, holds⟩ := get_value_finds wellFormed key
      obtain rfl : found = map key := by
        apply Option.ext
        intro value
        rw [holds, represents]
      refine ⟨.found (map key), tree, map, ⟨0, fun _ => ?_⟩, .finds, wellFormed, represents⟩
      simp only [call, done, bind, Except.bind]
  | scan start =>
      obtain ⟨list, lists, done⟩ :=
        @scan_enumerates K V _ (fullRules options) tree map options _ wellFormed represents
        start
      exact ⟨.scanned list, tree, map, ⟨list.length, done⟩, .scans lists, wellFormed, represents⟩

omit [Inhabited K] in
theorem empty_well_formed : WellFormed rules ({} : Tree K V) :=
  ⟨⟨le_refl _, fun _ taken => absurd rfl taken⟩, Or.inl rfl⟩

abbrev Served (options : Options) : Tree K V → Call K V × Answer K V → Tree K V → Prop :=
  TransitionSystem.guarded (fun tree label => Admits options tree label.1) (treeStep options)

/-- In every run of calls that come to nothing the tree does wrong, the answers are a map's. The
tree stays well-formed and holds what the map has, and it has an answer to every such call that
may come next. -/
theorem tree_refines_map (opens : Opens options) {labels : List (Call K V × Answer K V)}
    (run : TransitionSystem.Run (Served options) {} labels tree) :
    WellFormed (fullRules options) tree ∧
      (∃ map, TransitionSystem.Run MapStep (fun _ => none) labels map ∧ Represents tree map) ∧
      ∀ asked, Admits options tree asked →
      ∃ answer after, treeStep options tree (asked, answer) after := by
  have empty : ∀ key value, ¬Holds ({} : Tree K V) key value :=
    fun key value holds => nothing_stored rfl (holds_stored holds)
  obtain ⟨map, runs, wellFormed, represents⟩ := TransitionSystem.run_follows
    (show ∀ (tree : Tree K V) label after (map : K → Option V),
        (WellFormed (fullRules options) tree ∧ Represents tree map) →
          Served options tree label after → ∃ next, MapStep map label next ∧
            WellFormed (fullRules options) after ∧ Represents after next from by
      rintro tree ⟨asked, answer⟩ after map ⟨wellFormed, represents⟩ ⟨admits, step⟩
      obtain ⟨other, result, next, again, matched, stands, holds⟩ :=
        call_refines opens wellFormed represents asked admits
      obtain ⟨rfl, rfl⟩ := step_single step again
      exact ⟨next, matched, stands, holds⟩)
    run (show WellFormed (fullRules options) ({} : Tree K V) ∧ Represents {} (fun _ => none) from
      ⟨empty_well_formed, fun key value => by simp [empty]⟩)
  refine ⟨wellFormed, ⟨map, runs, represents⟩, fun asked admits => ?_⟩
  obtain ⟨answer, after, _, ⟨rounds, answers⟩, _⟩ :=
    call_refines opens wellFormed represents asked admits
  exact ⟨answer, after, rounds, false, answers false⟩

end Trees

def bareFour : Options := ⟨4, 3, 8, 0⟩

def couple : Tree Nat Nat where
  rootPageId := some 0
  pages pid :=
    if pid = 0 then some (.inr ⟨3, [(1, 1), (20, 2)]⟩)
    else if pid = 1 then some (.inl ⟨4, some 2, [(10, 100), (11, 110)], []⟩)
    else if pid = 2 then some (.inl ⟨4, none, [(20, 200), (21, 210)], []⟩)
    else none
  nextPageId := 3

theorem couple_row : leavesOf couple.pages 0 1 = [(⊥, 1), (WithBot.some 20, 2)] := rfl

theorem couple_well_formed : WellFormed (fullRules bareFour) couple := by
  have atRoot : couple.pages 0 = some (.inr ⟨3, [(1, 1), (20, 2)]⟩) := rfl
  have atLeft : couple.pages 1 = some (.inl ⟨4, some 2, [(10, 100), (11, 110)], []⟩) := rfl
  have atRight : couple.pages 2 = some (.inl ⟨4, none, [(20, 200), (21, 210)], []⟩) := rfl
  refine ⟨⟨by decide, fun pid taken => ?_⟩, Or.inr ⟨0, 1, rfl, ⟨?_, ?_⟩, ?_, ?_, ?_⟩⟩
  · by_contra outside
    apply taken
    have apart : pid ≠ 0 ∧ pid ≠ 1 ∧ pid ≠ 2 := by
      refine ⟨?_, ?_, ?_⟩ <;> rintro rfl <;> exact outside (by decide)
    simp [couple, apart]
  · intro slot member
    obtain rfl := List.mem_singleton.mp member
    exact ⟨_, atRoot, by simp, rfl, by decide, fun strict => absurd rfl strict⟩
  · intro slot member
    change slot ∈ [((⊥ : WithBot Nat), 1), (WithBot.some 20, 2)] at member
    rcases List.mem_cons.mp member with rfl | last
    · exact ⟨_, atLeft, rfl, by decide, ⟨by decide, fun _ => by decide⟩, fun _ => by decide⟩
    · obtain rfl := List.mem_singleton.mp last
      exact ⟨_, atRight, rfl, by decide, ⟨by decide, fun _ => by decide⟩, fun _ => by decide⟩
  · rw [couple_row]
    refine ⟨List.pairwise_pair.mpr ⟨WithBot.bot_lt_coe 20, fun key member => ?_⟩,
      fun slot member => ?_⟩
    · exact WithBot.coe_lt_coe.mpr ((by decide : ∀ key ∈ [10, 11], key < 20) key member)
    · rcases List.mem_cons.mp member with rfl | last
      · exact ⟨(by decide : [10, 11].Pairwise (· < ·)), fun _ _ => bot_le⟩
      · obtain rfl := List.mem_singleton.mp last
        refine ⟨(by decide : [20, 21].Pairwise (· < ·)), fun key member => ?_⟩
        exact WithBot.coe_le_coe.mpr ((by decide : ∀ key ∈ [20, 21], 20 ≤ key) key member)
  · rw [couple_row]
    decide
  · exact ⟨rfl, rfl⟩

/-- The leaf of 21 can only be merged, and has no tombstones. -/
theorem two_leaves_removable {tree : Tree Nat Nat} {root left right : PageId} {low : Nat}
    (top : tree.rootPageId = some root)
    (atRoot : tree.pages root = some (.inr ⟨3, [(low, left), (20, right)]⟩))
    (atLeft : tree.pages left = some (.inl ⟨4, some right, [(10, 100), (11, 110)], []⟩))
    (atRight : tree.pages right = some (.inl ⟨4, none, [(20, 200), (21, 210)], []⟩))
    (apart : left ≠ right)
    (down : tree.descend (fun page => page.lookup 21) tree.depthBound root [] =
      .ok ([root], right, ⟨4, none, [(20, 200), (21, 210)], []⟩)) : Removable bareFour tree 21 := by
  intro root path pid leaf top' found _
  obtain rfl := Option.some.inj (top.symm.trans top')
  cases down.symm.trans found
  have place : (⟨3, [(low, left), (20, right)]⟩ : InternalPage Nat).valueIndex right = some 1 := by
    simp [InternalPage.valueIndex, List.findIdx?_cons, apart]
  refine Or.inr
    (Or.inr
    (Or.inr ⟨Or.inr (by decide), Or.inr (Or.inr (Or.inr ⟨?_, Or.inl ⟨left, ?_, ?_⟩, trivial⟩))⟩))
  · rintro other beside ⟨page, there, lends⟩
    have isLeft : other = left := by
      rcases beside with ⟨node, index, here, second, value⟩ | ⟨node, index, here, second, value⟩
      · cases atRoot.symm.trans here
        cases place.symm.trans second
        cases value
        rfl
      · cases atRoot.symm.trans here
        cases place.symm.trans second
        cases value
    subst isLeft
    cases atLeft.symm.trans there
    simp [BPlusTreePage.getMinSize, BPlusTreePage.getSize, LeafPage.getMinSize, LeafPage.getSize]
      at lends
  · exact ⟨_, 0, atRoot, place, rfl⟩
  · intro first second atFirst atSecond
    cases atLeft.symm.trans atFirst
    cases atRight.symm.trans atSecond
    simp [LeafMoves.LeafMove.Settled]

theorem couple_removable : Removable bareFour couple 21 :=
  @two_leaves_removable couple 0 1 2 1 rfl rfl rfl rfl (by decide) rfl

theorem couple_loses : couple.remove bareFour false 20 = .error .empty :=
  first_key_lost ⟨by decide, by decide, by decide, by decide⟩ couple_well_formed
    ⟨0, 2, _, _, _, _, rfl, rfl, rfl, by decide, by decide, by decide⟩ false

theorem root_leaf_admits {options : Options} {tree : Tree Nat Nat} {pid : PageId}
    {leaf : LeafPage Nat Nat} {key : Nat} (top : tree.rootPageId = some pid)
    (found : tree.pages pid = some (.inl leaf)) (value : Nat)
    (absent : key ∉ leaf.entries.map Prod.fst) : Admits options tree (.insert key value) := by
  constructor
  · rintro ⟨root, path, low, other, parent, node, same, down, _⟩
    obtain rfl := Option.some.inj (top.symm.trans same)
    cases fuel : tree.depthBound with
    | zero =>
        rw [fuel] at down
        cases down
    | succ rest =>
        simp only [fuel, Tree.descend, found] at down
        cases down
  · rintro ⟨other, page, reached, there, inside⟩
    obtain rfl := leaf_alone top found reached
    cases found.symm.trans there
    exact absurd inside absent

theorem run_of_two_leaves : ∃ tree : Tree Nat Nat, TransitionSystem.Run (Served bareFour) {}
    [(.insert 10 100, .inserted true), (.insert 20 200, .inserted true),
      (.insert 11 110, .inserted true), (.insert 21 210, .inserted true),
        (.scan (some 11), .scanned [(11, 110), (20, 200), (21, 210)]), (.remove 21, .removed),
          (.getValue 21, .found none), (.scan none, .scanned [(10, 100), (11, 110), (20, 200)])]
            tree := by
  refine ⟨_,
      .next ⟨⟨?_, ?_⟩, 0, false, rfl⟩
      (.next ⟨root_leaf_admits rfl rfl 200 (by decide), 0, false, rfl⟩
    (.next ⟨root_leaf_admits rfl rfl 110 (by decide), 0, false, rfl⟩
      (.next ⟨root_leaf_admits rfl rfl 210 (by decide), 0, false, rfl⟩
    (.next ⟨trivial, 3, false, rfl⟩
      (.next ⟨two_leaves_removable rfl rfl rfl rfl (by decide) rfl, 0, false, rfl⟩
        (.next ⟨trivial, 0, false, rfl⟩
    (.next ⟨trivial, 3, false, rfl⟩ (.refl _))))))))⟩
  · rintro ⟨root, path, pid, leaf, parent, node, top, _⟩
    cases top
  · exact fun stored => absurd stored (nothing_stored rfl)

theorem two_leaves_refine :
    ∃ tree : Tree Nat Nat, ∃ map, TransitionSystem.Run MapStep (fun _ => none)
    [(.insert 10 100, .inserted true), (.insert 20 200, .inserted true),
      (.insert 11 110, .inserted true), (.insert 21 210, .inserted true),
        (.scan (some 11), .scanned [(11, 110), (20, 200), (21, 210)]), (.remove 21, .removed),
          (.getValue 21, .found none), (.scan none, .scanned [(10, 100), (11, 110), (20, 200)])]
            map ∧
    Represents tree map := by
  obtain ⟨tree, run⟩ := run_of_two_leaves
  obtain ⟨_, ⟨map, runs, represents⟩, _⟩ :=
    tree_refines_map ⟨by decide, by decide, by decide, by decide⟩ run
  exact ⟨tree, map, runs, represents⟩

end BusTub.BPlusTree
