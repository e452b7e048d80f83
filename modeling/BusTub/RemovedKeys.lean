import BusTub.LeafTombstones
import BusTub.TreeRemoval

/-!
What `Remove` of the B+ tree does to the keys. In the leaf of a live key the entry is
marked, or taken out where the tombstones are used up. Only a leaf that becomes too
small by that is mended with the pages beside it, level by level, and only then the
root may give way to its child.
-/

namespace BusTub.BPlusTree

open SearchForest

section Leaves
variable {K V : Type} [LinearOrder K] {rules : Rules} {exempt : Set PageId} {pid : PageId}
  {leaf smaller : LeafPage K V} {key : K} {value : V} {index : Nat}

structure Without (rules : Rules) (leaf smaller : LeafPage K V) (key : K) : Prop where
  maxSize : smaller.maxSize = leaf.maxSize
  link : smaller.nextPageId = leaf.nextPageId
  marks : TombstonesOk rules smaller.getSize smaller.tombstones
  part : smaller.entries.Sublist leaf.entries
  live : ∀ k v, Live smaller k v ↔ k ≠ key ∧ Live leaf k v

structure Taken (rules : Rules) (leaf smaller : LeafPage K V) (key : K) : Prop
    extends Without rules leaf smaller key where
  size : smaller.getSize + 1 = leaf.getSize
  bare : leaf.tombstones = [] → smaller.tombstones = []
  first : leaf.getSize = 1 ∨ leaf.entries.head?.map Prod.fst ≠ some key →
    smaller.entries = [] ∨ smaller.entries.head? = leaf.entries.head?

inductive LeafRemoval (rules : Rules) (leaf : LeafPage K V) (key : K) :
    Bool × LeafPage K V → Prop where
  | nothing : (∀ value, ¬Live leaf key value) → LeafRemoval rules leaf key (false, leaf)
  | marked {smaller : LeafPage K V} : (∃ value, Live leaf key value) →
      leaf.tombstones.length < rules.options.LEAF_PAGE_TOMB_CNT → smaller.entries = leaf.entries →
      Without rules leaf smaller key → LeafRemoval rules leaf key (true, smaller)
  | taken {smaller : LeafPage K V} : (∃ value, Live leaf key value) →
      rules.options.LEAF_PAGE_TOMB_CNT ≤ leaf.tombstones.length → Taken rules leaf smaller key →
      LeafRemoval rules leaf key (true, smaller)

theorem marks_key (good : GoodLeaf rules exempt pid leaf)
    (sorted : (leaf.entries.map Prod.fst).Pairwise (· < ·))
    (found : leaf.entries[index]? = some (key, value)) (unmarked : index ∉ leaf.tombstones)
    (room : leaf.tombstones.length < rules.options.LEAF_PAGE_TOMB_CNT) :
    Without rules leaf { leaf with tombstones := leaf.tombstones ++ [index] } key := by
  constructor
  case maxSize => rfl
  case link => rfl
  case marks =>
    refine ⟨by simpa using Nat.succ_le_of_lt room, fun exact => ?_⟩
    obtain ⟨unique, inside⟩ := good.tombstones.2 exact
    refine ⟨List.nodup_append.mpr ⟨unique, List.nodup_singleton _, ?_⟩, fun tombstone member => ?_⟩
    · rintro tombstone member other isIndex rfl
      exact unmarked (List.mem_singleton.mp isIndex ▸ member)
    · rcases List.mem_append.mp member with old | new
      · exact inside tombstone old
      · obtain rfl := List.mem_singleton.mp new
        exact (List.getElem?_eq_some_iff.mp found).1
  case part => exact List.Sublist.refl _
  case live =>
    intro k v
    simp only [Live, List.mem_append, List.mem_singleton, not_or]
    constructor
    · rintro ⟨place, there, old, other⟩
      refine ⟨?_, place, there, old⟩
      rintro rfl
      exact other (LeafTombstones.same_place sorted there found rfl)
    · rintro ⟨different, place, there, old⟩
      refine ⟨place, there, old, ?_⟩
      rintro rfl
      exact different (Prod.mk.inj (Option.some.inj (there.symm.trans found))).1

theorem unshifted_place {index place other : Nat} (apart : other ≠ index) (notHere : place ≠ index)
    (same : LeafTombstones.unshifted index other = LeafTombstones.unshifted index place) :
    other = place := by
  unfold LeafTombstones.unshifted at same
  split at same <;> split at same <;> omega

theorem live_removed (sorted : (leaf.entries.map Prod.fst).Pairwise (· < ·))
    (found : leaf.entries[index]? = some (key, value)) (k : K) (v : V) :
    Live (leaf.removeAt index) k v ↔ k ≠ key ∧ Live leaf k v := by
  have listed {place : Nat} : place ∈ (leaf.removeAt index).tombstones ↔
      ∃ other ∈ leaf.tombstones, other ≠ index ∧ LeafTombstones.unshifted index other = place := by
    simp only [LeafPage.removeAt, List.mem_map, List.mem_filter, decide_eq_true_eq]
    constructor
    · rintro ⟨other, ⟨member, apart⟩, same⟩
      exact ⟨other, member, apart, same⟩
    · rintro ⟨other, member, apart, same⟩
      exact ⟨other, ⟨member, apart⟩, same⟩
  constructor
  · rintro ⟨place, there, unmarked⟩
    obtain ⟨old, apart, rfl⟩ : ∃ old, old ≠ index ∧ LeafTombstones.unshifted index old = place := by
      by_cases before : place < index
      · exact ⟨place, by omega, if_neg (by omega)⟩
      · refine ⟨place + 1, by omega, ?_⟩
        rw [LeafTombstones.unshifted, if_pos (by omega)]
        omega
    rw [LeafTombstones.remove_at_entry apart] at there
    refine ⟨?_, old, there, fun member => unmarked (listed.mpr ⟨old, member, apart, rfl⟩)⟩
    rintro rfl
    exact apart (LeafTombstones.same_place sorted there found rfl)
  · rintro ⟨different, place, there, unmarked⟩
    have apart : place ≠ index := by
      rintro rfl
      exact different (Prod.mk.inj (Option.some.inj (there.symm.trans found))).1
    refine ⟨LeafTombstones.unshifted index place,
        (LeafTombstones.remove_at_entry apart).trans there, fun member => ?_⟩
    obtain ⟨other, inside, notIndex, same⟩ := listed.mp member
    exact unmarked (unshifted_place notIndex apart same ▸ inside)

theorem takes_key (good : GoodLeaf rules exempt pid leaf) (exact : rules.exact)
    (sorted : (leaf.entries.map Prod.fst).Pairwise (· < ·))
    (found : leaf.entries[index]? = some (key, value)) :
    Taken rules leaf (leaf.removeAt index) key := by
  have within : index < leaf.getSize := (List.getElem?_eq_some_iff.mp found).1
  have represents :
    LeafTombstones.Represents rules.options.LEAF_PAGE_TOMB_CNT leaf
      ⟨leaf.entries, leaf.getTombstones⟩ :=
    ⟨rfl, sorted, (good.tombstones.2 exact).1, (good.tombstones.2 exact).2, good.tombstones.1, rfl⟩
  have after :=
    @LeafTombstones.represents_remove_at K V _ rules.options.LEAF_PAGE_TOMB_CNT leaf _
      index represents
  rw [LeafTombstones.applyOp, if_pos within] at after
  have size : (leaf.removeAt index).getSize + 1 = leaf.getSize := by
    have inside : index < leaf.entries.length := within
    have length := List.length_eraseIdx_of_lt inside
    change (leaf.entries.eraseIdx index).length + 1 = leaf.entries.length
    omega
  constructor
  case toWithout =>
    exact ⟨rfl, rfl, ⟨after.bound, fun _ => ⟨after.unique, after.inside⟩⟩,
        List.eraseIdx_sublist _ _, live_removed sorted found⟩
  case size => exact size
  case bare =>
    intro bare
    simp [LeafPage.removeAt, bare]
  case first =>
    rintro (one | other)
    · exact Or.inl
        (List.eq_nil_of_length_eq_zero (by change (leaf.removeAt index).getSize = 0; omega))
    · right
      cases list : leaf.entries with
      | nil =>
          rw [list] at found
          cases found
      | cons entry rest =>
          cases index with
          | zero =>
              rw [list] at found other
              obtain rfl := Option.some.inj found
              exact absurd rfl other
          | succ index => simp [LeafPage.removeAt, list]

theorem leaf_removal (good : GoodLeaf rules exempt pid leaf) (exact : rules.exact)
    (sorted : (leaf.entries.map Prod.fst).Pairwise (· < ·)) :
    LeafRemoval rules leaf key (leaf.remove rules.options.LEAF_PAGE_TOMB_CNT key) := by
  cases place : leaf.entries.findIdx? fun entry => decide (entry.1 = key) with
  | none =>
      have result : leaf.remove rules.options.LEAF_PAGE_TOMB_CNT key = (false, leaf) := by
        simp only [LeafPage.remove, place]
      rw [result]
      refine LeafRemoval.nothing ?_
      rintro value ⟨index, found, -⟩
      rw [LeafTombstones.find_place sorted found] at place
      cases place
  | some index =>
      obtain ⟨within, here, -⟩ := List.findIdx?_eq_some_iff_getElem.mp place
      obtain ⟨value, found⟩ : ∃ value, leaf.entries[index]? = some (key, value) := by
        refine ⟨leaf.entries[index].2, ?_⟩
        rw [decide_eq_true_eq] at here
        rw [List.getElem?_eq_getElem within, ← here]
      by_cases marked : index ∈ leaf.tombstones
      · have result : leaf.remove rules.options.LEAF_PAGE_TOMB_CNT key = (false, leaf) := by
          simp [LeafPage.remove, place, LeafPage.isTombstone, marked]
        rw [result]
        refine LeafRemoval.nothing ?_
        rintro other ⟨twin, there, unmarked⟩
        exact unmarked (LeafTombstones.same_place sorted there found rfl ▸ marked)
      · by_cases full : rules.options.LEAF_PAGE_TOMB_CNT ≤ leaf.tombstones.length
        · have result : leaf.remove rules.options.LEAF_PAGE_TOMB_CNT key =
              (true, leaf.removeAt index) := by
            simp [LeafPage.remove, place, LeafPage.isTombstone, marked, full]
          rw [result]
          exact LeafRemoval.taken ⟨value, index, found, marked⟩ full
            (takes_key good exact sorted found)
        · have result : leaf.remove rules.options.LEAF_PAGE_TOMB_CNT key =
              (true, { leaf with tombstones := leaf.tombstones ++ [index] }) := by
            simp [LeafPage.remove, place, LeafPage.isTombstone, marked, full]
          rw [result]
          exact LeafRemoval.marked ⟨value, index, found, marked⟩ (Nat.lt_of_not_le full) rfl
            (marks_key good sorted found marked (Nat.lt_of_not_le full))

omit [LinearOrder K] in
theorem no_live_size (marks : TombstonesOk rules leaf.getSize leaf.tombstones)
    (exact : rules.exact) :
    leaf.getLiveSize = 0 ↔ ∀ k v, ¬Live leaf k v := by
  obtain ⟨unique, inside⟩ := marks.2 exact
  have part : leaf.tombstones.Subperm (List.range leaf.getSize) :=
    List.subperm_of_subset unique fun tombstone member =>
      List.mem_range.mpr (inside tombstone member)
  have bound := part.length_le
  rw [List.length_range] at bound
  constructor
  · rintro zero k v ⟨index, found, unmarked⟩
    have whole : leaf.tombstones.Perm (List.range leaf.getSize) := by
      apply part.perm_of_length_le
      rw [List.length_range]
      rw [LeafPage.getLiveSize] at zero
      omega
    exact unmarked (whole.mem_iff.mpr (List.mem_range.mpr (List.getElem?_eq_some_iff.mp found).1))
  · intro none
    have whole : (List.range leaf.getSize).Subperm leaf.tombstones := by
      apply List.subperm_of_subset List.nodup_range
      intro index member
      by_contra unmarked
      have within : index < leaf.entries.length := List.mem_range.mp member
      exact none _ _ ⟨index, List.getElem?_eq_getElem within, unmarked⟩
    have size := whole.length_le
    rw [List.length_range] at size
    rw [LeafPage.getLiveSize]
    omega

end Leaves

section Removal
variable {K V : Type} [LinearOrder K] {rules : Rules} {tree : Tree K V} {root pid : PageId}
  {height : Nat} {key : K} {path : List PageId} {before after : Row K PageId} {fence : WithBot K}
  {leaf smaller : LeafPage K V} {exempt : Set PageId} {parent : PageId} {upper : List PageId}
  {other : PageId} {value : V}

theorem searches_lookup (key : K) : Searches (fun page : InternalPage K => page.lookup key) key :=
  fun _ more rising => lookup_cut more rising

theorem same_leaf {path' : List PageId} {before' after' : Row K PageId} {fence' : WithBot K}
    {pid' : PageId} {leaf' : LeafPage K V} (standing : Standing rules exempt tree root height)
    (place : LeafFor rules exempt tree root height key path before fence pid after leaf)
    (other : LeafFor rules exempt tree root height key path' before' fence' pid' after' leaf')
    (inside : key ∈ leaf.entries.map Prod.fst) : pid = pid' ∧ leaf = leaf' := by
  have ordered := standing.ordered
  rw [leaf_row other] at ordered
  have member : (fence, pid) ∈ before' ++ (fence', pid') :: after' := by
    rw [← leaf_row other, leaf_row place]
    simp
  have same := ordered_near ordered other.near member (by rwa [keys_leaf place.found])
  obtain ⟨-, rfl⟩ := Prod.mk.inj same
  exact ⟨rfl, Sum.inl.inj (Option.some.inj (place.found.symm.trans other.found))⟩

theorem held_elsewhere (standing : Standing rules exempt tree root height)
    (place : LeafFor rules exempt tree root height key path before fence pid after leaf) :
    ¬HeldIn tree.pages (before ++ after) key value := by
  rintro ⟨slot, member, other, found, live⟩
  have ordered := standing.ordered
  rw [leaf_row place] at ordered
  have inRow : slot ∈ before ++ (fence, pid) :: after := by
    simp only [List.mem_append, List.mem_cons] at member ⊢
    tauto
  have same := ordered_near ordered place.near inRow (by
    rw [keys_leaf found]
    exact live_key live)
  exact leaf_apart standing place slot member (by rw [same])

theorem leaf_live (standing : Standing rules exempt tree root height)
    (place : LeafFor rules exempt tree root height key path before fence pid after leaf) :
    Holds tree key value ↔ Live leaf key value := by
  rw [leaf_holds standing place]
  exact or_iff_left (held_elsewhere standing place)

theorem leaf_without {exempt more : Set PageId} (standing : Standing rules exempt tree root height)
    (place : LeafFor rules exempt tree root height key path before fence pid after leaf)
    (without : Without rules leaf smaller key) (wider : exempt ⊆ more)
    (low : pid ∉ more → rules.lowLeaf ≤ smaller.getSize) :
    Standing rules more (tree.setPage pid (.inl smaller)) root height ∧
      ∀ k v, Holds (tree.setPage pid (.inl smaller)) k v ↔ k ≠ key ∧ Holds tree k v := by
  obtain ⟨sorted, inside⟩ := leaf_range standing place
  have good : GoodLeaf rules more pid smaller := by
    constructor
    case maxSize => exact without.maxSize.trans place.good.maxSize
    case room => exact without.part.length_le.trans_lt place.good.room
    case tombstones => exact without.marks
    case low => exact low
  obtain ⟨stands, leaves⟩ :=
    leaf_replaced standing place wider good (sorted.sublist (without.part.map Prod.fst))
      (fun entry member => inside entry (without.part.subset member)) without.link
  refine ⟨stands, fun k v => ?_⟩
  rw [holds_replaced standing place stands leaves, leaf_holds standing place, without.live]
  have elsewhere : HeldIn tree.pages (before ++ after) k v → k ≠ key := by
    rintro held rfl
    exact held_elsewhere standing place held
  tauto

omit [LinearOrder K] in
theorem set_missing {page : Page K V} (missing : (tree.setPage pid page).pages other = none) :
    tree.pages other = none := by
  by_cases same : other = pid
  · rw [same, Tree.set_pages, Function.update_self] at missing
    cases missing
  · rwa [Tree.set_pages, Function.update_of_ne same] at missing

omit [LinearOrder K] in
theorem reached_set (found : tree.pages pid = some (.inl leaf)) (reached : Reached tree other) :
    Reached (tree.setPage pid (.inl smaller)) other := by
  induction reached with
  | root here => exact Reached.root here
  | @child other page entry old there inside ih =>
      have apart : other ≠ pid := by
        rintro rfl
        cases found.symm.trans there
      exact Reached.child ih (by rwa [Tree.set_pages, Function.update_of_ne apart]) inside

omit [LinearOrder K] in
theorem set_before (reached : Reached (tree.setPage pid (.inl smaller)) other) :
    Reached tree other := by
  refine reached_before (show (tree.setPage pid (.inl smaller)).rootPageId =
    tree.rootPageId from rfl) ?_ reached
  intro other page old found entry member
  have apart : other ≠ pid := by
    rintro rfl
    rw [Tree.set_pages, Function.update_self] at found
    cases found
  rw [Tree.set_pages, Function.update_of_ne apart] at found
  exact Reached.child old found member

omit [LinearOrder K] in
theorem drops_set (found : tree.pages pid = some (.inl leaf)) :
    Drops tree (tree.setPage pid (.inl smaller)) [] := by
  refine ⟨fun _ missing => Or.inl (set_missing missing), fun other missing => ?_, fun _ reached =>
    Or.inl (reached_set found reached), by simp⟩
  have apart : other ≠ pid := by
    rintro rfl
    cases found.symm.trans missing
  rwa [Tree.set_pages, Function.update_of_ne apart]

omit [LinearOrder K] in
theorem drops_then {middle after : Tree K V} (first : Drops tree middle [])
    (second : Drops middle after [])
    (before : ∀ other, Reached middle other → Reached tree other) : Drops tree after [] := by
  refine ⟨fun other missing => ?_, fun other missing =>
      second.older other (first.older other missing), fun other reached => ?_, by simp⟩
  · rcases second.missing other missing with absent | reached | listed
    · exact first.missing other absent
    · exact Or.inr (Or.inl (before other reached))
    · cases listed
  · rcases first.rest other reached with stays | absent
    · exact second.rest other stays
    · exact Or.inr (second.older other absent)

theorem short_start (fresh : Fresh tree) (standing : Standing rules {root} tree root height)
    (place : LeafFor rules {root} tree root height key (parent :: upper) before fence
      pid after leaf)
    (taken : Taken rules leaf smaller key) :
    Short rules tree (tree.setPage pid (.inl smaller)) root height 0 (pid :: parent :: upper) []
      (parent :: upper)
      before fence pid after := by
  have row := (leaf_ground standing place).2
  have anywhere {tree' : Tree K V} {exempt : Set PageId}
      (stands : Standing rules exempt tree' root height) :
      Standing rules Set.univ tree' root height := filled_stands stands fun _ _ _ strict =>
        absurd trivial strict
  have wider : ({root} : Set PageId) ⊆ {root, pid} := by simp
  have stands :=
    (leaf_without standing place taken.toWithout wider fun strict => absurd (by simp) strict).1
  constructor
  case ground => exact anywhere standing
  case full => exact standing_filled standing
  case way => exact place.way
  case depth =>
    rw [Nat.zero_add]
    exact place.depth
  case stands => exact anywhere stands
  case filled => exact standing_filled stands
  case fresh => exact fresh_set fresh (by simp [place.found])
  case kept =>
    intro other above low higher there
    have apart : other ≠ pid := by
      rintro rfl
      have here :=
        exempt_mono (Set.subset_univ _) (forest_mem row (show (fence, other) ∈ _ by simp))
      have := height_unique there here
      omega
    rw [Tree.set_pages, Function.update_of_ne apart]
  case siblings =>
    intro slot member
    rw [Tree.set_pages, Function.update_of_ne (leaf_apart standing place slot member)]
  case smaller =>
    exact ⟨.inl leaf, .inl smaller, place.found, Function.update_self _ _ _, taken.maxSize,
      taken.size, taken.bare⟩
  case writes => exact ⟨[], rfl, by simp⟩
  case before =>
    exact fun other => set_before
  case gone => simp
  case rest => exact fun other reached => Or.inl (reached_set place.found reached)

structure Removed (rules : Rules) (tree result : Tree K V) (key : K) : Prop where
  wellFormed : WellFormed rules result
  holds : ∀ k v, Holds result k v ↔ k ≠ key ∧ Holds tree k v
  drops : Drops tree result []

theorem set_removed (fresh : Fresh tree) (standing : Standing rules {root} tree root height)
    (place : LeafFor rules {root} tree root height key path before fence pid after leaf)
    (without : Without rules leaf smaller key)
    (low : pid ≠ root → rules.lowLeaf ≤ smaller.getSize) :
    Removed rules tree (tree.setPage pid (.inl smaller)) key := by
  obtain ⟨stands, holds⟩ := leaf_without standing place without (le_refl _) low
  exact ⟨⟨fresh_set fresh (by simp [place.found]), Or.inr ⟨root, height, stands⟩⟩, holds,
    drops_set place.found⟩

theorem root_removed (exact : rules.exact) (fresh : Fresh tree)
    (standing : Standing rules {root} tree root height)
    (place : LeafFor rules {root} tree root height key [] before fence root after leaf)
    (without : Without rules leaf smaller key) (dead : smaller.getLiveSize = 0) :
    Removed rules tree
      ({ tree.setPage root (.inl smaller) with rootPageId := none }.deletePage root) key := by
  have here : (tree.setPage root (.inl smaller)).pages root = some (.inl smaller) :=
    Function.update_self _ _ _
  obtain ⟨stands, holds⟩ := leaf_without standing place without (le_refl _) fun strict =>
    absurd rfl strict
  have freshThen : Fresh (tree.setPage root (.inl smaller)) :=
    fresh_set fresh (by simp [place.found])
  refine ⟨⟨?_, Or.inl rfl⟩, fun k v => ?_,
      drops_then (drops_set place.found) (drops_root standing.top here)
    fun _ => set_before⟩
  · exact @fresh_deleted K V { tree.setPage root (.inl smaller) with rootPageId := none } [root]
      ⟨freshThen.start, freshThen.taken⟩
  · rw [← holds]
    constructor
    · exact fun there => absurd (holds_stored there) (nothing_stored rfl)
    · intro there
      obtain rfl : 0 = height := place.depth
      rw [holds_iff stands, leavesOf, fringe, held_leaf here] at there
      rcases there with live | ⟨slot, member, -⟩
      · exact absurd live ((no_live_size without.marks exact).mp dead k v)
      · exact absurd member List.not_mem_nil

theorem try_goes (top : tree.rootPageId = some root)
    (down : tree.descend (fun page => page.childFor key) tree.depthBound root [] =
      .ok (path, pid, leaf))
    (large : leaf.getMinSize < leaf.getLiveSize)
    (removed : leaf.remove rules.options.LEAF_PAGE_TOMB_CNT key = (true, smaller))
    (put : tree.putLeaf rules.options pid smaller = .ok (tree.setPage pid (.inl smaller))) :
    tree.tryOptimisticRemove rules.options key = .ok (some (tree.setPage pid (.inl smaller))) := by
  simp only [Tree.tryOptimisticRemove, top, down, bind, Except.bind,
    if_neg (not_le.mpr large), removed, put]

theorem try_declines (top : tree.rootPageId = some root)
    (down : tree.descend (fun page => page.childFor key) tree.depthBound root [] =
      .ok (path, pid, leaf))
    (declines : leaf.getLiveSize ≤ leaf.getMinSize ∨
      leaf.remove rules.options.LEAF_PAGE_TOMB_CNT key = (false, leaf)) :
    tree.tryOptimisticRemove rules.options key = .ok none := by
  by_cases small : leaf.getLiveSize ≤ leaf.getMinSize
  · simp only [Tree.tryOptimisticRemove, top, down, bind, Except.bind, if_pos small]
  · have nothing := declines.resolve_left small
    simp only [Tree.tryOptimisticRemove, top, down, bind, Except.bind, if_neg small, nothing]

theorem dead_removal (exact : rules.exact) (standing : Standing rules exempt tree root height)
    (place : LeafFor rules exempt tree root height key path before fence pid after leaf)
    (dead : ∀ value, ¬Holds tree key value) :
    leaf.remove rules.options.LEAF_PAGE_TOMB_CNT key = (false, leaf) := by
  have outcome :=
    @leaf_removal K V _ rules exempt pid leaf key place.good exact (leaf_range standing place).1
  generalize leaf.remove rules.options.LEAF_PAGE_TOMB_CNT key = removed at outcome
  cases outcome with
  | nothing _ => rfl
  | marked live _ _ _ =>
      obtain ⟨value, live⟩ := live
      exact absurd ((leaf_live standing place).mpr live) (dead value)
  | taken live _ _ =>
      obtain ⟨value, live⟩ := live
      exact absurd ((leaf_live standing place).mpr live) (dead value)

variable [Inhabited K]

theorem underflow_mended (roomy : Roomy rules) (exact : rules.exact) (fresh : Fresh tree)
    (standing : Standing rules {root} tree root height)
    (place : LeafFor rules {root} tree root height key (parent :: upper) before fence
      pid after leaf)
    (taken : Taken rules leaf smaller key) (mends : Mends tree pid (parent :: upper)) :
    ∃ result,
      (tree.setPage pid (.inl smaller)).removeUnderflow rules.options (pid :: parent :: upper) =
        .ok result ∧ WellFormed rules result ∧
          (∀ k v, Holds result k v ↔ k ≠ key ∧ Holds tree k v) ∧ Drops tree result [] := by
  have short := short_start fresh standing place taken
  obtain ⟨mended, gone, repaired, whole⟩ := repair_mends roomy exact short mends
  have depth := place.depth
  rw [List.length_cons] at depth
  obtain ⟨below, rfl⟩ : ∃ n, height = n + 1 := ⟨upper.length, depth.symm⟩
  obtain ⟨shrunk, rest, result, atRoot, done, wellFormed, holds, drops⟩ :=
    root_shrinks whole.fresh (filled_stands whole.stands whole.filled) fun pid listed =>
      (whole.gone pid listed).1
  refine ⟨result, ?_, wellFormed, fun k v => ?_, ?_⟩
  · simp only [Tree.removeUnderflow, repaired, descent_last place.way, atRoot, done,
      bind, Except.bind]
  · rw [holds, whole.keeps k v]
    exact (leaf_without standing place taken.toWithout (Set.subset_univ _) fun strict =>
      absurd trivial strict).2 k v
  · constructor
    case missing =>
      intro other missing
      rcases drops.missing other missing with absent | reached | listed
      · exact Or.inl (set_missing ((whole.there other).mp absent))
      · exact Or.inr (Or.inl (whole.before other reached))
      · exact Or.inr (Or.inl (whole.gone other listed).2)
    case older =>
      exact fun other missing =>
        drops.older other ((whole.there other).mpr ((drops_set place.found).older other missing))
    case rest =>
      intro other reached
      rcases whole.rest other reached with stays | listed
      · exact drops.rest other stays
      · exact Or.inr (drops.listed other listed)
    case listed => simp

theorem remove_dead (exact : rules.exact) (wellFormed : WellFormed rules tree)
    (dead : ∀ value, ¬Holds tree key value) (inBytes : Bool) :
    tree.remove rules.options inBytes key = .ok tree := by
  obtain ⟨fresh, none | ⟨root, height, standing⟩⟩ := wellFormed
  · simp only [Tree.remove, Tree.tryOptimisticRemove, Tree.removePessimistic, none,
      bind, Except.bind]
  · obtain ⟨_, _, _, _, _, _, tried, tryPlace⟩ :=
      descend_to_leaf fresh standing (searches_child_for key)
    obtain ⟨_, _, _, _, _, _, down, place⟩ := descend_to_leaf fresh standing (searches_lookup key)
    have declined : tree.tryOptimisticRemove rules.options key = .ok .none :=
      try_declines standing.top tried (Or.inr (dead_removal exact standing tryPlace dead))
    simp only [Tree.remove, declined, Tree.removePessimistic, standing.top, down,
      dead_removal exact standing place dead, bind, Except.bind]

theorem only_leaf_removed (exact : rules.exact) (fresh : Fresh tree)
    (standing : Standing rules {root} tree root height)
    (place : LeafFor rules {root} tree root height key [] before fence pid after leaf)
    (down : tree.descend (fun page => page.lookup key) tree.depthBound root [] =
      .ok ([], pid, leaf))
    (removed : leaf.remove rules.options.LEAF_PAGE_TOMB_CNT key = (true, smaller))
    (without : Without rules leaf smaller key)
    (put : tree.putLeaf rules.options pid smaller = .ok (tree.setPage pid (.inl smaller))) :
    ∃ result, (∀ inBytes, tree.removePessimistic rules.options inBytes key = .ok result) ∧
      Removed rules tree result key := by
  obtain rfl : pid = root := by
    cases place.way
    rfl
  by_cases dead : smaller.getLiveSize = 0
  · refine ⟨_, fun inBytes => ?_, root_removed exact fresh standing place without dead⟩
    simp only [Tree.removePessimistic, standing.top, down, removed, put, bind, Except.bind,
      if_true, if_pos dead]
  · refine ⟨_, fun inBytes => ?_, set_removed fresh standing place without fun strict =>
      absurd rfl strict⟩
    simp only [Tree.removePessimistic, standing.top, down, removed, put, bind, Except.bind,
      if_true, if_neg dead]

omit [Inhabited K] in
theorem below_root (standing : Standing rules {root} tree root height)
    (place : LeafFor rules {root} tree root height key (parent :: upper) before fence
      pid after leaf) :
    pid ≠ root := by
  rintro rfl
  have here :=
    forest_fence ⊥ (forest_mem (leaf_ground standing place).2 (show (fence, pid) ∈ _ by simp))
  have same := height_unique here standing.forest
  rw [← place.depth] at same
  cases same

/-- Where a leaf keeps its first key, no ancestor is told of another one. -/
theorem lower_leaf (standing : Standing rules {root} tree root height)
    (place : LeafFor rules {root} tree root height key (parent :: upper) before fence
      pid after leaf)
    (down : tree.descend (fun page => page.lookup key) tree.depthBound root [] =
      .ok (parent :: upper, pid, leaf))
    (removed : leaf.remove rules.options.LEAF_PAGE_TOMB_CNT key = (true, smaller))
    (put : tree.putLeaf rules.options pid smaller = .ok (tree.setPage pid (.inl smaller)))
    (first : smaller.entries = [] ∨ smaller.entries.head? = leaf.entries.head?) (inBytes : Bool) :
    tree.removePessimistic rules.options inBytes key =
      if smaller.getMinSize ≤ smaller.getSize then .ok (tree.setPage pid (.inl smaller))
      else (tree.setPage pid (.inl smaller)).removeUnderflow rules.options
        (pid :: parent :: upper) := by
  simp only [Tree.removePessimistic, standing.top, down, removed, put, bind, Except.bind,
    if_neg (below_root standing place)]
  rcases first with nothing | same
  · rw [nothing]
    cases leaf.entries <;> rfl
  · match list : leaf.entries, rest : smaller.entries with
    | [], _ => rfl
    | _ :: _, [] => rfl
    | old :: _, new :: _ =>
        rw [list, rest] at same
        obtain rfl : new = old := Option.some.inj same
        simp only [if_true]

/-- The removal does not do what it does wrong. Where the leaf has more live entries than it
needs, or room for a tombstone, or is the root, nothing has to be mended. Otherwise the leaf keeps
its first key, unless it loses its only one, and no page is treated in a way that does not mend
the tree. -/
def Removable (options : Options) (tree : Tree K V) (key : K) : Prop :=
  ∀ root path pid leaf, tree.rootPageId = some root →
    tree.descend (fun page => page.lookup key) tree.depthBound root [] = .ok (path, pid, leaf) →
    (∃ value, Live leaf key value) →
    leaf.getMinSize < leaf.getLiveSize ∨ leaf.tombstones.length < options.LEAF_PAGE_TOMB_CNT ∨
      path = [] ∨
        ((leaf.getSize = 1 ∨ leaf.entries.head?.map Prod.fst ≠ some key) ∧ Mends tree pid path)

theorem remove_live (roomy : Roomy rules) (half : rules.options.leafMaxSize / 2 ≤ rules.lowLeaf)
    (exact : rules.exact) (wellFormed : WellFormed rules tree)
    (live : ∃ value, Holds tree key value) (removable : Removable rules.options tree key) :
    ∃ result, (∀ inBytes, tree.remove rules.options inBytes key = .ok result) ∧
      Removed rules tree result key := by
  obtain ⟨v, holds⟩ := live
  obtain ⟨fresh, none | ⟨root, height, standing⟩⟩ := wellFormed
  · exact absurd (holds_stored holds) (nothing_stored none)
  · obtain ⟨path, before, fence, pid, after, leaf, down, place⟩ :=
      descend_to_leaf fresh standing (searches_lookup key)
    obtain ⟨_, _, _, _, _, _, tried, tryPlace⟩ :=
      descend_to_leaf fresh standing (searches_child_for key)
    have alive := (leaf_live standing place).mp holds
    obtain ⟨rfl, rfl⟩ := same_leaf standing place tryPlace (live_key alive)
    have sorted := (leaf_range standing place).1
    have outcome := @leaf_removal K V _ rules {root} pid leaf key place.good exact sorted
    have allowed := removable root path pid leaf standing.top down ⟨v, alive⟩
    have room := place.good.room
    have slots := roomy.leafSlots
    have put {smaller : LeafPage K V} (without : Without rules leaf smaller key) :
        tree.putLeaf rules.options pid smaller = .ok (tree.setPage pid (.inl smaller)) :=
      put_leaf ((without.part.length_le.trans room.le).trans slots) without.marks.1
    have minimum {smaller : LeafPage K V} (without : Without rules leaf smaller key) :
        smaller.getMinSize = rules.options.leafMaxSize / 2 :=
      congrArg (· / 2) (without.maxSize.trans place.good.maxSize)
    have leafMinimum : leaf.getMinSize = rules.options.leafMaxSize / 2 :=
      congrArg (· / 2) place.good.maxSize
    have declined (small : ¬(leaf.getMinSize : Int) < leaf.getLiveSize) (inBytes : Bool) :
        tree.remove rules.options inBytes key =
          tree.removePessimistic rules.options inBytes key := by
      have declines : tree.tryOptimisticRemove rules.options key = .ok .none :=
        try_declines standing.top tried (Or.inl (not_lt.mp small))
      simp only [Tree.remove, declines, bind, Except.bind]
    generalize removal : leaf.remove rules.options.LEAF_PAGE_TOMB_CNT key = changed at outcome
    have goes {smaller : LeafPage K V} (without : Without rules leaf smaller key)
      (isChanged : changed = (true, smaller))
        (large : leaf.getMinSize < leaf.getLiveSize) (inBytes : Bool) :
        tree.remove rules.options inBytes key = .ok (tree.setPage pid (.inl smaller)) := by
      have taken := try_goes standing.top tried large (isChanged ▸ removal) (put without)
      simp only [Tree.remove, taken, bind, Except.bind]
    cases outcome with
    | nothing dead => exact absurd alive (dead v)
    | @marked smaller _ space same without =>
        have size : smaller.getSize = leaf.getSize := congrArg List.length same
        have low : pid ≠ root → rules.lowLeaf ≤ smaller.getSize :=
          fun strict => size ▸ place.good.low strict
        by_cases large : leaf.getMinSize < leaf.getLiveSize
        · exact ⟨_, goes without rfl large, set_removed fresh standing place without low⟩
        · simp only [declined large]
          cases path with
          | nil =>
              exact only_leaf_removed exact fresh standing place down removal without (put without)
          | cons parent upper =>
              have enough : smaller.getMinSize ≤ smaller.getSize := by
                have := low (below_root standing place)
                rw [minimum without]
                omega
              simp only [lower_leaf standing place down removal (put without)
                (Or.inr (by rw [same])), if_pos enough]
              exact ⟨_, fun _ => rfl, set_removed fresh standing place without low⟩
    | @taken smaller _ full taken =>
        have without := taken.toWithout
        have size := taken.size
        by_cases large : leaf.getMinSize < leaf.getLiveSize
        · refine ⟨_, goes without rfl large, set_removed fresh standing place without fun _ => ?_⟩
          have low := roomy.lowLeaf
          rw [LeafPage.getLiveSize] at large
          omega
        · simp only [declined large]
          cases path with
          | nil =>
              exact only_leaf_removed exact fresh standing place down removal without (put without)
          | cons parent upper =>
              obtain ⟨first, mends⟩ : (leaf.getSize = 1 ∨
                  leaf.entries.head?.map Prod.fst ≠ some key) ∧
                    Mends tree pid (parent :: upper) := by
                rcases allowed with able | space | bottom | allowed
                · exact absurd able large
                · omega
                · cases bottom
                · exact allowed
              simp only [lower_leaf standing place down removal (put without) (taken.first first)]
              by_cases enough : smaller.getMinSize ≤ smaller.getSize
              · simp only [if_pos enough]
                refine ⟨_, fun _ => rfl, set_removed fresh standing place without fun _ => ?_⟩
                have low := roomy.lowLeaf
                rw [minimum without] at enough
                omega
              · simp only [if_neg enough]
                obtain ⟨result, done, wellFormed, holds, drops⟩ :=
                  underflow_mended roomy exact fresh standing place taken mends
                exact ⟨result, fun _ => done, wellFormed, holds, drops⟩

end Removal

end BusTub.BPlusTree
