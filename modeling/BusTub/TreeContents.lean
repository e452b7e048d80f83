import BusTub.TreePages

/-!
What a tree holds, leaf by leaf: the leaf to which a search for a key leads is the
only one that can have the key, and when it is replaced the other leaves stay as
they are.
-/

namespace BusTub.BPlusTree

open SearchForest LinkedChain

section Contents
variable {K V : Type} {pages other : PageId → Option (Page K V)} {row front back : Row K PageId}
  {key : K} {value : V} {leaf : LeafPage K V}

def HeldIn (pages : PageId → Option (Page K V)) (row : Row K PageId) (key : K) (value : V) : Prop :=
  ∃ slot ∈ row, ∃ leaf, pages slot.2 = some (.inl leaf) ∧ Live leaf key value

theorem held_append :
    HeldIn pages (front ++ back) key value ↔ HeldIn pages front key value ∨
      HeldIn pages back key value := by
  unfold HeldIn
  constructor
  · rintro ⟨slot, member, rest⟩
    rcases List.mem_append.mp member with inFront | inBack
    · exact Or.inl ⟨slot, inFront, rest⟩
    · exact Or.inr ⟨slot, inBack, rest⟩
  · rintro (⟨slot, inFront, rest⟩ | ⟨slot, inBack, rest⟩)
    · exact ⟨slot, List.mem_append_left _ inFront, rest⟩
    · exact ⟨slot, List.mem_append_right _ inBack, rest⟩

theorem held_leaf {fence : WithBot K} {pid : PageId} (found : pages pid = some (.inl leaf)) :
    HeldIn pages ((fence, pid) :: row) key value ↔ Live leaf key value ∨
      HeldIn pages row key value := by
  unfold HeldIn
  constructor
  · rintro ⟨slot, member, content, there, live⟩
    rcases List.mem_cons.mp member with rfl | later
    · simp only at there
      rw [found] at there
      obtain rfl := Sum.inl.inj (Option.some.inj there)
      exact Or.inl live
    · exact Or.inr ⟨slot, later, content, there, live⟩
  · rintro (live | ⟨slot, later, rest⟩)
    · exact ⟨(fence, pid), List.mem_cons_self, leaf, found, live⟩
    · exact ⟨slot, List.mem_cons_of_mem _ later, rest⟩

theorem held_congr (same : ∀ slot ∈ row, other slot.2 = pages slot.2) :
    HeldIn other row key value ↔ HeldIn pages row key value := by
  unfold HeldIn
  apply exists_congr
  intro slot
  constructor
  · rintro ⟨member, leaf, found, live⟩
    exact ⟨member, leaf, (same slot member).symm.trans found, live⟩
  · rintro ⟨member, leaf, found, live⟩
    exact ⟨member, leaf, (same slot member).trans found, live⟩

theorem keys_congr (same : ∀ slot ∈ row, other slot.2 = pages slot.2) :
    ∀ slot ∈ row, keysOf other slot.2 = keysOf pages slot.2 := by
  intro slot member
  unfold keysOf
  rw [same slot member]

theorem live_key (live : Live leaf key value) :
    key ∈ leaf.entries.map Prod.fst := by
  obtain ⟨index, found, _⟩ := live
  exact List.mem_map.mpr ⟨(key, value), List.mem_of_getElem? found, rfl⟩

end Contents

section Trees
variable {K V : Type} [LinearOrder K] {rules : Rules} {exempt : Set PageId} {tree : Tree K V}
  {root pid : PageId} {height : Nat} {key : K} {value : V} {k : K} {v : V} {more : Set PageId}

theorem standing_rise (standing : Standing rules exempt tree root height) :
    ((leavesOf tree.pages root height).map Prod.fst).Pairwise (· < ·) :=
      ordered_fences standing.ordered

theorem holds_iff (standing : Standing rules exempt tree root height) :
    Holds tree key value ↔ HeldIn tree.pages (leavesOf tree.pages root height) key value := by
  constructor
  · rintro ⟨pid, leaf, reached, found, live⟩
    obtain ⟨slot, member, rfl⟩ :=
      List.mem_map.mp ((reached_leaf standing.top standing.forest found).mp reached)
    exact ⟨slot, member, leaf, found, live⟩
  · rintro ⟨slot, member, leaf, found, live⟩
    exact ⟨slot.2, leaf,
        (reached_leaf standing.top standing.forest found).mpr (List.mem_map_of_mem member), found,
          live⟩

theorem stored_iff (standing : Standing rules exempt tree root height) :
    Stored tree key ↔ ∃ slot ∈ leavesOf tree.pages root height, key ∈ keysOf tree.pages slot.2 := by
  constructor
  · rintro ⟨pid, leaf, reached, found, inside⟩
    obtain ⟨slot, member, rfl⟩ :=
      List.mem_map.mp ((reached_leaf standing.top standing.forest found).mp reached)
    refine ⟨slot, member, ?_⟩
    rwa [keys_leaf found]
  · rintro ⟨slot, member, inside⟩
    have lowest : TreeForest rules exempt tree.pages 0 (leavesOf tree.pages root height) := by
      apply forest_fringe
      rw [Nat.zero_add]
      exact standing.forest
    obtain ⟨leaf, found, _⟩ := lowest slot member
    rw [keys_leaf found] at inside
    exact ⟨slot.2, leaf,
        (reached_leaf standing.top standing.forest found).mpr (List.mem_map_of_mem member),
          found, inside⟩

omit [LinearOrder K] in
theorem holds_stored (holds : Holds tree key value) : Stored tree key := by
  obtain ⟨pid, leaf, reached, found, live⟩ := holds
  exact ⟨pid, leaf, reached, found, live_key live⟩

omit [LinearOrder K] in
theorem nothing_stored (top : tree.rootPageId = none) : ¬Stored tree key := by
  have unreached : ∀ pid, ¬Reached tree pid := by
    intro pid reached
    induction reached with
    | root here =>
        rw [top] at here
        cases here
    | child _ _ _ ih => exact ih
  rintro ⟨pid, leaf, reached, _⟩
  exact unreached pid reached

structure LeafFor (rules : Rules) (exempt : Set PageId) (tree : Tree K V) (root : PageId)
    (height : Nat) (key : K) (path : List PageId) (before : Row K PageId) (fence : WithBot K)
    (pid : PageId) (after : Row K PageId) (leaf : LeafPage K V) : Prop where
  way : Descent InternalPage.entries tree.pages root path before fence pid after
  depth : path.length = height
  near : Near key fence after
  found : tree.pages pid = some (.inl leaf)
  good : GoodLeaf rules exempt pid leaf

theorem descend_to_leaf {search : InternalPage K → Option PageId} (fresh : Fresh tree)
    (standing : Standing rules exempt tree root height) (searches : Searches search key) :
    ∃ path before fence pid after leaf, tree.descend search tree.depthBound root [] =
      .ok (path, pid, leaf) ∧
        LeafFor rules exempt tree root height key path before fence pid after leaf := by
  have start : Near key (⊥ : WithBot K) ([] : Row K PageId) := ⟨bot_le, by simp⟩
  obtain ⟨path, before, fence, pid, after, leaf, done, way, depth, near, found, good⟩ :=
    descend_finds searches Descent.here standing.forest (standing_rise standing) start
      (height_bound fresh standing.forest)
  exact ⟨path, before, fence, pid, after, leaf, done, way, depth, near, found, good⟩

variable {path : List PageId} {before after : Row K PageId} {fence : WithBot K}
  {leaf better : LeafPage K V}

theorem leaf_row
    (place : LeafFor rules exempt tree root height key path before fence pid after leaf) :
    leavesOf tree.pages root height = before ++ (fence, pid) :: after := by
  rw [← place.depth]
  exact descent_row place.way

theorem leaf_range (standing : Standing rules exempt tree root height)
    (place : LeafFor rules exempt tree root height key path before fence pid after leaf) :
    (leaf.entries.map Prod.fst).Pairwise (· < ·) ∧
      ∀ entry ∈ leaf.entries, Near entry.1 fence after := by
  have ordered := standing.ordered
  rw [leaf_row place] at ordered
  obtain ⟨_, rest, _⟩ := ordered_append.mp ordered
  obtain ⟨⟨sorted, low⟩, _, high⟩ := (ordered_cons _).mp rest
  simp only [keys_leaf place.found] at sorted low high
  refine ⟨sorted, fun entry member => ⟨low _ (List.mem_map_of_mem member), fun next inAfter => ?_⟩⟩
  exact (high next inAfter).2 _ (List.mem_map_of_mem member)

theorem leaf_apart (standing : Standing rules exempt tree root height)
    (place : LeafFor rules exempt tree root height key path before fence pid after leaf) :
    ∀ slot ∈ before ++ after, slot.2 ≠ pid := by
  have unique := standing.unique
  rw [leaf_row place, List.map_append, List.map_cons, List.nodup_middle,
    List.nodup_cons, ← List.map_append] at unique
  intro slot member same
  exact unique.1 (List.mem_map.mpr ⟨slot, member, same⟩)

theorem leaf_stored (standing : Standing rules exempt tree root height)
    (place : LeafFor rules exempt tree root height key path before fence pid after leaf) :
    Stored tree key ↔ key ∈ leaf.entries.map Prod.fst := by
  have ordered := standing.ordered
  rw [stored_iff standing]
  rw [leaf_row place] at ordered ⊢
  constructor
  · rintro ⟨slot, member, inside⟩
    obtain rfl := ordered_near ordered place.near member inside
    rwa [keys_leaf place.found] at inside
  · intro inside
    refine ⟨(fence, pid), by simp, ?_⟩
    rwa [keys_leaf place.found]

theorem leaf_holds (standing : Standing rules exempt tree root height)
    (place : LeafFor rules exempt tree root height key path before fence pid after leaf) :
    Holds tree k v ↔ Live leaf k v ∨ HeldIn tree.pages (before ++ after) k v := by
  rw [holds_iff standing, leaf_row place, held_append, held_leaf place.found, held_append]
  tauto

theorem single_leaf (top : tree.rootPageId = some pid) (found : tree.pages pid = some (.inl leaf))
    (maxSize : leaf.maxSize = rules.options.leafMaxSize)
    (room : leaf.getSize < rules.options.leafMaxSize)
    (tombstones : TombstonesOk rules leaf.getSize leaf.tombstones)
    (sorted : (leaf.entries.map Prod.fst).Pairwise (· < ·)) (link : leaf.nextPageId = none) :
    Standing rules {pid} tree pid 0 := by
  refine ⟨top, ?_, ?_, by simp [fringe], ?_⟩
  · intro slot member
    rw [List.mem_singleton] at member
    subst member
    exact ⟨leaf, found, maxSize, room, tombstones, fun strict => absurd rfl strict⟩
  · rw [leavesOf, fringe, ordered_cons]
    simp only [keys_leaf found]
    exact ⟨⟨sorted, fun _ _ => bot_le⟩, ⟨List.Pairwise.nil, by simp⟩, by simp⟩
  · change links tree.pages pid = none
    simp only [links, found, link]

/-- A leaf is replaced by one with other entries in its range. -/
theorem leaf_replaced (standing : Standing rules exempt tree root height)
    (place : LeafFor rules exempt tree root height key path before fence pid after leaf)
    (wider : exempt ⊆ more) (good : GoodLeaf rules more pid better)
    (sorted : (better.entries.map Prod.fst).Pairwise (· < ·))
    (inside : ∀ entry ∈ better.entries, Near entry.1 fence after)
    (link : better.nextPageId = leaf.nextPageId) :
    Standing rules more (tree.setPage pid (.inl better)) root height ∧
      leavesOf (tree.setPage pid (.inl better)).pages root height =
        before ++ (fence, pid) :: after := by
  have row := leaf_row place
  have ground : TreeForest rules exempt tree.pages (0 + path.length) [((⊥ : WithBot K), root)] := by
    rw [Nat.zero_add, place.depth]
    exact standing.forest
  have lowest : TreeForest rules exempt tree.pages 0 (before ++ (fence, pid) :: after) :=
    descent_row place.way ▸ forest_fringe ground
  have apart := leaf_apart standing place
  have others : ∀ slot ∈ before ++ after, (tree.setPage pid (.inl better)).pages slot.2 =
      tree.pages slot.2 := by
    intro slot member
    rw [Tree.set_pages, Function.update_of_ne (apart slot member)]
  have here : (tree.setPage pid (.inl better)).pages pid = some (.inl better) :=
    Function.update_self _ _ _
  have changed : TreeForest rules more (tree.setPage pid (.inl better)).pages 0 (before ++ (fence,
    pid) :: after) := by
    have wide := exempt_mono wider lowest
    intro slot member
    rcases List.mem_append.mp member with inBefore | later
    · rw [others slot (List.mem_append_left _ inBefore)]
      exact wide slot member
    · rcases List.mem_cons.mp later with rfl | inAfter
      · exact ⟨better, here, good⟩
      · rw [others slot (List.mem_append_right _ inAfter)]
        exact wide slot member
  have kept : ∀ page above low, 0 < above → TreeForest rules exempt tree.pages above [(low, page)] →
      (tree.setPage pid (.inl better)).pages page = tree.pages page := by
    intro page above low higher there
    have other : page ≠ pid := by
      rintro rfl
      have := height_unique there (forest_mem lowest (show (fence, page) ∈ _ by simp))
      omega
    rw [Tree.set_pages, Function.update_of_ne other]
  obtain ⟨forest, leaves⟩ := forest_lift place.way ground (exempt_mono wider ground) kept changed
  rw [Nat.zero_add, place.depth] at forest leaves
  change leavesOf (tree.setPage pid (.inl better)).pages root height = before ++ (fence, pid) ::
    after at leaves
  have sameLinks : links (tree.setPage pid (.inl better)).pages = links tree.pages := by
    funext page
    by_cases same : page = pid
    · subst same
      simp [links, place.found, link]
    · simp [links, Function.update_of_ne same]
  have unique := standing.unique
  have chained := standing.chained
  have ordered := standing.ordered
  rw [row] at unique chained ordered
  refine ⟨⟨standing.top, forest, ?_,
    by rw [leaves]; exact unique, by rw [leaves, sameLinks]; exact chained⟩, leaves⟩
  rw [leaves]
  have sameKeys : ∀ slot ∈ before ++ after,
      keysOf (tree.setPage pid (.inl better)).pages slot.2 = keysOf tree.pages slot.2 :=
        keys_congr others
  apply @ordered_replace K PageId _ _ _ before after fence pid pid [] [] ordered _ _
    (fun slot member => sameKeys slot (List.mem_append_left _ member))
    (fun slot member => sameKeys slot (List.mem_append_right _ member))
  · rw [ordered_cons]
    refine ⟨?_, ⟨List.Pairwise.nil, by simp⟩, by simp⟩
    simp only [keys_leaf here]
    refine ⟨sorted, fun entry member => ?_⟩
    obtain ⟨pair, inPage, rfl⟩ := List.mem_map.mp member
    exact (inside pair inPage).1
  · intro slot member next inAfter
    rw [List.mem_singleton] at member
    subst member
    simp only [keys_leaf here]
    obtain ⟨_, rest, _⟩ := ordered_append.mp ordered
    refine ⟨(((ordered_cons _).mp rest).2.2 next inAfter).1, fun entry member => ?_⟩
    obtain ⟨pair, inPage, rfl⟩ := List.mem_map.mp member
    exact (inside pair inPage).2 next inAfter

theorem holds_replaced (standing : Standing rules exempt tree root height)
    (place : LeafFor rules exempt tree root height key path before fence pid after leaf)
    (replaced : Standing rules more (tree.setPage pid (.inl better)) root height)
    (leaves : leavesOf (tree.setPage pid (.inl better)).pages root height =
      before ++ (fence, pid) :: after) :
    Holds (tree.setPage pid (.inl better)) k v ↔ Live better k v ∨
      HeldIn tree.pages (before ++ after) k v := by
  have here : (tree.setPage pid (.inl better)).pages pid = some (.inl better) :=
    Function.update_self _ _ _
  have others : HeldIn (tree.setPage pid (.inl better)).pages (before ++ after) k v ↔
      HeldIn tree.pages (before ++ after) k v := by
    apply held_congr
    intro slot member
    rw [Tree.set_pages, Function.update_of_ne (leaf_apart standing place slot member)]
  rw [holds_iff replaced, leaves, held_append, held_leaf here, ← others, held_append]
  tauto

end Trees

end BusTub.BPlusTree
