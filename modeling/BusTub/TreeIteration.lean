import BusTub.TreeContents

/-!
Iteration over a B+ tree, from `Begin` to `End`. An iterator is a leaf and a place in
it, and `End` is `none`; what it has still to yield are the live entries from its
place on and those of the leaves behind.
-/

namespace BusTub.BPlusTree

open SearchForest LinkedChain

namespace Tree
variable {K V : Type}

/-- `while (index < leaf->GetSize() && leaf->IsTombstone(index))`, for so many rounds at most. -/
def skipTombstones (leaf : LeafPage K V) : Nat → Nat → Nat
  | 0, index => index
  | fuel + 1, index =>
      if index < leaf.getSize ∧ leaf.isTombstone index = true then
        skipTombstones leaf fuel (index + 1) else index

def seek (tree : Tree K V) : Nat → PageId → Nat → Except Fault (Option (PageId × Nat))
  | 0, _, _ => .error .endless
  | fuel + 1, pid, index => do
      let leaf ← tree.leafPage pid
      let place := skipTombstones leaf leaf.getSize index
      if place < leaf.getSize then .ok (some (pid, place))
      else
        match leaf.nextPageId with
        | none => .ok none
        | some next => seek tree fuel next 0

def begin (tree : Tree K V) : Except Fault (Option (PageId × Nat)) :=
  match tree.rootPageId with
  | none => .ok none
  | some root => do
      let (_, pid, _) ← tree.descend (fun page => page.valueAt 0) tree.depthBound root []
      tree.seek tree.depthBound pid 0

def beginAt [LinearOrder K] (tree : Tree K V) (key : K) : Except Fault (Option (PageId × Nat)) :=
  match tree.rootPageId with
  | none => .ok none
  | some root => do
      let (_, pid, leaf) ← tree.descend (fun page => page.childFor key) tree.depthBound root []
      tree.seek tree.depthBound pid (lowerBound leaf key)

def current (tree : Tree K V) (pid : PageId) (index : Nat) : Except Fault (K × V) := do
  let leaf ← tree.leafPage pid
  match leaf.entries[index]? with
  | some entry => .ok entry
  | none => .error .empty

def advance (tree : Tree K V) (pid : PageId) (index : Nat) : Except Fault (Option (PageId × Nat)) :=
  tree.seek tree.depthBound pid (index + 1)

/-- What a loop up to `End` sees in so many rounds. -/
def iterate (tree : Tree K V) : Nat → Option (PageId × Nat) → Except Fault (List (K × V))
  | _, none => .ok []
  | 0, some _ => .error .endless
  | fuel + 1, some (pid, index) => do
      let entry ← tree.current pid index
      let next ← tree.advance pid index
      let rest ← iterate tree fuel next
      .ok (entry :: rest)

end Tree

section Leaves
variable {K V : Type} {leaf : LeafPage K V} {index : Nat} {key : K} {value : V}

def withoutTombstones (tombstones : List Nat) : Nat → List (K × V) → List (K × V)
  | _, [] => []
  | index, entry :: rest =>
      if index ∈ tombstones then withoutTombstones tombstones (index + 1) rest
      else entry :: withoutTombstones tombstones (index + 1) rest

def livesFrom (leaf : LeafPage K V) (index : Nat) : List (K × V) :=
  withoutTombstones leaf.tombstones index (leaf.entries.drop index)

theorem mem_without {tombstones : List Nat} {list : List (K × V)} {entry : K × V} :
    entry ∈ withoutTombstones tombstones index list ↔ ∃ place, list[place]? = some entry ∧
      index + place ∉ tombstones := by
  induction list generalizing index with
  | nil => simp [withoutTombstones]
  | cons first rest ih =>
      have split : (∃ place, (first :: rest)[place]? = some entry ∧ index + place ∉ tombstones) ↔
          (first = entry ∧ index ∉ tombstones) ∨ ∃ place, rest[place]? = some entry ∧
            index + 1 + place ∉ tombstones := by
        constructor
        · rintro ⟨place, found, alive⟩
          cases place with
          | zero => exact Or.inl ⟨by simpa using found, alive⟩
          | succ place =>
              refine Or.inr ⟨place, by simpa using found, ?_⟩
              rwa [show index + 1 + place = index + (place + 1) by omega]
        · rintro (⟨same, alive⟩ | ⟨place, found, alive⟩)
          · exact ⟨0, by simp [same], alive⟩
          · refine ⟨place + 1, by simpa using found, ?_⟩
            rwa [show index + (place + 1) = index + 1 + place by omega]
      rw [split]
      by_cases dead : index ∈ tombstones
      · rw [withoutTombstones, if_pos dead, ih]
        tauto
      · rw [withoutTombstones, if_neg dead, List.mem_cons, ih]
        constructor
        · rintro (rfl | later)
          · exact Or.inl ⟨rfl, dead⟩
          · exact Or.inr later
        · rintro (⟨rfl, _⟩ | later)
          · exact Or.inl rfl
          · exact Or.inr later

theorem without_sublist (tombstones : List Nat) (index : Nat) (list : List (K × V)) :
    (withoutTombstones tombstones index list).Sublist list := by
  induction list generalizing index with
  | nil => exact List.Sublist.refl _
  | cons first rest ih =>
      rw [withoutTombstones]
      split
      · exact (ih (index + 1)).cons first
      · exact (ih (index + 1)).cons_cons first

theorem mem_lives : (key, value) ∈ livesFrom leaf index ↔
    ∃ place, index ≤ place ∧ leaf.entries[place]? = some (key, value) ∧
    place ∉ leaf.tombstones := by
  rw [livesFrom, mem_without]
  constructor
  · rintro ⟨place, found, alive⟩
    rw [List.getElem?_drop] at found
    exact ⟨index + place, Nat.le_add_right _ _, found, alive⟩
  · rintro ⟨place, from_index, found, alive⟩
    refine ⟨place - index, ?_, by rwa [show index + (place - index) = place by omega]⟩
    rwa [List.getElem?_drop, show index + (place - index) = place by omega]

theorem mem_lives_zero : (key, value) ∈ livesFrom leaf 0 ↔ Live leaf key value := by
  rw [mem_lives]
  simp [Live]

theorem lives_dead (inside : index < leaf.getSize) (dead : index ∈ leaf.tombstones) :
    livesFrom leaf index = livesFrom leaf (index + 1) := by
  rw [livesFrom, List.drop_eq_getElem_cons inside, withoutTombstones, if_pos dead]
  rfl

theorem lives_alive (inside : index < leaf.getSize) (alive : index ∉ leaf.tombstones) :
    ∃ entry, leaf.entries[index]? = some entry ∧
      livesFrom leaf index = entry :: livesFrom leaf (index + 1) := by
  refine ⟨_, List.getElem?_eq_getElem inside, ?_⟩
  rw [livesFrom, List.drop_eq_getElem_cons inside, withoutTombstones, if_neg alive]
  rfl

theorem lives_end (past : leaf.getSize ≤ index) : livesFrom leaf index = [] := by
  rw [livesFrom, List.drop_eq_nil_of_le past]
  rfl

/-- The tombstones that are skipped have no part in what is to come. -/
theorem skip_spec {fuel : Nat} (enough : leaf.getSize - index ≤ fuel) :
    livesFrom leaf (Tree.skipTombstones leaf fuel index) = livesFrom leaf index ∧
      (Tree.skipTombstones leaf fuel index < leaf.getSize →
        Tree.skipTombstones leaf fuel index ∉ leaf.tombstones) := by
  induction fuel generalizing index with
  | zero =>
      refine ⟨rfl, fun inside => ?_⟩
      simp only [Tree.skipTombstones] at inside
      omega
  | succ fuel ih =>
      rw [Tree.skipTombstones]
      by_cases skipped : index < leaf.getSize ∧ leaf.isTombstone index = true
      · rw [if_pos skipped]
        have dead : index ∈ leaf.tombstones := by simpa [LeafPage.isTombstone] using skipped.2
        rw [lives_dead skipped.1 dead]
        exact ih (by omega)
      · rw [if_neg skipped]
        refine ⟨rfl, fun inside dead => skipped ⟨inside, ?_⟩⟩
        simpa [LeafPage.isTombstone] using dead

end Leaves

section Chains
variable {K V : Type} {tree : Tree K V} {pid : PageId} {rest : List PageId} {leaf : LeafPage K V}
  {index : Nat}

def contents (pages : PageId → Option (Page K V)) (list : List PageId) : List (K × V) :=
  list.flatMap fun pid =>
    match pages pid with
    | some (.inl leaf) => livesFrom leaf 0
    | _ => []

theorem contents_cons (found : tree.pages pid = some (.inl leaf)) :
    contents tree.pages (pid :: rest) = livesFrom leaf 0 ++ contents tree.pages rest := by
  rw [contents, List.flatMap_cons, found]
  rfl

inductive Remaining (tree : Tree K V) : Option (PageId × Nat) → List (K × V) → Prop where
  | stop : Remaining tree none []
  | entry {pid : PageId} {index : Nat} {rest : List PageId} {leaf : LeafPage K V} {entry : K × V} :
      Chain (links tree.pages) pid rest none →
        (∀ page ∈ pid :: rest, ∃ leaf, tree.pages page = some (.inl leaf)) →
      (pid :: rest).length ≤ tree.depthBound → tree.pages pid = some (.inl leaf) →
        leaf.entries[index]? = some entry →
          Remaining tree (some (pid, index))
          (entry :: (livesFrom leaf (index + 1) ++ contents tree.pages rest))

/-- The loop ends at the next live entry of the leaf or of those behind it. -/
theorem seek_remaining (chain : Chain (links tree.pages) pid rest none)
    (leaves : ∀ page ∈ pid :: rest, ∃ leaf, tree.pages page = some (.inl leaf))
    (few : (pid :: rest).length ≤ tree.depthBound) (found : tree.pages pid = some (.inl leaf))
    {fuel : Nat} (enough : (pid :: rest).length ≤ fuel) :
    ∃ iterator, tree.seek fuel pid index = .ok iterator ∧
      Remaining tree iterator (livesFrom leaf index ++ contents tree.pages rest) := by
  induction rest generalizing pid leaf index fuel with
  | nil =>
      obtain ⟨fuel, rfl⟩ : ∃ n, fuel = n + 1 := ⟨fuel - 1, by simp at enough; omega⟩
      obtain ⟨same, alive⟩ := @skip_spec K V leaf index leaf.getSize (by omega)
      have page : tree.leafPage pid = .ok leaf := by simp [Tree.leafPage, found]
      have link : leaf.nextPageId = none := by
        have : links tree.pages pid = none := chain
        simpa [links, found] using this
      by_cases more : Tree.skipTombstones leaf leaf.getSize index < leaf.getSize
      · obtain ⟨entry, here, list⟩ := lives_alive more (alive more)
        refine ⟨some (pid, Tree.skipTombstones leaf leaf.getSize index), ?_, ?_⟩
        · simp only [Tree.seek, page, bind, Except.bind, if_pos more]
        · rw [← same, list]
          exact Remaining.entry chain leaves few found here
      · refine ⟨none, ?_, ?_⟩
        · simp only [Tree.seek, page, bind, Except.bind, if_neg more, link]
        · rw [← same, lives_end (by omega)]
          exact Remaining.stop
  | cons next rest ih =>
      obtain ⟨fuel, rfl⟩ : ∃ n, fuel = n + 1 := ⟨fuel - 1, by simp at enough; omega⟩
      obtain ⟨same, alive⟩ := @skip_spec K V leaf index leaf.getSize (by omega)
      have page : tree.leafPage pid = .ok leaf := by simp [Tree.leafPage, found]
      have link : leaf.nextPageId = some next := by
        have : links tree.pages pid = some next := chain.1
        simpa [links, found] using this
      by_cases more : Tree.skipTombstones leaf leaf.getSize index < leaf.getSize
      · obtain ⟨entry, here, list⟩ := lives_alive more (alive more)
        refine ⟨some (pid, Tree.skipTombstones leaf leaf.getSize index), ?_, ?_⟩
        · simp only [Tree.seek, page, bind, Except.bind, if_pos more]
        · rw [← same, list]
          exact Remaining.entry chain leaves few found here
      · obtain ⟨nextLeaf, there⟩ := leaves next (by simp)
        simp only [List.length_cons] at few enough
        obtain ⟨iterator, done, remaining⟩ :=
          @ih next nextLeaf 0 chain.2 (fun page member =>
            leaves page (List.mem_cons_of_mem _ member))
          (by rw [List.length_cons]; omega) there fuel (by rw [List.length_cons]; omega)
        refine ⟨iterator, ?_, ?_⟩
        · simp only [Tree.seek, page, bind, Except.bind, if_neg more, link, done]
        · rw [← same, lives_end (by omega), contents_cons there]
          exact remaining

/-- A loop up to `End` sees what the iterator has still to yield. -/
theorem iterate_remaining {iterator : Option (PageId × Nat)} {list : List (K × V)}
    (remaining : Remaining tree iterator list)
    {fuel : Nat} (enough : list.length ≤ fuel) : tree.iterate fuel iterator = .ok list := by
  induction fuel generalizing iterator list with
  | zero =>
      cases remaining with
      | stop => rfl
      | entry => simp at enough
  | succ fuel ih =>
      cases remaining with
      | stop => rfl
      | @entry pid index rest leaf entry chain leaves few found here =>
          have page : tree.leafPage pid = .ok leaf := by simp [Tree.leafPage, found]
          obtain ⟨next, done, remaining⟩ :=
            @seek_remaining K V tree pid rest leaf (index + 1) chain leaves few found
              tree.depthBound few
          have later := ih remaining (by simpa using enough)
          simp only [Tree.iterate, Tree.current, page, bind, Except.bind, here,
            Tree.advance, done, later]

end Chains

section Trees
variable {K V : Type} [LinearOrder K] {rules : Rules} {exempt : Set PageId} {tree : Tree K V}
  {root : PageId} {height : Nat} {key : K} {value : V}

omit [LinearOrder K] in
theorem mem_contents {row : Row K PageId} :
    (key, value) ∈ contents tree.pages (row.map Prod.snd) ↔ HeldIn tree.pages row key value := by
  unfold contents HeldIn
  rw [List.mem_flatMap]
  constructor
  · rintro ⟨page, member, inside⟩
    obtain ⟨slot, inRow, rfl⟩ := List.mem_map.mp member
    cases found : tree.pages slot.2 with
    | none => simp [found] at inside
    | some content =>
        cases content with
        | inr node => simp [found] at inside
        | inl leaf =>
            simp only [found] at inside
            exact ⟨slot, inRow, leaf, found, mem_lives_zero.mp inside⟩
  · rintro ⟨slot, inRow, leaf, found, live⟩
    refine ⟨slot.2, List.mem_map_of_mem inRow, ?_⟩
    simp only [found]
    exact mem_lives_zero.mpr live

omit [LinearOrder K] in
theorem contents_sublist (row : Row K PageId) :
    ((contents tree.pages (row.map Prod.snd)).map Prod.fst).Sublist
    (row.flatMap fun slot => keysOf tree.pages slot.2) := by
  induction row with
  | nil => exact List.Sublist.refl _
  | cons slot row ih =>
      rw [List.flatMap_cons, List.map_cons, contents, List.flatMap_cons, List.map_append]
      apply List.Sublist.append _ ih
      unfold keysOf
      cases tree.pages slot.2 with
      | none => exact List.Sublist.refl _
      | some content =>
          cases content with
          | inr node => exact List.Sublist.refl _
          | inl leaf => exact (without_sublist leaf.tombstones 0 leaf.entries).map Prod.fst

omit [LinearOrder K] in
theorem descend_first {fence : WithBot K} {pid : PageId} {path : List PageId}
    (forest : TreeForest rules exempt tree.pages height [(fence, pid)]) {fuel : Nat}
    (enough : height < fuel) :
    ∃ path' low leaf rest, tree.descend (fun page => page.valueAt 0) fuel pid path =
      .ok (path', low, leaf) ∧ tree.pages low = some (.inl leaf) ∧
        fringe InternalPage.entries tree.pages height [(fence, pid)] =
        (fence, low) :: rest := by
  induction height generalizing pid path fuel with
  | zero =>
      obtain ⟨fuel, rfl⟩ : ∃ n, fuel = n + 1 := ⟨fuel - 1, by omega⟩
      obtain ⟨leaf, found, _⟩ := forest _ List.mem_cons_self
      simp only at found
      exact ⟨path, pid, leaf, [], by simp [Tree.descend, found], found, rfl⟩
  | succ height ih =>
      obtain ⟨fuel, rfl⟩ : ∃ n, fuel = n + 1 := ⟨fuel - 1, by omega⟩
      obtain ⟨node, found, more, _⟩ := forest.1 _ List.mem_cons_self
      simp only at found
      obtain ⟨entry, others, list⟩ := List.exists_cons_of_ne_nil more
      have below : expand InternalPage.entries tree.pages [(fence, pid)] = (fence, entry.2) ::
          raise others := by
        rw [expand_cons, kids_node found, list]
        simp [refence]
      have lower := forest.2
      rw [below, forest_cons] at lower
      obtain ⟨path', low, leaf, rest, done, there, first⟩ :=
        @ih entry.2 (pid :: path) lower.1 fuel (by omega)
      refine ⟨path', low, leaf,
        rest ++ fringe InternalPage.entries tree.pages height (raise others), ?_, there, ?_⟩
      · have goes : node.valueAt 0 = some entry.2 := by simp [InternalPage.valueAt, list]
        rw [Tree.descend, found]
        simp only [goes]
        exact done
      · rw [fringe, below, fringe_cons, first, List.cons_append]

/-- The leaves of a tree as a chain that an iterator can follow, cut at one of them. -/
theorem chain_from (fresh : Fresh tree) (standing : Standing rules exempt tree root height)
    {before after : Row K PageId} {fence : WithBot K} {pid : PageId}
    (row : leavesOf tree.pages root height = before ++ (fence, pid) :: after) :
    Chain (links tree.pages) pid (after.map Prod.snd) none ∧
      (∀ page ∈ pid :: after.map Prod.snd, ∃ leaf, tree.pages page = some (.inl leaf)) ∧
      (pid :: after.map Prod.snd).length ≤ tree.depthBound := by
  have lowest : TreeForest rules exempt tree.pages 0 (leavesOf tree.pages root height) := by
    apply forest_fringe
    rw [Nat.zero_add]
    exact standing.forest
  have unique := standing.unique
  have chained := standing.chained
  rw [row] at lowest unique chained
  rw [List.map_append, List.map_cons] at unique chained
  have leaves : ∀ page ∈ pid :: after.map Prod.snd, ∃ leaf, tree.pages page = some (.inl leaf) := by
    intro page member
    rw [← List.map_cons (f := Prod.snd) (a := (fence, pid))] at member
    obtain ⟨slot, inside, rfl⟩ := List.mem_map.mp member
    obtain ⟨leaf, found, _⟩ := lowest slot (List.mem_append_right _ inside)
    exact ⟨leaf, found⟩
  refine ⟨?_, leaves, ?_⟩
  · cases before with
    | nil => exact chained
    | cons first before =>
        have split :=
          (chain_append.mp
            (show Chain (links tree.pages) first.2
              ((before.map Prod.snd ++ [pid]) ++ after.map Prod.snd) none
              by rw [List.append_assoc]; exact chained)).2
        simpa using split
  · apply pages_bound fresh (List.Nodup.sublist (List.sublist_append_right _ _) unique)
    intro page member
    obtain ⟨leaf, found⟩ := leaves page member
    rw [found]
    simp

theorem begin_enumerates (fresh : Fresh tree) (standing : Standing rules exempt tree root height) :
    ∃ list, (∀ fuel ≥ list.length, (do tree.iterate fuel (← tree.begin)) = .ok list) ∧
      (list.map Prod.fst).Pairwise (· < ·) ∧ ∀ key value, (key, value) ∈ list ↔
      Holds tree key value := by
  obtain ⟨path, low, leaf, rest, down, found, row⟩ :=
    @descend_first K V rules exempt tree height ⊥ root [] standing.forest tree.depthBound
      (height_bound fresh standing.forest)
  change leavesOf tree.pages root height = (⊥, low) :: rest at row
  obtain ⟨chain, leaves, few⟩ :=
    @chain_from K V _ rules exempt tree root height fresh standing [] rest ⊥ low row
  obtain ⟨iterator, done, remaining⟩ :=
    @seek_remaining K V tree low (rest.map Prod.snd) leaf 0 chain leaves few found
      tree.depthBound few
  rw [← contents_cons found] at remaining
  have whole : low :: rest.map Prod.snd = (leavesOf tree.pages root height).map Prod.snd := by
    rw [row]
    rfl
  rw [whole] at remaining
  refine ⟨contents tree.pages ((leavesOf tree.pages root height).map Prod.snd),
      fun fuel enough => ?_, ?_, fun key value => ?_⟩
  · have begins : tree.begin = .ok iterator := by
      simp only [Tree.begin, standing.top, down, bind, Except.bind, done]
    simp only [begins, bind, Except.bind]
    exact iterate_remaining remaining enough
  · exact List.Pairwise.sublist (contents_sublist _) (ordered_keys standing.ordered)
  · rw [mem_contents, holds_iff standing]

theorem begin_at_enumerates (fresh : Fresh tree) (standing : Standing rules exempt tree root height)
    (start : K) :
    ∃ list, (∀ fuel ≥ list.length, (do tree.iterate fuel (← tree.beginAt start)) = .ok list) ∧
      (list.map Prod.fst).Pairwise (· < ·) ∧ ∀ key value, (key, value) ∈ list ↔
        Holds tree key value ∧ start ≤ key := by
  obtain ⟨path, before, fence, pid, after, leaf, down, place⟩ := descend_to_leaf fresh standing
    (show Searches (fun page : InternalPage K => page.childFor start)
      start from fun _ more rising =>
      child_for_cut more rising)
  have row := leaf_row place
  obtain ⟨sorted, _⟩ := leaf_range standing place
  obtain ⟨front, back, whole, lower, low, high⟩ := @lower_bound_cut K V _ leaf start sorted
  obtain ⟨chain, leaves, few⟩ := chain_from fresh standing row
  obtain ⟨iterator, done, remaining⟩ :=
    @seek_remaining K V tree pid
      (after.map Prod.snd) leaf front.length chain leaves few place.found tree.depthBound few
  have ordered := standing.ordered
  rw [row] at ordered
  obtain ⟨_, behind, across⟩ := ordered_append.mp ordered
  refine ⟨livesFrom leaf front.length ++ contents tree.pages (after.map Prod.snd),
      fun fuel enough => ?_, ?_, fun key value => ?_⟩
  · have begins : tree.beginAt start = .ok iterator := by
      simp only [Tree.beginAt, standing.top, down, bind, Except.bind, lower, done]
    simp only [begins, bind, Except.bind]
    exact iterate_remaining remaining enough
  · rw [List.map_append]
    apply List.Pairwise.sublist _ (ordered_keys behind)
    rw [List.flatMap_cons, keys_leaf place.found]
    apply List.Sublist.append _ (contents_sublist after)
    exact ((without_sublist _ _ _).trans (List.drop_sublist _ _)).map Prod.fst
  · -- the leaves in front have smaller keys, those behind have greater ones
    have beforeLow : HeldIn tree.pages before key value → key < start := by
      rintro ⟨slot, member, page, found, live⟩
      have inside : key ∈ keysOf tree.pages slot.2 := by
        rw [keys_leaf found]
        exact live_key live
      have below := (across slot member (fence, pid) List.mem_cons_self).2 key inside
      exact WithBot.coe_lt_coe.mp (lt_of_lt_of_le below place.near.1)
    have afterHigh : HeldIn tree.pages after key value → start < key := by
      rintro ⟨slot, member, page, found, live⟩
      have inside : key ∈ keysOf tree.pages slot.2 := by
        rw [keys_leaf found]
        exact live_key live
      have above := (behind.2 slot (List.mem_cons_of_mem _ member)).2 key inside
      exact WithBot.coe_lt_coe.mp (lt_of_lt_of_le (place.near.2 slot member) above)
    have inLeaf : (key, value) ∈ livesFrom leaf front.length ↔ Live leaf key value ∧
        start ≤ key := by
      rw [mem_lives]
      constructor
      · rintro ⟨index, upTo, found, alive⟩
        refine ⟨⟨index, found, alive⟩, ?_⟩
        rw [whole, List.getElem?_append_right upTo] at found
        exact high _ (List.mem_of_getElem? found)
      · rintro ⟨⟨index, found, alive⟩, above⟩
        refine ⟨index, ?_, found, alive⟩
        by_contra early
        rw [whole, List.getElem?_append_left (by omega)] at found
        exact absurd (low _ (List.mem_of_getElem? found)) (not_lt.mpr above)
    rw [List.mem_append, mem_contents, inLeaf, leaf_holds standing place, held_append]
    constructor
    · rintro (⟨live, above⟩ | held)
      · exact ⟨Or.inl live, above⟩
      · exact ⟨Or.inr (Or.inr held), (afterHigh held).le⟩
    · rintro ⟨live | inBefore | inAfter, above⟩
      · exact Or.inl ⟨live, above⟩
      · exact absurd (beforeLow inBefore) (not_lt.mpr above)
      · exact Or.inr inAfter

/-- Iteration sees the live entries of a tree, each once and in order: all of them from
`Begin()`, those whose keys are not below a key from `Begin(key)`. It ends after as many
rounds as there are entries. -/
theorem iteration_enumerates (tree : Tree K V) (wellFormed : WellFormed rules tree) :
    (∃ list, (∀ fuel ≥ list.length, (do tree.iterate fuel (← tree.begin)) = .ok list) ∧
      (list.map Prod.fst).Pairwise (· < ·) ∧ ∀ key value, (key, value) ∈ list ↔
      Holds tree key value) ∧
    ∀ start, ∃ list, (∀ fuel ≥ list.length,
      (do tree.iterate fuel (← tree.beginAt start)) = .ok list) ∧
        (list.map Prod.fst).Pairwise (· < ·) ∧ ∀ key value, (key, value) ∈ list ↔
        Holds tree key value ∧ start ≤ key := by
  obtain ⟨fresh, bare | ⟨root, height, standing⟩⟩ := wellFormed
  · have nothing : ∀ key value, ¬Holds tree key value :=
      fun key value holds => nothing_stored bare (holds_stored holds)
    constructor
    · refine ⟨[], fun fuel _ => ?_, List.Pairwise.nil, fun key value => ?_⟩
      · simp [Tree.begin, bare, Tree.iterate, bind, Except.bind]
      · simp [nothing]
    · intro start
      refine ⟨[], fun fuel _ => ?_, List.Pairwise.nil, fun key value => ?_⟩
      · simp [Tree.beginAt, bare, Tree.iterate, bind, Except.bind]
      · simp [nothing]
  · exact ⟨begin_enumerates fresh standing, begin_at_enumerates fresh standing⟩

theorem iteration_skips_tombstone : ∃ (tree : Tree Nat Nat) (list : List (Nat × Nat)),
    tree.pages 0 = some (.inl ⟨3, none, [(1, 10), (5, 50)], [0]⟩) ∧
      (∀ fuel ≥ list.length, (do tree.iterate fuel (← tree.begin)) = .ok list) ∧
      (5, 50) ∈ list := by
  obtain ⟨tree, isTree⟩ : ∃ tree : Tree Nat Nat, tree =
      ⟨some 0, fun pid => if pid = 0 then some (.inl ⟨3, none, [(1, 10), (5, 50)], [0]⟩) else none,
        1⟩ := ⟨_, rfl⟩
  have here : tree.pages 0 = some (.inl ⟨3, none, [(1, 10), (5, 50)], [0]⟩) := by
    rw [isTree]
    rfl
  have fresh : Fresh tree := by
    rw [isTree]
    refine ⟨by decide, fun pid taken => ?_⟩
    by_cases first : pid = 0
    · subst first
      decide
    · simp [first] at taken
  have stands : Standing (fullRules ⟨3, 3, 8, 1⟩) {0} tree 0 0 :=
    single_leaf (by rw [isTree]) here rfl (by decide)
      ⟨by decide, fun _ => ⟨by simp, by simp [LeafPage.getSize]⟩⟩
      (by simp) rfl
  have held : Holds tree 5 50 := by
    rw [holds_iff stands, leavesOf, fringe, held_leaf here]
    exact Or.inl ⟨1, rfl, by simp⟩
  obtain ⟨⟨list, done, _, holds⟩, _⟩ := iteration_enumerates tree ⟨fresh, Or.inr ⟨0, 0, stands⟩⟩
  exact ⟨tree, list, here, done, (holds 5 50).mpr held⟩

end Trees

end BusTub.BPlusTree
