import BusTub.TreeRuns
import BusTub.PageAccesses

/-!
The pages of a B+ tree and the pages that exist. `Insert` takes pages from the buffer pool
and `Remove` gives them back; here it is shown that a page exists as long as it is under
the root, and that the links of the leaves lead through the leaves that exist and no others.
-/

namespace BusTub.BPlusTree

open SearchForest

section Below
variable {K V : Type} {tree after : Tree K V} {pages other : PageId → Option (Page K V)}
  {root child pid : PageId} {path : List PageId} {before rest : Row K PageId} {fence : WithBot K}

inductive Below (pages : PageId → Option (Page K V)) (top : PageId) : PageId → Prop where
  | here : Below pages top top
  | child {pid : PageId} {page : InternalPage K} {entry : K × PageId} :
      Below pages top pid → pages pid = some (.inr page) → entry ∈ page.entries →
        Below pages top entry.2

theorem reached_below (top : tree.rootPageId = some root) : Reached tree pid ↔
    Below tree.pages root pid := by
  constructor
  · intro reached
    induction reached with
    | root here =>
        obtain rfl := Option.some.inj (top.symm.trans here)
        exact Below.here
    | child _ found inside ih => exact Below.child ih found inside
  · intro below
    induction below with
    | here => exact Reached.root top
    | child _ found inside ih => exact Reached.child ih found inside

theorem below_trans {first second : PageId} (upper : Below pages first second)
    (lower : Below pages second pid) :
    Below pages first pid := by
  induction lower with
  | here => exact upper
  | child _ found inside ih => exact Below.child ih found inside

theorem below_reached {first : PageId} (upper : Reached tree first)
    (lower : Below tree.pages first pid) :
    Reached tree pid := by
  induction lower with
  | here => exact upper
  | child _ found inside ih => exact Reached.child ih found inside

def Extends (pages other : PageId → Option (Page K V)) : Prop :=
  ∀ pid page, pages pid = some (.inr page) → ∃ larger, other pid = some (.inr larger) ∧
    ∀ entry ∈ page.entries, entry.2 ∈ larger.entries.map Prod.snd

theorem below_extends (wider : Extends pages other) (below : Below pages root pid) :
    Below other root pid := by
  induction below with
  | here => exact Below.here
  | @child pid page entry _ found inside ih =>
      obtain ⟨larger, there, children⟩ := wider pid page found
      obtain ⟨twin, inLarger, same⟩ := List.mem_map.mp (children entry inside)
      rw [← same]
      exact Below.child ih there inLarger

def Upward (pages : PageId → Option (Page K V)) (root : PageId) : PageId → List PageId → Prop
  | child, [] => child = root
  | child, parent :: upper =>
      (∃ page, pages parent = some (.inr page) ∧ child ∈ page.entries.map Prod.snd) ∧
        Upward pages root parent upper

theorem upward_below (upward : Upward pages root child path) : Below pages root child := by
  induction path generalizing child with
  | nil =>
      obtain rfl : child = root := upward
      exact Below.here
  | cons parent upper ih =>
      obtain ⟨⟨page, found, inside⟩, higher⟩ := upward
      obtain ⟨entry, member, rfl⟩ := List.mem_map.mp inside
      exact Below.child (ih higher) found member

theorem upward_congr (same : ∀ page ∈ path, other page = pages page)
    (upward : Upward pages root child path) :
    Upward other root child path := by
  induction path generalizing child with
  | nil => exact upward
  | cons parent upper ih =>
      obtain ⟨⟨page, found, inside⟩, higher⟩ := upward
      exact ⟨⟨page, (same parent List.mem_cons_self).trans found, inside⟩,
        ih (fun page member => same page (List.mem_cons_of_mem _ member)) higher⟩

theorem upward_there (upward : Upward pages root child path) :
    ∀ page ∈ path, pages page ≠ none := by
  induction path generalizing child with
  | nil => exact fun page member => nomatch member
  | cons parent upper ih =>
      obtain ⟨⟨node, found, _⟩, higher⟩ := upward
      intro page member
      rcases List.mem_cons.mp member with rfl | above
      · simp [found]
      · exact ih higher page above

theorem descent_upward
    (way : Descent InternalPage.entries pages root path before fence child rest) :
    Upward pages root child path := by
  induction way with
  | here => rfl
  | down _ found list ih => exact ⟨⟨_, found, by simp [list]⟩, ih⟩

theorem descent_nodup {rules : Rules} {exempt : Set PageId} {height : Nat}
    (way : Descent InternalPage.entries pages root path before fence child rest)
    (ground : TreeForest rules exempt pages (height + path.length) [((⊥ : WithBot K), root)]) :
    path.Nodup := by
  induction way generalizing height with
  | here => exact List.nodup_nil
  | @down path before fence rest page child node left right key way found list ih =>
      rw [List.length_cons, show height + (path.length + 1) = height + 1 + path.length by omega]
        at ground
      refine List.nodup_cons.mpr ⟨fun again => ?_, ih ground⟩
      obtain ⟨above, low, higher, there⟩ := descent_levels way ground page again
      have row := descent_row way ▸ forest_fringe ground
      have := height_unique there (forest_mem row (show (rest, page) ∈ _ by simp))
      omega

end Below

section Insertion
variable {K V : Type} {tree after grown : Tree K V} {pages other : PageId → Option (Page K V)}
  {root child newPid pid : PageId} {path : List PageId} {options : Options} {rules : Rules}
  {page : InternalPage K} {key : K} {value : V} {leaf : LeafPage K V} {added : Bool}

structure Adds (tree after : Tree K V) : Prop where
  there : ∀ pid, tree.pages pid ≠ none → after.pages pid ≠ none
  newer : ∀ pid, after.pages pid ≠ none → tree.pages pid ≠ none ∨ Reached after pid

def Grows (tree after : Tree K V) : Prop := Adds tree after ∧ ∀ pid, Reached tree pid →
    Reached after pid

structure Links (tree after : Tree K V) (newPid : PageId) : Prop extends Adds tree after where
  root : ∀ pid, Reached tree pid → Reached after pid
  hung : ∀ pid, Below tree.pages newPid pid → Reached after pid

theorem put_internal_sets (done : tree.putInternal options pid page = .ok after) :
    after = tree.setPage pid (.inr page) := by
  rw [Tree.putInternal] at done
  split at done
  · exact (Except.ok.inj done).symm
  · cases done

theorem put_leaf_sets (done : tree.putLeaf options pid leaf = .ok after) :
    after = tree.setPage pid (.inl leaf) := by
  rw [Tree.putLeaf] at done
  split at done
  · exact (Except.ok.inj done).symm
  · cases done

theorem missing_extends {page : Page K V} (missing : tree.pages pid = none) :
    Extends tree.pages (tree.setPage pid page).pages := by
  intro other node found
  have apart : other ≠ pid := by
    rintro rfl
    cases missing.symm.trans found
  exact ⟨node,
    by rwa [Tree.set_pages,
    Function.update_of_ne apart], fun entry member => List.mem_map_of_mem member⟩

/-- The pages of two halves are those of the whole, and one of the halves is a new page. -/
theorem below_split {page left right : InternalPage K} {parent fresh top : PageId}
    (found : pages parent = some (.inr page)) (missing : pages fresh = none)
    (atLeft : other parent = some (.inr left)) (atRight : other fresh = some (.inr right))
    (elsewhere : ∀ pid, pid ≠ parent → pid ≠ fresh → other pid = pages pid)
    (halves : ∀ entry ∈ page.entries, entry.2 ∈ left.entries.map Prod.snd ∨
      entry.2 ∈ right.entries.map Prod.snd)
    (below : Below pages top pid) : Below other top pid ∨ Below other fresh pid := by
  induction below with
  | here => exact Or.inl Below.here
  | @child pid node entry _ there inside ih =>
      by_cases atParent : pid = parent
      · subst atParent
        obtain rfl := Sum.inr.inj (Option.some.inj (found.symm.trans there))
        rcases halves entry inside with inLeft | inRight
        · obtain ⟨twin, member, same⟩ := List.mem_map.mp inLeft
          rw [← same]
          exact ih.imp (fun upper => Below.child upper atLeft member) fun upper =>
            Below.child upper atLeft member
        · obtain ⟨twin, member, same⟩ := List.mem_map.mp inRight
          rw [← same]
          exact Or.inr (Below.child Below.here atRight member)
      · have apart : pid ≠ fresh := by
          rintro rfl
          cases missing.symm.trans there
        have same := (elsewhere pid atParent apart).trans there
        exact ih.imp (fun upper => Below.child upper same inside) fun upper =>
          Below.child upper same inside

/-- All entries of a page and a new one are in the page that is to be stored. -/
theorem inserted_entries [LinearOrder K] (key : K) (more : page.entries ≠ []) {entry : K × PageId} :
    entry ∈ (page.insertAt (page.upperBound key) key newPid).entries ↔
      entry = (key, newPid) ∨ entry ∈ page.entries := by
  have size : 1 ≤ page.getSize := List.length_pos_iff.mpr more
  have within : page.upperBound key ≤ page.entries.length := by
    apply PageAccesses.bisect_within.trans
    change max 1 page.getSize ≤ page.getSize
    omega
  exact List.mem_insertIdx within

theorem split_entries [Inhabited K] {page newNode : InternalPage K} {entry : K × PageId}
    (member : entry ∈ page.entries) :
    entry.2 ∈ (page.split newNode).1.entries.map Prod.snd ∨
      entry.2 ∈ (page.split newNode).2.2.entries.map Prod.snd := by
  have whole : entry ∈ page.entries.take (page.getSize / 2) ++
    page.entries.drop (page.getSize / 2) := by
    rwa [List.take_append_drop]
  rcases List.mem_append.mp whole with front | back
  · exact Or.inl (List.mem_map_of_mem front)
  · right
    have same : (page.split newNode).2.2.entries.map Prod.snd =
        (page.entries.drop (page.getSize / 2)).map Prod.snd := by
      simp only [InternalPage.split]
      cases page.entries.drop (page.getSize / 2) <;> rfl
    rw [same]
    exact List.mem_map_of_mem back

theorem root_links (top : tree.rootPageId = some root) (missing : tree.pages tree.nextPageId = none)
    (old : root ∈ page.entries.map Prod.snd) (new : newPid ∈ page.entries.map Prod.snd) :
    Links tree { tree.newPage.2.setPage tree.nextPageId (.inr page) with
      rootPageId := some tree.nextPageId }
      newPid := by
  obtain ⟨larger, isLarger⟩ : ∃ larger : Tree K V, larger =
      { tree.newPage.2.setPage tree.nextPageId (.inr page) with
        rootPageId := some tree.nextPageId } := ⟨_, rfl⟩
  rw [← isLarger]
  have pages : larger.pages = (tree.setPage tree.nextPageId (.inr page)).pages := by
    rw [isLarger]; rfl
  have wider : Extends tree.pages larger.pages := pages ▸ missing_extends missing
  have atRoot : larger.pages tree.nextPageId = some (.inr page) := by
    rw [pages, Tree.set_pages, Function.update_self]
  have highest : Reached larger tree.nextPageId := Reached.root (by rw [isLarger])
  have under {child : PageId} (inside : child ∈ page.entries.map Prod.snd) : Reached
    larger child := by
    obtain ⟨entry, member, rfl⟩ := List.mem_map.mp inside
    exact Reached.child highest atRoot member
  refine ⟨⟨fun pid there => ?_, fun pid there => ?_⟩, fun pid reached => ?_, fun pid below => ?_⟩
  · by_cases new : pid = tree.nextPageId
    · exact absurd (new ▸ missing) there
    · rwa [pages, Tree.set_pages, Function.update_of_ne new]
  · by_cases new : pid = tree.nextPageId
    · exact Or.inr (new ▸ highest)
    · rw [pages, Tree.set_pages, Function.update_of_ne new] at there
      exact Or.inl there
  · exact below_reached (under old) (below_extends wider ((reached_below top).mp reached))
  · exact below_reached (under new) (below_extends wider below)

theorem parent_takes_links {parent : PageId} {page bigger : InternalPage K}
    (top : tree.rootPageId = some root) (found : tree.pages parent = some (.inr page))
    (under : Below tree.pages root parent) (old : ∀ entry ∈ page.entries, entry ∈ bigger.entries)
    (new : newPid ∈ bigger.entries.map Prod.snd) :
    Links tree (tree.setPage parent (.inr bigger)) newPid := by
  have wider : Extends tree.pages (tree.setPage parent (.inr bigger)).pages := by
    intro pid node there
    by_cases same : pid = parent
    · subst same
      obtain rfl := Sum.inr.inj (Option.some.inj (found.symm.trans there))
      exact ⟨bigger, Function.update_self _ _ _, fun entry member =>
        List.mem_map_of_mem (old entry member)⟩
    · exact ⟨node, by rwa [Tree.set_pages, Function.update_of_ne same], fun entry member =>
        List.mem_map_of_mem member⟩
  have topThen : (tree.setPage parent (.inr bigger)).rootPageId = some root := top
  have newPage : Reached (tree.setPage parent (.inr bigger)) newPid := by
    obtain ⟨entry, member, rfl⟩ := List.mem_map.mp new
    exact Reached.child ((reached_below topThen).mpr (below_extends wider under))
      (Function.update_self _ _ _) member
  refine ⟨⟨fun pid there => fun missing => there (set_missing missing), fun pid there => ?_⟩,
      fun pid reached => ?_, fun pid below => ?_⟩
  · by_cases same : pid = parent
    · exact Or.inl (by simp [same, found])
    · rw [Tree.set_pages, Function.update_of_ne same] at there
      exact Or.inl there
  · exact (reached_below topThen).mpr (below_extends wider ((reached_below top).mp reached))
  · exact below_reached newPage (below_extends wider below)

/-- The page above is split, and then its new half is entered. -/
theorem parent_splits_links {both : Tree K V} {parent fresh : PageId}
    {page left right : InternalPage K} (top : tree.rootPageId = some root)
    (topThen : both.rootPageId = some root) (found : tree.pages parent = some (.inr page))
    (missing : tree.pages fresh = none)
    (pages : ∀ pid, both.pages pid = if pid = fresh then some (.inr right) else if pid =
      parent then some (.inr left)
      else tree.pages pid)
    (halves : ∀ entry ∈ page.entries, entry.2 ∈ left.entries.map Prod.snd ∨
      entry.2 ∈ right.entries.map Prod.snd)
    (new : newPid ∈ left.entries.map Prod.snd ∨ newPid ∈ right.entries.map Prod.snd)
    (under : Below both.pages root parent) (links : Links both grown fresh) :
    Links tree grown newPid := by
  have notFresh : parent ≠ fresh := by
    rintro rfl
    cases missing.symm.trans found
  have atRight : both.pages fresh = some (.inr right) := by rw [pages, if_pos rfl]
  have atLeft : both.pages parent = some (.inr left) := by rw [pages, if_neg notFresh, if_pos rfl]
  have elsewhere (pid : PageId) (notParent : pid ≠ parent) (notNew : pid ≠ fresh) :
      both.pages pid = tree.pages pid := by
    rw [pages, if_neg notNew, if_neg notParent]
  have moves {start pid : PageId} (below : Below tree.pages start pid) :
      Below both.pages start pid ∨ Below both.pages fresh pid :=
    below_split found missing atLeft atRight elsewhere halves below
  have settles {pid : PageId} (below : Below both.pages root pid) : Reached grown pid :=
    links.root pid ((reached_below topThen).mpr below)
  refine ⟨⟨fun pid there => links.there pid ?_, fun pid there => ?_⟩, fun pid reached => ?_,
    fun pid below => ?_⟩
  · rw [pages]
    split
    · exact Option.some_ne_none _
    · split
      · exact Option.some_ne_none _
      · exact there
  · rcases links.newer pid there with old | new
    · by_cases next : pid = fresh
      · exact Or.inr (next ▸ links.hung _ Below.here)
      · by_cases same : pid = parent
        · exact Or.inl (by simp [same, found])
        · rw [elsewhere pid same next] at old
          exact Or.inl old
    · exact Or.inr new
  · rcases moves ((reached_below top).mp reached) with stays | goes
    · exact settles stays
    · exact links.hung pid goes
  · rcases moves below with stays | goes
    · rcases new with inLeft | inRight
      · obtain ⟨twin, member, rfl⟩ := List.mem_map.mp inLeft
        exact settles (below_trans (Below.child under atLeft member) stays)
      · obtain ⟨twin, member, rfl⟩ := List.mem_map.mp inRight
        exact links.hung pid (below_trans (Below.child Below.here atRight member) stays)
    · exact links.hung pid goes

/-- A tree with one page more that had not been handed out is as fresh. -/
theorem fresh_more (fresh : Fresh tree) (next : after.nextPageId = tree.nextPageId + 1)
    (old : ∀ pid, after.pages pid ≠ none → pid = tree.nextPageId ∨ tree.pages pid ≠ none) :
    Fresh after := by
  have start := fresh.start
  constructor
  · rw [next]
    lia
  · intro pid there
    rw [next]
    rcases old pid there with rfl | earlier
    · lia
    · obtain ⟨low, high⟩ := fresh.taken pid earlier
      lia

variable [LinearOrder K] [Inhabited K]

/-- The new page goes under the root, whatever splits on the way up. -/
theorem parent_links {upKey : K} (top : tree.rootPageId = some root) (fresh : Fresh tree)
    (upward : Upward tree.pages root child path) (distinct : path.Nodup)
    (done : tree.insertIntoParent options child upKey newPid path = .ok grown) :
    Links tree grown newPid := by
  induction path generalizing tree child newPid upKey with
  | nil =>
      obtain rfl : child = root := upward
      simp only [Tree.insertIntoParent, bind, Except.bind] at done
      split at done
      · cases done
      rename_i stored put
      obtain rfl := put_internal_sets put
      cases done
      exact root_links top (next_missing fresh) (by simp) (by simp)
  | cons parent upper ih =>
      obtain ⟨⟨page, found, inside⟩, higher⟩ := upward
      obtain ⟨notAgain, distinct⟩ := List.nodup_cons.mp distinct
      have more : page.entries ≠ [] := by
        rintro none
        simp [none] at inside
      obtain ⟨bigger, isBigger⟩ : ∃ bigger, bigger =
        page.insertAt (page.upperBound upKey) upKey newPid := ⟨_, rfl⟩
      have entries {entry : K × PageId} :
          entry ∈ bigger.entries ↔ entry = (upKey, newPid) ∨ entry ∈ page.entries := by
        rw [isBigger]
        exact inserted_entries upKey more
      have reads : tree.internalPage parent = .ok page := by simp only [Tree.internalPage, found]
      have missing := next_missing fresh
      have notNext : parent ≠ tree.nextPageId := by
        rintro rfl
        cases missing.symm.trans found
      simp only [Tree.insertIntoParent, reads, ← isBigger, bind, Except.bind] at done
      split at done
      · cases done
      rename_i stored put
      obtain rfl := put_internal_sets put
      split at done
      · cases done
        exact parent_takes_links top found (upward_below higher) (fun entry member =>
            entries.mpr (Or.inr member))
          (List.mem_map_of_mem (entries.mpr (Or.inl rfl)))
      · split at done
        · cases done
        rename_i first putLeft
        obtain rfl := put_internal_sets putLeft
        split at done
        · cases done
        rename_i both putRight
        have isBoth := put_internal_sets putRight
        have halved :=
          fun entry => @split_entries K _ bigger { maxSize := options.internalMaxSize } entry
        generalize bigger.split _ = halves at isBoth done halved
        have pages (pid : PageId) : both.pages pid = if pid =
            tree.nextPageId then some (.inr halves.2.2)
            else if pid = parent then some (.inr halves.1) else tree.pages pid := by
          rw [isBoth]
          by_cases new : pid = tree.nextPageId
          · simp [new, Tree.setPage, Tree.newPage]
          · by_cases same : pid = parent
            · simp [same, notNext, Tree.setPage, Tree.newPage]
            · simp [new, same, Tree.setPage, Tree.newPage]
        have topThen : both.rootPageId = some root := by
          rw [isBoth]
          exact top
        have freshThen : Fresh both := by
          apply fresh_more fresh (by rw [isBoth]; rfl)
          intro pid there
          rw [pages] at there
          by_cases new : pid = tree.nextPageId
          · exact Or.inl new
          · by_cases same : pid = parent
            · exact Or.inr (by simp [same, found])
            · rw [if_neg new, if_neg same] at there
              exact Or.inr there
        have upward : Upward both.pages root parent upper := by
          apply upward_congr _ higher
          intro node member
          have notNew : node ≠ tree.nextPageId :=
            fun same => upward_there higher node member (same ▸ missing)
          have notParent : node ≠ parent := fun same => notAgain (same ▸ member)
          rw [pages, if_neg notNew, if_neg notParent]
        exact parent_splits_links top topThen found missing pages
          (fun entry member => halved entry (entries.mpr (Or.inr member)))
          (halved (upKey, newPid) (entries.mpr (Or.inl rfl))) (upward_below upward)
          (ih topThen freshThen upward distinct done)

omit [LinearOrder K] [Inhabited K] in
theorem adds_refl : Adds tree tree := ⟨fun _ there => there, fun _ there => Or.inl there⟩

omit [LinearOrder K] [Inhabited K] in
theorem set_adds {leaf new : LeafPage K V} (found : tree.pages pid = some (.inl leaf)) :
    Grows tree (tree.setPage pid (.inl new)) := by
  refine ⟨⟨fun other there => fun missing => there (set_missing missing), fun other there => ?_⟩,
    fun other => reached_set found⟩
  by_cases same : other = pid
  · exact Or.inl (by simp [same, found])
  · rw [Tree.set_pages, Function.update_of_ne same] at there
    exact Or.inl there

theorem split_adds {key upKey : K} {height : Nat} {before rest : Row K PageId} {fence : WithBot K}
    {leaf bigger left right : LeafPage K V} (fresh : Fresh tree)
    (standing : Standing rules {root} tree root height)
    (place : LeafFor rules {root} tree root height key path before fence pid rest leaf)
    (done : (((tree.setPage pid (.inl bigger)).newPage.2.setPage tree.nextPageId
      (.inl right)).setPage pid (.inl left)).insertIntoParent options pid upKey
        tree.nextPageId path = .ok grown) :
    Grows tree grown := by
  obtain ⟨split, isSplit⟩ : ∃ split, split =
    (((tree.setPage pid (.inl bigger)).newPage.2.setPage tree.nextPageId
      (.inl right)).setPage pid (.inl left)) := ⟨_, rfl⟩
  rw [← isSplit] at done
  have missing := next_missing fresh
  have notNext : pid ≠ tree.nextPageId := by
    rintro same
    cases place.found.symm.trans (same ▸ missing)
  have pages (other : PageId) : split.pages other = if other = pid then some (.inl left)
    else if other = tree.nextPageId then some (.inl right) else tree.pages other := by
    rw [isSplit]
    by_cases same : other = pid
    · simp [same, Tree.setPage]
    · by_cases new : other = tree.nextPageId
      · simp [new, notNext.symm, Tree.setPage, Tree.newPage]
      · simp [same, new, Tree.setPage, Tree.newPage]
  have top : split.rootPageId = some root := by
    rw [isSplit]
    exact standing.top
  have freshThen : Fresh split := by
    apply fresh_more fresh (by rw [isSplit]; rfl)
    intro other there
    rw [pages] at there
    by_cases new : other = tree.nextPageId
    · exact Or.inl new
    · by_cases same : other = pid
      · exact Or.inr (by simp [same, place.found])
      · rw [if_neg same, if_neg new] at there
        exact Or.inr there
  have wider : Extends tree.pages split.pages := by
    intro other node found
    have notLeaf : other ≠ pid := by
      rintro rfl
      cases place.found.symm.trans found
    have notNew : other ≠ tree.nextPageId := by
      rintro rfl
      cases missing.symm.trans found
    exact ⟨node,
      by rwa [pages, if_neg notLeaf, if_neg notNew], fun entry member => List.mem_map_of_mem member⟩
  have ground := (leaf_ground standing place).1
  have upward : Upward split.pages root pid path := by
    apply upward_congr _ (descent_upward place.way)
    intro node member
    obtain ⟨above, low, higher, there⟩ := descent_levels place.way ground node member
    have notLeaf : node ≠ pid := by
      rintro rfl
      have :=
        height_unique there
          (forest_mem (leaf_ground standing place).2 (show (fence, node) ∈ _ by simp))
      omega
    have notNew : node ≠ tree.nextPageId := by
      rintro rfl
      exact found_of_forest there missing
    rw [pages, if_neg notLeaf, if_neg notNew]
  have links := parent_links top freshThen upward (descent_nodup place.way ground) done
  refine ⟨⟨fun other there => links.there other ?_, fun other there => ?_⟩, fun other reached => ?_⟩
  · rw [pages]
    split
    · exact Option.some_ne_none _
    · split
      · exact Option.some_ne_none _
      · exact there
  · rcases links.newer other there with old | new
    · by_cases new : other = tree.nextPageId
      · exact Or.inr (new ▸ links.hung _ Below.here)
      · by_cases same : other = pid
        · exact Or.inl (by simp [same, place.found])
        · rw [pages, if_neg same, if_neg new] at old
          exact Or.inl old
    · exact Or.inr new
  · exact links.root other
      ((reached_below top).mpr (below_extends wider ((reached_below standing.top).mp reached)))

omit [LinearOrder K] [Inhabited K] in
theorem nothing_reached (top : tree.rootPageId = none) : ¬Reached tree pid := by
  intro reached
  induction reached with
  | root here => cases top.symm.trans here
  | child _ _ _ ih => exact ih

omit [Inhabited K] in
theorem optimistic_grows (wellFormed : WellFormed rules tree)
    (done : tree.tryOptimisticInsert options key value = .ok (some grown)) : Grows tree grown := by
  obtain ⟨fresh, bare | ⟨root, height, standing⟩⟩ := wellFormed
  · simp only [Tree.tryOptimisticInsert, bare] at done
    cases done
  · obtain ⟨path, before, fence, pid, rest, leaf, down, place⟩ :=
      descend_to_leaf fresh standing (searches_child_for key)
    simp only [Tree.tryOptimisticInsert, standing.top, down, bind, Except.bind] at done
    split at done
    · cases done
    split at done
    · cases done
    split at done
    · cases done
    rename_i stored put
    cases done
    obtain rfl := put_leaf_sets put
    exact set_adds place.found

omit [LinearOrder K] [Inhabited K] in
theorem first_grows (fresh : Fresh tree) (bare : tree.rootPageId = none) :
    Grows tree { tree.newPage.2.setPage tree.nextPageId (.inl leaf) with
      rootPageId := some tree.nextPageId } := by
  refine ⟨⟨fun pid there => ?_, fun pid there => ?_⟩, fun pid reached =>
    absurd reached (nothing_reached bare)⟩
  · have apart : pid ≠ tree.nextPageId := by
      rintro rfl
      exact there (next_missing fresh)
    simpa [Tree.setPage, Tree.newPage, apart] using there
  · by_cases new : pid = tree.nextPageId
    · exact Or.inr (Reached.root (by simp [new]))
    · left
      simpa [Tree.setPage, Tree.newPage, new] using there

theorem pessimistic_grows (wellFormed : WellFormed rules tree)
    (done : tree.insertPessimistic options key value = .ok (added, grown)) : Grows tree grown := by
  obtain ⟨fresh, bare | ⟨root, height, standing⟩⟩ := wellFormed
  · simp only [Tree.insertPessimistic, bare, bind, Except.bind] at done
    split at done
    · cases done
    rename_i stored put
    obtain rfl := put_leaf_sets put
    cases done
    exact first_grows fresh bare
  · obtain ⟨path, before, fence, pid, rest, leaf, down, place⟩ :=
      descend_to_leaf fresh standing (searches_child_for key)
    simp only [Tree.insertPessimistic, standing.top, down, bind, Except.bind] at done
    split at done
    · cases done
      exact ⟨adds_refl, fun _ reached => reached⟩
    split at done
    · cases done
    rename_i stored put
    obtain rfl := put_leaf_sets put
    split at done
    · cases done
      exact set_adds place.found
    split at done
    · cases done
    rename_i second putNew
    obtain rfl := put_leaf_sets putNew
    split at done
    · cases done
    rename_i third putOld
    obtain rfl := put_leaf_sets putOld
    split at done
    · cases done
    split at done
    · cases done
    rename_i parents entered
    cases done
    exact split_adds fresh standing place entered

/-- `Insert` keeps every page, and what it adds comes under the root. -/
theorem insert_grows (wellFormed : WellFormed rules tree)
    (done : tree.insert options key value = .ok (added, grown)) : Grows tree grown := by
  simp only [Tree.insert, bind, Except.bind] at done
  split at done
  · cases done
  rename_i outcome tried
  cases outcome with
  | none => exact pessimistic_grows wellFormed done
  | some after =>
      cases done
      exact optimistic_grows wellFormed tried

end Insertion

/-! ### The leaves in a row -/

namespace Tree
variable {K V : Type}

def followLinks (tree : Tree K V) : Nat → PageId → Except Fault (List PageId)
  | 0, _ => .error .endless
  | fuel + 1, pid => do
      let leaf ← tree.leafPage pid
      match leaf.nextPageId with
      | none => .ok [pid]
      | some next => do
          let rest ← followLinks tree fuel next
          .ok (pid :: rest)

def leafChain (tree : Tree K V) : Except Fault (List PageId) :=
  match tree.rootPageId with
  | none => .ok []
  | some root => do
      let (_, pid, _) ← tree.descend (fun page => page.valueAt 0) tree.depthBound root []
      tree.followLinks tree.depthBound pid

end Tree

section Leaves
variable {K V : Type} {tree : Tree K V} {pid : PageId} {rest : List PageId} {rules : Rules}

theorem follow_links {fuel : Nat} (chain : LinkedChain.Chain (links tree.pages) pid rest none)
    (leaves : ∀ page ∈ pid :: rest, ∃ leaf, tree.pages page = some (.inl leaf))
    (enough : rest.length < fuel) :
    tree.followLinks fuel pid = .ok (pid :: rest) := by
  induction rest generalizing pid fuel with
  | nil =>
      obtain ⟨fuel, rfl⟩ : ∃ n, fuel = n + 1 := ⟨fuel - 1, by omega⟩
      obtain ⟨leaf, found⟩ := leaves pid List.mem_cons_self
      have link : links tree.pages pid = none := chain
      simp only [links, found] at link
      simp only [Tree.followLinks, Tree.leafPage, found, link, bind, Except.bind]
  | cons next rest ih =>
      obtain ⟨fuel, rfl⟩ : ∃ n, fuel = n + 1 := ⟨fuel - 1, by omega⟩
      obtain ⟨leaf, found⟩ := leaves pid List.mem_cons_self
      have link : links tree.pages pid = some next := chain.1
      simp only [links, found] at link
      have later := ih chain.2 (fun page member => leaves page (List.mem_cons_of_mem _ member))
        (show rest.length < fuel by simpa using enough)
      simp only [Tree.followLinks, Tree.leafPage, found, link, later, bind, Except.bind]

variable [LinearOrder K]

/-- The chain of a well-formed tree has the leaves under the root, each once, in the order of
their keys. -/
theorem leaf_chain (wellFormed : WellFormed rules tree) :
    ∃ pids, tree.leafChain = .ok pids ∧ pids.Nodup ∧
      (∀ pid, pid ∈ pids ↔ Reached tree pid ∧ ∃ leaf, tree.pages pid = some (.inl leaf)) ∧
      (pids.flatMap (keysOf tree.pages)).Pairwise (· < ·) := by
  obtain ⟨fresh, bare | ⟨root, height, standing⟩⟩ := wellFormed
  · refine ⟨[],
      by simp only [Tree.leafChain, bare], List.nodup_nil, fun pid => ?_, List.Pairwise.nil⟩
    constructor
    · exact fun member => nomatch member
    · exact fun both => absurd both.1 (nothing_reached bare)
  · obtain ⟨path, low, leaf, rest, down, found, row⟩ :=
      @descend_first K V rules {root} tree height ⊥ root [] standing.forest tree.depthBound
        (height_bound fresh standing.forest)
    change leavesOf tree.pages root height = (⊥, low) :: rest at row
    obtain ⟨chain, leaves, few⟩ :=
      @chain_from K V _ rules {root} tree root height fresh standing [] rest ⊥ low row
    have whole : low :: rest.map Prod.snd = (leavesOf tree.pages root height).map Prod.snd := by
      rw [row]
      rfl
    refine ⟨low :: rest.map Prod.snd, ?_, whole ▸ standing.unique, fun pid => ?_, ?_⟩
    · simp only [Tree.leafChain, standing.top, down, bind, Except.bind]
      exact follow_links chain leaves (Nat.lt_of_succ_le (by simpa using few))
    · rw [whole]
      constructor
      · intro member
        obtain ⟨leaf, there⟩ := leaves pid (whole ▸ member)
        exact ⟨(reached_leaf standing.top standing.forest there).mpr member, leaf, there⟩
      · rintro ⟨reached, leaf, there⟩
        exact (reached_leaf standing.top standing.forest there).mp reached
    · rw [whole, List.flatMap_map]
      exact ordered_keys standing.ordered

end Leaves

section Runs
variable {K V : Type} [LinearOrder K] {tree after : Tree K V} {rules : Rules} {options : Options}
  {pid : PageId} {answer : Answer K V} {label : Call K V × Answer K V}

def Accounted (tree : Tree K V) : Prop := ∀ pid, tree.pages pid ≠ none ↔ Reached tree pid

theorem reached_there (wellFormed : WellFormed rules tree) (reached : Reached tree pid) :
    tree.pages pid ≠ none := by
  obtain ⟨fresh, bare | ⟨root, height, standing⟩⟩ := wellFormed
  · exact absurd reached (nothing_reached bare)
  · obtain ⟨depth, low, fence, member⟩ := row_reached standing.top standing.forest reached
    obtain ⟨rest, rfl⟩ : ∃ n, height = n + depth := ⟨height - depth, by omega⟩
    exact found_of_forest (forest_mem (forest_fringe standing.forest) member)

variable [Inhabited K]

omit [Inhabited K] in
theorem grows_accounted (wellFormed : WellFormed rules after) (grows : Grows tree after)
    (accounted : Accounted tree) :
    Accounted after := by
  intro pid
  refine ⟨fun there => ?_, reached_there wellFormed⟩
  rcases grows.1.newer pid there with old | new
  · exact grows.2 pid ((accounted pid).mp old)
  · exact new

omit [Inhabited K] in
theorem drops_accounted (wellFormed : WellFormed rules after) (drops : Drops tree after [])
    (accounted : Accounted tree) :
    Accounted after := by
  intro pid
  refine ⟨fun there => ?_, reached_there wellFormed⟩
  have old : tree.pages pid ≠ none := fun missing => there (drops.older pid missing)
  exact (drops.rest pid ((accounted pid).mp old)).resolve_right there

theorem scan_keeps {start : Option K} {rounds : Nat} {inBytes : Bool}
    (done : call options rounds inBytes tree (.scan start) = .ok (answer, after)) :
    after = tree := by
  match start, done with
  | none, done =>
      simp only [call, bind, Except.bind] at done
      split at done
      · cases done
      split at done
      · cases done
      exact (Prod.mk.inj (Except.ok.inj done)).2.symm
  | some key, done =>
      simp only [call, bind, Except.bind] at done
      split at done
      · cases done
      split at done
      · cases done
      exact (Prod.mk.inj (Except.ok.inj done)).2.symm

theorem step_accounted (opens : Opens options) (wellFormed : WellFormed (fullRules options) tree)
    (wellFormedThen : WellFormed (fullRules options) after) (accounted : Accounted tree)
    (step : Served options tree label after) : Accounted after := by
  obtain ⟨asked, answer⟩ := label
  obtain ⟨admits, rounds, inBytes, done⟩ := step
  cases asked with
  | insert key value =>
      cases inserted : tree.insert options key value with
      | error fault => simp [call, inserted, bind, Except.bind] at done
      | ok result =>
          obtain ⟨added, grown⟩ := result
          simp only [call, inserted, bind, Except.bind] at done
          cases done
          exact grows_accounted wellFormedThen (insert_grows wellFormed inserted) accounted
  | remove key =>
      obtain ⟨result, removal, removed⟩ := remove_any opens wellFormed admits
      simp only [call, removal, bind, Except.bind] at done
      cases done
      exact drops_accounted wellFormedThen removed.drops accounted
  | getValue key =>
      cases found : tree.getValue key with
      | error fault => simp [call, found, bind, Except.bind] at done
      | ok value =>
          simp only [call, found, bind, Except.bind] at done
          cases done
          exact accounted
  | scan start =>
      obtain rfl := scan_keeps done
      exact accounted

omit [Inhabited K] in
theorem map_step_keeps {map next : K → Option V} {asked : Call K V} {key : K} {value : V}
    (step : MapStep map (asked, answer) next) (held : map key = some value)
    (other : asked ≠ .remove key) :
    next key = some value := by
  cases step with
  | @inserts new _ absent =>
      have apart : key ≠ new := by
        rintro rfl
        cases absent.symm.trans held
      rwa [Function.update_of_ne apart]
  | refuses _ => exact held
  | @removes gone =>
      have apart : key ≠ gone := by
        rintro rfl
        exact other rfl
      rwa [Function.update_of_ne apart]
  | finds => exact held
  | scans _ => exact held

structure Kept (options : Options) (tree : Tree K V) : Prop where
  wellFormed : WellFormed (fullRules options) tree
  accounted : Accounted tree
  map : ∃ map, Represents tree map

theorem step_kept (opens : Opens options) (kept : Kept options tree)
    (step : Served options tree label after) : Kept options after := by
  obtain ⟨map, represents⟩ := kept.map
  obtain ⟨asked, answer⟩ := label
  obtain ⟨other, result, next, again, matched, stands, holds⟩ :=
    call_refines opens kept.wellFormed represents asked step.1
  obtain ⟨rfl, rfl⟩ := step_single step.2 again
  exact ⟨stands, step_accounted opens kept.wellFormed stands kept.accounted step, next, holds⟩

/-- After every run, a page exists exactly when it is under the root, and the links from the first
leaf on lead through the leaves that exist, each once and in the order of their keys. A call that
comes next does away with no live entry but those of the key that it removes. -/
theorem pages_accounted (opens : Opens options) {labels : List (Call K V × Answer K V)}
    (run : TransitionSystem.Run (Served options) {} labels tree) :
    (∀ pid, tree.pages pid ≠ none ↔ Reached tree pid) ∧
      (∃ pids, tree.leafChain = .ok pids ∧ pids.Nodup ∧
        (∀ pid, pid ∈ pids ↔ ∃ leaf, tree.pages pid = some (.inl leaf)) ∧
        (pids.flatMap (keysOf tree.pages)).Pairwise (· < ·)) ∧
      ∀ asked answer after, Served options tree (asked, answer) after → ∀ pid leaf key value,
        tree.pages pid = some (.inl leaf) → Live leaf key value → asked ≠ .remove key →
          ∃ pid leaf, after.pages pid = some (.inl leaf) ∧ Live leaf key value := by
  have kept : Kept options tree := by
    apply TransitionSystem.run_preserves (fun _ _ _ kept step => step_kept opens kept step) run
    refine ⟨empty_well_formed, fun pid => ?_, fun _ => none, fun key value => ?_⟩
    · exact ⟨fun there => absurd rfl there, fun reached => absurd reached (nothing_reached rfl)⟩
    · exact ⟨fun holds => absurd (holds_stored holds) (nothing_stored rfl),
        fun same => nomatch same⟩
  refine ⟨kept.accounted, ?_, ?_⟩
  · obtain ⟨pids, done, once, whole, rising⟩ := leaf_chain kept.wellFormed
    refine ⟨pids, done, once, fun pid => ?_, rising⟩
    rw [whole]
    refine ⟨And.right, fun there => ⟨?_, there⟩⟩
    obtain ⟨leaf, found⟩ := there
    exact (kept.accounted pid).mp (by simp [found])
  · rintro asked answer after step pid leaf key value found live other
    obtain ⟨map, represents⟩ := kept.map
    have held : map key = some value :=
      (represents key value).mp ⟨pid, leaf, (kept.accounted pid).mp (by simp [found]), found, live⟩
    obtain ⟨second, result, next, again, matched, _, holds⟩ :=
      call_refines opens kept.wellFormed represents asked step.1
    obtain ⟨rfl, rfl⟩ := step_single step.2 again
    have still := map_step_keeps matched held other
    obtain ⟨pid, leaf, _, there, alive⟩ := (holds key value).mpr still
    exact ⟨pid, leaf, there, alive⟩

/-- From every well-formed tree a key is removed, and no other; the tree stays well-formed, and
the pages that go out of it are those that are deleted. -/
theorem remove_keeps_tree (opens : Opens options) (wellFormed : WellFormed (fullRules options) tree)
    {key : K} (removable : Removable options tree key) :
    ∃ result, (∀ inBytes, tree.remove options inBytes key = .ok result) ∧
      WellFormed (fullRules options) result ∧ (∀ k v, Holds result k v ↔ k ≠ key ∧ Holds tree k v) ∧
        (∀ pid, result.pages pid = none ↔ tree.pages pid = none ∨ Reached tree pid ∧
        ¬Reached result pid) := by
  obtain ⟨result, done, removed⟩ := remove_any opens wellFormed removable
  refine ⟨result, done, removed.wellFormed, removed.holds, fun pid => ?_⟩
  constructor
  · intro missing
    rcases removed.drops.missing pid missing with absent | reached | listed
    · exact Or.inl absent
    · exact Or.inr ⟨reached, fun still => reached_there removed.wellFormed still missing⟩
    · cases listed
  · rintro (absent | ⟨reached, gone⟩)
    · exact removed.drops.older pid absent
    · exact (removed.drops.rest pid reached).resolve_left gone

end Runs

theorem couple_merged : ∃ result, (∀ inBytes, couple.remove bareFour inBytes 21 = .ok result) ∧
    WellFormed (fullRules bareFour) result ∧ (∀ k v, Holds result k v ↔ k ≠ 21 ∧ Holds couple k v) ∧
      ∀ pid, result.pages pid = none ↔ couple.pages pid = none ∨ Reached couple pid ∧
      ¬Reached result pid :=
  remove_keeps_tree ⟨by decide, by decide, by decide, by decide⟩ couple_well_formed couple_removable

theorem two_leaves_accounted : ∃ (tree : Tree Nat Nat) (pids : List PageId), tree.leafChain =
    .ok pids ∧ pids.Nodup ∧ ∀ pid, tree.pages pid ≠ none ↔ Reached tree pid := by
  obtain ⟨tree, run⟩ := run_of_two_leaves
  obtain ⟨accounted, ⟨pids, chain, once, _⟩, _⟩ :=
    pages_accounted ⟨by decide, by decide, by decide, by decide⟩ run
  exact ⟨tree, pids, chain, once, accounted⟩

end BusTub.BPlusTree
