import BusTub.PageBounds
import BusTub.TreePages

/-!
When an insertion leaves the arrays of a page: where the leaf has no slot for the
entry, or where it splits and its parent has no slot for the new child. Above that
parent there is room again. Then runs of insertions and removals.
-/

namespace BusTub.PageBounds

open BPlusTree

section Insertions
variable {K V : Type} {options : Options} {tree : Tree K V} {key : K} {value : V}
  {leaf : LeafPage K V} {pid : PageId} {place : Nat} {node : InternalPage K}

theorem inserted_length {page : InternalPage K} {place : Nat} {pid : PageId} :
    (page.insertAt place key pid).entries.length ≤ page.entries.length + 1 := by
  rw [InternalPage.insertAt, List.length_insertIdx]
  split <;> omega

theorem inserted_entries :
    (leaf.insertAt place key value).entries.length ≤ leaf.entries.length + 1 := by
  rw [LeafPage.insertAt, List.length_insertIdx]
  split <;> omega

theorem inserted_fits (fits : LeafFits options leaf)
    (room : leaf.getSize < options.LEAF_PAGE_SLOT_CNT)
    (notFull : 2 ≤ options.leafMaxSize → (leaf.insertAt place key value).getSize <
      options.leafMaxSize) :
    LeafFits options (leaf.insertAt place key value) where
  maxSize := fits.maxSize
  entries := inserted_entries.trans room
  below := notFull
  tombstones := (List.length_map _).trans_le fits.tombstones

/-- A page that was full, with one more child: its two halves fit. -/
theorem halves_fit [Inhabited K] {page : InternalPage K} (fits : NodeFits options page)
    (place : Nat) (pid : PageId) :
    NodeFits options
      ((page.insertAt place key pid).split { maxSize := options.internalMaxSize }).1 ∧
        NodeFits options
        ((page.insertAt place key pid).split { maxSize := options.internalMaxSize }).2.2 := by
  obtain ⟨left, right⟩ :=
    @internal_split_size K (page.insertAt place key pid) { maxSize := options.internalMaxSize } _
  have size := @inserted_length K key page place pid
  have entries := fits.entries
  rw [InternalPage.getSize, InternalPage.getSize] at left right
  constructor
  · exact ⟨fits.maxSize, left.trans_le (by omega)⟩
  · exact ⟨rfl, right.trans_le (by omega)⟩

theorem leaf_halves_fit {leaf newLeaf : LeafPage K V} (sized : Sized options)
    (maxSize : leaf.maxSize = options.leafMaxSize) (full : leaf.getSize = options.leafMaxSize)
    (tombstones : leaf.tombstones.length ≤ options.LEAF_PAGE_TOMB_CNT)
    (fresh : newLeaf.maxSize = options.leafMaxSize) :
    LeafFits options (leaf.split newLeaf).1 ∧ LeafFits options (leaf.split newLeaf).2 := by
  have slots := sized.leafSlots
  have left : (leaf.split newLeaf).1.entries.length ≤ leaf.getSize / 2 := List.length_take_le _ _
  have right : (leaf.split newLeaf).2.entries.length = leaf.getSize - leaf.getSize / 2 :=
    List.length_drop
  constructor
  · exact ⟨maxSize, by omega, by omega, (List.length_filter_le _ _).trans tombstones⟩
  · exact ⟨fresh, by omega, by omega,
      (List.length_map _).trans_le ((List.length_filter_le _ _).trans tombstones)⟩

theorem right_half_nonempty (leaf newLeaf : LeafPage K V) (nonempty : 0 < leaf.getSize) :
    (leaf.split newLeaf).2.entries ≠ [] := by
  intro empty
  have short := List.drop_eq_nil_iff.mp empty
  rw [LeafPage.getSize] at nonempty short
  omega

def ParentRoom (options : Options) (tree : Tree K V) (path : List PageId) : Prop :=
  ∀ parent node, path.head? = some parent → tree.pages parent = some (.inr node) →
    node.getSize < options.INTERNAL_PAGE_SLOT_CNT

theorem put_leaf_overflows (long : options.LEAF_PAGE_SLOT_CNT < leaf.entries.length) :
    tree.putLeaf options pid leaf = .error .slots :=
  if_neg fun fits => Nat.not_lt.mpr fits.1 long

theorem put_leaf_stores {pid : PageId} {leaf : LeafPage K V}
    (entries : leaf.entries.length ≤ options.LEAF_PAGE_SLOT_CNT)
    (tombstones : leaf.tombstones.length ≤ options.LEAF_PAGE_TOMB_CNT) :
    tree.putLeaf options pid leaf = .ok (tree.setPage pid (.inl leaf)) :=
      if_pos ⟨entries, tombstones⟩

theorem stored_leaf (entries : leaf.entries.length ≤ options.LEAF_PAGE_SLOT_CNT)
    (tombstones : leaf.tombstones.length ≤ options.LEAF_PAGE_TOMB_CNT) :
    Avoids .slots (fun after => after = tree.setPage pid (.inl leaf))
      (tree.putLeaf options pid leaf) := by
  rw [put_leaf_stores entries tombstones]
  exact avoids_ok rfl

theorem linked_fits (fits : LeafFits options leaf) (next : Option PageId) :
    LeafFits options { leaf with nextPageId := next } :=
      ⟨fits.maxSize, fits.entries, fits.below, fits.tombstones⟩

/-- Of the full leaf that was stored for a moment nothing is left. -/
theorem split_bounded (bounded : Bounded options tree) (found : tree.pages pid = some (.inl leaf))
    (full left right : LeafPage K V) (leftFits : LeafFits options left)
    (rightFits : LeafFits options right) :
    Bounded options
      ((((tree.setPage pid (.inl full)).newPage.2).setPage tree.nextPageId (.inl right)).setPage pid
      (.inl left)) := by
  have newThere : tree.nextPageId < tree.nextPageId + 1 := Int.lt_succ tree.nextPageId
  have handedOut := handed_out bounded found
  have apart : pid ≠ tree.nextPageId := handedOut.ne
  have settled :
      (((tree.setPage pid (.inl full)).newPage.2).setPage tree.nextPageId (.inl right)).setPage pid
      (.inl left) = (tree.newPage.2.setPage tree.nextPageId (.inl right)).setPage pid
        (.inl left) := by
    simp only [Tree.setPage, Tree.newPage, Function.update_comm apart, Function.update_idem]
  rw [settled]
  have once : Bounded options (tree.newPage.2.setPage tree.nextPageId (.inl right)) :=
    bounded_set (bounded_new bounded) newThere rightFits
  exact bounded_set once (handedOut.trans newThere) leftFits

/-- A stored leaf takes the place of no internal page and is none. -/
theorem node_before {pid other : PageId}
    (found : (tree.setPage pid (.inl leaf)).pages other = some (.inr node)) :
    tree.pages other = some (.inr node) := by
  by_cases same : other = pid
  · simp [same] at found
  · simpa [same] using found

variable [LinearOrder K]

theorem insert_into_parent [Inhabited K] (sized : Sized options) (bounded : Bounded options tree)
    (child : PageId) (upKey : K) (newPid : PageId) {path : List PageId}
    (room : ParentRoom options tree path) :
    Avoids .slots (Bounded options) (tree.insertIntoParent options child upKey newPid path) := by
  induction path generalizing tree child upKey newPid with
  | nil =>
      have pair : NodeFits options
        (⟨options.internalMaxSize, [(default, child), (upKey, newPid)]⟩ : InternalPage K) :=
        ⟨rfl, Nat.le_max_left 2 _⟩
      have there : tree.nextPageId < tree.newPage.2.nextPageId := Int.lt_succ tree.nextPageId
      refine avoids_bind (put_internal sized (bounded_new bounded) there pair) ?_
      rintro after ⟨-, done⟩
      exact avoids_ok (bounded_root done _)
  | cons parent rest ih =>
      unfold Tree.insertIntoParent
      refine avoids_bind (internal_page tree parent) fun page found => ?_
      have fits := node_fits bounded found
      have below : page.entries.length < options.INTERNAL_PAGE_SLOT_CNT :=
        room parent page rfl found
      have size := @inserted_length K upKey page (page.upperBound upKey) newPid
      obtain ⟨leftFits, rightFits⟩ :=
        @halves_fit K options upKey _ page fits (page.upperBound upKey) newPid
      have sameMax : (page.insertAt (page.upperBound upKey) upKey newPid).maxSize =
          options.internalMaxSize :=
        fits.maxSize
      dsimp only
      -- for a moment the page has one child more than its maximum
      generalize page.insertAt (page.upperBound upKey) upKey newPid =
        bigger at size sameMax leftFits rightFits ⊢
      have stores : tree.putInternal options parent bigger =
          .ok (tree.setPage parent (.inr bigger)) :=
        if_pos (size.trans below)
      have there : parent < tree.newPage.2.nextPageId :=
        (handed_out bounded found).trans (Int.lt_succ tree.nextPageId)
      have settled (half : InternalPage K) :
          (tree.setPage parent (.inr bigger)).newPage.2.setPage parent
        (.inr half) =
          tree.newPage.2.setPage parent (.inr half) := by
        simp [Tree.setPage, Tree.newPage]
      rw [stores, ok_bind]
      split
      case isTrue small =>
        rw [InternalPage.getSize] at small
        exact avoids_ok (bounded_set bounded (handed_out bounded found) ⟨sameMax, by omega⟩)
      case isFalse full =>
        have storesLeft : Tree.putInternal options
          (tree.setPage parent (.inr bigger)).newPage.2 parent
          (bigger.split { maxSize := options.internalMaxSize }).1 =
            .ok (tree.newPage.2.setPage parent
              (.inr (bigger.split { maxSize := options.internalMaxSize }).1)) :=
          (if_pos (node_slots sized leftFits)).trans (congrArg Except.ok (settled _))
        have once : Bounded options (tree.newPage.2.setPage parent
            (.inr (bigger.split { maxSize := options.internalMaxSize }).1)) :=
          bounded_set (bounded_new bounded) there leftFits
        dsimp only [Tree.newPage] at storesLeft ⊢
        rw [storesLeft, ok_bind]
        refine avoids_bind (put_internal sized once (Int.lt_succ tree.nextPageId) rightFits) ?_
        rintro after ⟨-, twice⟩
        apply ih twice
        -- a page below its slots is full, so that no page has all of its slots taken
        intro above node _ there
        have := many_slots sized
        have := (node_fits twice there).entries
        rw [InternalPage.getSize] at full ⊢
        omega

def HasRoom (options : Options) (tree : Tree K V) (key : K) : Prop :=
  match tree.rootPageId with
  | none => 0 < options.LEAF_PAGE_SLOT_CNT
  | some root => ∀ path pid leaf,
      tree.descend (fun page => page.childFor key) tree.depthBound root [] = .ok (path, pid, leaf) →
      Tree.hasKeyAt leaf (Tree.lowerBound leaf key) key = false →
      leaf.getSize < options.LEAF_PAGE_SLOT_CNT ∧
        (leaf.getSize + 1 = options.leafMaxSize → ParentRoom options tree path)

theorem bisect_le {goesRight : Nat → Bool} {fuel lo hi : Nat} (order : lo ≤ hi) :
    bisect goesRight fuel lo hi ≤ hi := by
  induction fuel generalizing lo hi with
  | zero => exact order
  | succ fuel ih =>
      unfold bisect
      split
      · split
        · exact ih (by omega)
        · exact (ih (by omega)).trans (by omega)
      · exact order

theorem inserted_size (leaf : LeafPage K V) (key : K) (value : V) :
    (leaf.insertAt (Tree.lowerBound leaf key) key value).getSize = leaf.getSize + 1 := by
  have inside : Tree.lowerBound leaf key ≤ leaf.getSize := bisect_le (Nat.zero_le _)
  rw [LeafPage.getSize, LeafPage.insertAt, List.length_insertIdx_of_le_length inside]
  rfl

theorem try_optimistic_insert (sized : Sized options) (bounded : Bounded options tree) (key : K)
    (value : V) :
    Avoids .slots (fun result => ∀ after, result = some after → Bounded options after)
      (tree.tryOptimisticInsert options key value) := by
  have nothing : ∀ after, (none : Option (Tree K V)) = some after → Bounded options after := by simp
  unfold Tree.tryOptimisticInsert
  cases tree.rootPageId with
  | none => exact avoids_ok nothing
  | some root =>
      dsimp only
      refine avoids_bind (descends tree _ _ root []) ?_
      rintro ⟨path, pid, leaf⟩ found
      dsimp only
      split
      case isTrue => exact avoids_ok nothing
      case isFalse space =>
        split
        case isTrue => exact avoids_ok nothing
        case isFalse =>
          have fits := leaf_fits bounded found
          have slots := sized.leafSlots
          have sameMax : leaf.maxSize = options.leafMaxSize := fits.maxSize
          have size := inserted_size leaf key value
          have bigger :=
            inserted_fits fits (show leaf.getSize < options.LEAF_PAGE_SLOT_CNT by omega)
              fun _ => show (leaf.insertAt (Tree.lowerBound leaf key) key value).getSize <
                options.leafMaxSize by omega
          refine avoids_bind (put_leaf bounded (handed_out bounded found) bigger) ?_
          rintro after ⟨-, done⟩
          exact avoids_ok fun other same => Option.some.inj same ▸ done

theorem insert_pessimistic [Inhabited K] (sized : Sized options) (bounded : Bounded options tree)
    (value : V) (room : HasRoom options tree key) :
    Avoids .slots (fun result => Bounded options result.2)
      (tree.insertPessimistic options key value) := by
  unfold Tree.insertPessimistic
  unfold HasRoom at room
  cases top : tree.rootPageId with
  | none =>
      rw [top] at room
      have there : tree.nextPageId < tree.newPage.2.nextPageId := Int.lt_succ tree.nextPageId
      have first : LeafFits options
        (LeafPage.insertAt ⟨options.leafMaxSize, none, [], []⟩ 0 key value) :=
        ⟨rfl, room, fun two => two, Nat.zero_le _⟩
      refine avoids_bind (put_leaf (bounded_new bounded) there first) ?_
      rintro after ⟨-, done⟩
      exact avoids_ok (bounded_root done _)
  | some root =>
      rw [top] at room
      dsimp only at room ⊢
      refine avoids_bind (avoids_known (descends tree _ _ root [])) ?_
      rintro ⟨path, pid, leaf⟩ ⟨down, found⟩
      dsimp only
      split
      case isTrue => exact avoids_ok bounded
      case isFalse absent =>
        obtain ⟨space, above⟩ := room path pid leaf down (Bool.eq_false_iff.mpr absent)
        have fits := leaf_fits bounded found
        have size := inserted_size leaf key value
        have tombstones : (leaf.insertAt (Tree.lowerBound leaf key) key value).tombstones.length ≤
            options.LEAF_PAGE_TOMB_CNT := (List.length_map _).trans_le fits.tombstones
        rw [put_leaf_stores (inserted_entries.trans space) tombstones, ok_bind]
        split
        case isTrue notFull =>
          have bigger : LeafFits options (leaf.insertAt (Tree.lowerBound leaf key) key value) :=
            inserted_fits fits space fun two =>
              lt_of_le_of_ne (size.trans_le (fits.below two)) notFull
          exact avoids_ok (bounded_set bounded (handed_out bounded found) bigger)
        case isFalse splits =>
          have full := not_not.mp splits
          obtain ⟨leftFits, rightFits⟩ := @leaf_halves_fit K V options
            (leaf.insertAt (Tree.lowerBound leaf key) key value) ⟨options.leafMaxSize, none, [],
              []⟩ sized fits.maxSize
            full tombstones rfl
          refine avoids_bind (stored_leaf rightFits.entries rightFits.tombstones) ?_
          rintro _ rfl
          refine avoids_bind (stored_leaf leftFits.entries leftFits.tombstones) ?_
          rintro _ rfl
          split
          · exact avoids_error (by decide)
          · have parents := above (size.symm.trans full)
            have both :=
                split_bounded bounded found (leaf.insertAt (Tree.lowerBound leaf key) key value) _ _
              (linked_fits leftFits (some tree.nextPageId)) (linked_fits rightFits leaf.nextPageId)
            refine avoids_bind (insert_into_parent sized both pid _ _ ?_) ?_
            · intro parent node atFront there
              have before := node_before (node_before there)
              exact parents parent node atFront (node_before before)
            · exact fun after done => avoids_ok done

theorem insert_bounded [Inhabited K] (sized : Sized options) (bounded : Bounded options tree)
    (value : V) (room : HasRoom options tree key) :
    Avoids .slots (fun result => Bounded options result.2) (tree.insert options key value) := by
  unfold Tree.insert
  refine avoids_bind (try_optimistic_insert sized bounded key value) fun result kept => ?_
  cases result with
  | none => exact insert_pessimistic sized bounded value room
  | some after => exact avoids_ok (kept after rfl)

/-! Without that room there is no way around the end of the array. -/

theorem insert_into_parent_overflows [Inhabited K] (sized : Sized options)
    {child newPid parent : PageId} {upKey : K} {rest : List PageId}
    (found : tree.pages parent = some (.inr node))
    (full : options.INTERNAL_PAGE_SLOT_CNT ≤ node.getSize) :
    tree.insertIntoParent options child upKey newPid (parent :: rest) = .error .slots := by
  have reads : tree.internalPage parent = .ok node := by
    rw [Tree.internalPage, found]
  have inside : node.upperBound upKey ≤ node.entries.length := by
    have slots := many_slots sized
    rw [InternalPage.getSize] at full
    exact bisect_le (by rw [InternalPage.getSize]; omega)
  have long : ¬(node.insertAt (node.upperBound upKey) upKey newPid).entries.length ≤
      options.INTERNAL_PAGE_SLOT_CNT := by
    rw [InternalPage.insertAt, List.length_insertIdx_of_le_length inside]
    rw [InternalPage.getSize] at full
    omega
  unfold Tree.insertIntoParent
  rw [reads, ok_bind]
  dsimp only
  rw [Tree.putInternal, if_neg long]
  rfl

theorem insert_overflows [Inhabited K] (sized : Sized options) (bounded : Bounded options tree)
    (value : V)
    (crowded : ¬HasRoom options tree key) : tree.insert options key value = .error .slots := by
  unfold HasRoom at crowded
  cases top : tree.rootPageId with
  | none =>
      rw [top] at crowded
      simp only [Tree.insert, Tree.tryOptimisticInsert, Tree.insertPessimistic, top, ok_bind]
      rw [put_leaf_overflows (by simpa [LeafPage.insertAt] using crowded)]
      rfl
  | some root =>
      rw [top] at crowded
      push Not at crowded
      obtain ⟨path, pid, leaf, down, absent, noRoom⟩ := crowded
      have found :=
        (descends tree (fun page => page.childFor key) tree.depthBound root []).meets _ down
      have fits := leaf_fits bounded found
      have slots := sized.leafSlots
      have sameMax : leaf.maxSize = options.leafMaxSize := fits.maxSize
      have full : leaf.maxSize ≤ leaf.getSize + 1 := by
        by_cases space : leaf.getSize < options.LEAF_PAGE_SLOT_CNT
        · have := (noRoom space).1
          omega
        · omega
      have declines : tree.tryOptimisticInsert options key value = .ok none := by
        rw [Tree.tryOptimisticInsert, top]
        dsimp only
        rw [down, ok_bind]
        exact if_pos full
      rw [Tree.insert, declines, ok_bind]
      dsimp only
      rw [Tree.insertPessimistic, top]
      dsimp only
      rw [down, ok_bind]
      dsimp only
      rw [if_neg (by rw [absent]; decide)]
      have size := inserted_size leaf key value
      by_cases space : leaf.getSize < options.LEAF_PAGE_SLOT_CNT
      · obtain ⟨splits, parents⟩ := noRoom space
        unfold ParentRoom at parents
        push Not at parents
        obtain ⟨parent, node, atFront, there, crowded⟩ := parents
        obtain ⟨rest, rfl⟩ := List.head?_eq_some_iff.mp atFront
        have tombstones : (leaf.insertAt (Tree.lowerBound leaf key) key value).tombstones.length ≤
            options.LEAF_PAGE_TOMB_CNT := (List.length_map _).trans_le fits.tombstones
        obtain ⟨leftFits, rightFits⟩ := @leaf_halves_fit K V options
          (leaf.insertAt (Tree.lowerBound leaf key) key value)
            ⟨options.leafMaxSize, none, [], []⟩ sized fits.maxSize
          (size.trans splits) tombstones rfl
        have more := right_half_nonempty (leaf.insertAt (Tree.lowerBound leaf key) key value)
          (⟨options.leafMaxSize, none, [], []⟩ : LeafPage K V) (by omega)
        rw [put_leaf_stores (inserted_entries.trans space) tombstones, ok_bind, if_neg (by omega)]
        have elsewhere (first second : LeafPage K V) :
            ((((tree.setPage pid
              (.inl (leaf.insertAt (Tree.lowerBound leaf key) key value))).newPage.2).setPage
              tree.nextPageId (.inl first)).setPage pid (.inl second)).pages parent =
                some (.inr node) := by
          have apart : parent ≠ pid := by
            rintro rfl
            rw [there] at found
            cases found
          have old : parent ≠ tree.nextPageId := (bounded.fresh parent _ there).ne
          simp [apart, old, there]
        generalize (leaf.insertAt (Tree.lowerBound leaf key) key value).split
          (⟨options.leafMaxSize, none, [], []⟩ : LeafPage K V) = halves at leftFits rightFits more ⊢
        have storesRight := @put_leaf_stores K V options
          (tree.setPage pid (.inl (leaf.insertAt (Tree.lowerBound leaf key) key value))).newPage.2
            tree.nextPageId
          { halves.2 with nextPageId := halves.1.nextPageId } rightFits.entries rightFits.tombstones
        have storesLeft (before : Tree K V) := @put_leaf_stores K V options before pid
          { halves.1 with nextPageId := some tree.nextPageId } leftFits.entries leftFits.tombstones
        dsimp only [Tree.newPage, Tree.setPage] at storesRight storesLeft ⊢
        rw [storesRight, ok_bind, storesLeft, ok_bind]
        cases list : halves.2.entries with
        | nil => exact absurd list more
        | cons entry others =>
            exact congrArg (fun call => call >>= fun tree => Except.ok (true, tree))
              (insert_into_parent_overflows sized (elsewhere _ _) crowded)
      · have long : options.LEAF_PAGE_SLOT_CNT <
            (leaf.insertAt (Tree.lowerBound leaf key) key value).entries.length := by
          rw [LeafPage.getSize] at size
          omega
        rw [put_leaf_overflows long]
        rfl

end Insertions

/-! ### Runs -/

/-- `inBytes` is what the bytes of the leaf may show a `Remove`. -/
inductive Operation (K V : Type) where
  | insert (key : K) (value : V)
  | remove (key : K) (inBytes : Bool)

section Runs
variable {K V : Type} [LinearOrder K] [Inhabited K] {options : Options} {tree : Tree K V}

def perform (options : Options) (tree : Tree K V) : Operation K V → Except Fault (Tree K V)
  | .insert key value => do
      let (_, tree) ← tree.insert options key value
      .ok tree
  | .remove key inBytes => tree.remove options inBytes key

def step (options : Options) : Except Fault (Tree K V) → Operation K V →
    Option (Except Fault (Tree K V))
  | .ok tree, operation => some (perform options tree operation)
  | .error _, _ => none

def InBounds (outcome : Except Fault (Tree K V)) : Prop := outcome ≠ .error .slots

def Admits (options : Options) : Except Fault (Tree K V) → Operation K V → Prop
  | .ok tree, .insert key _ => HasRoom options tree key
  | _, _ => True

theorem perform_bounded (sized : Sized options) (bounded : Bounded options tree)
    (operation : Operation K V) (admits : Admits options (.ok tree) operation) :
    Avoids .slots (Bounded options) (perform options tree operation) := by
  cases operation with
  | insert key value =>
      exact avoids_bind (insert_bounded sized bounded value admits) fun result kept =>
        avoids_ok kept
  | remove key inBytes => exact remove_bounded sized bounded inBytes key

theorem perform_overflows (sized : Sized options) (bounded : Bounded options tree)
    {operation : Operation K V} (crowded : ¬Admits options (.ok tree) operation) :
    perform options tree operation = .error .slots := by
  cases operation with
  | insert key value =>
      rw [perform, insert_overflows sized bounded value crowded]
      rfl
  | remove key inBytes => exact absurd trivial crowded

def Tracked (options : Options) (outcome : Except Fault (Tree K V)) : Prop :=
  ∀ tree, outcome = .ok tree → Bounded options tree

omit [LinearOrder K] [Inhabited K] in
theorem empty_tracked (options : Options) : Tracked options (.ok ({} : Tree K V)) := by
  intro tree same
  obtain rfl := Except.ok.inj same
  constructor
  case fresh => exact fun _ _ found => nomatch found
  case fits => exact fun _ _ found => nomatch found

/-- Where an operation would leave the arrays nothing comes back. -/
theorem tracked_step (sized : Sized options) (before : Except Fault (Tree K V))
    (operation : Operation K V) (after : Except Fault (Tree K V)) (tracked : Tracked options before)
    (taken : step options before operation = some after) : Tracked options after := by
  cases before with
  | error fault => cases taken
  | ok tree =>
      obtain rfl := Option.some.inj taken
      by_cases admits : Admits options (.ok tree) operation
      · exact (perform_bounded sized (tracked tree rfl) operation admits).meets
      · intro other same
        rw [perform_overflows sized (tracked tree rfl) admits] at same
        cases same

theorem in_bounds_iff (sized : Sized options) (bounded : Bounded options tree)
    (operation : Operation K V) :
    InBounds (perform options tree operation) ↔ Admits options (.ok tree) operation := by
  constructor
  · intro inBounds
    by_contra crowded
    exact inBounds (perform_overflows sized bounded crowded)
  · exact fun admits => (perform_bounded sized bounded operation admits).clear

omit [Inhabited K] in
/-- Leaves that can be split, and internal pages with a slot to spare, have room for everything. -/
theorem spare_slot_admits (sized : Sized options) (leafSize : 2 ≤ options.leafMaxSize)
    (spare : options.internalMaxSize < options.INTERNAL_PAGE_SLOT_CNT)
    (bounded : Bounded options tree) (key : K) :
    HasRoom options tree key := by
  have slots := sized.leafSlots
  have many := many_slots sized
  unfold HasRoom
  cases tree.rootPageId with
  | none => exact Nat.lt_of_lt_of_le Nat.zero_lt_two (leafSize.trans slots)
  | some root =>
      intro path pid leaf down _
      have found :=
        (descends tree (fun page => page.childFor key) tree.depthBound root []).meets _ down
      constructor
      · exact ((leaf_fits bounded found).below leafSize).trans_le slots
      · intro _ parent node _ there
        have entries := (node_fits bounded there).entries
        rw [InternalPage.getSize]
        omega

theorem spare_slot_stays_in_bounds (sized : Sized options) (leafSize : 2 ≤ options.leafMaxSize)
    (spare : options.internalMaxSize < options.INTERNAL_PAGE_SLOT_CNT)
    (operations : List (Operation K V)) :
    TransitionSystem.Along (TransitionSystem.graph (step options)) InBounds
      (.ok {}) operations := by
  intro front back state _ run
  have keeps (before : Except Fault (Tree K V)) (operation : Operation K V)
    (after : Except Fault (Tree K V))
    (both : InBounds before ∧ Tracked options before)
      (taken : step options before operation = some after) :
    InBounds after ∧ Tracked options after := by
    obtain ⟨-, tracked⟩ := both
    refine ⟨?_, tracked_step sized before operation after tracked taken⟩
    cases before with
    | error fault => cases taken
    | ok tree =>
        obtain rfl := Option.some.inj taken
        apply (in_bounds_iff sized (tracked tree rfl) operation).mpr
        cases operation with
        | insert key value => exact spare_slot_admits sized leafSize spare (tracked tree rfl) key
        | remove key inBytes => trivial
  have start : InBounds (.ok ({} : Tree K V)) := by
    intro same
    cases same
  exact (TransitionSystem.run_preserves keeps run ⟨start, empty_tracked options⟩).1

/-- A run stays inside the arrays of the pages exactly as long as every insertion finds room. -/
theorem array_bounds_iff (sized : Sized options) {operations : List (Operation K V)}
    {last : Except Fault (Tree K V)}
    (run : TransitionSystem.Run (TransitionSystem.graph (step options)) (.ok {}) operations last) :
    TransitionSystem.Along (TransitionSystem.graph (step options)) InBounds (.ok {}) operations ↔
      TransitionSystem.Run
        (TransitionSystem.guarded (Admits options) (TransitionSystem.graph (step options)))
        (.ok {}) operations last := by
  have decides (before : Except Fault (Tree K V)) (operation : Operation K V)
    (after : Except Fault (Tree K V))
    (tracked : Tracked options before) (_ : InBounds before)
      (taken : step options before operation = some after) :
    InBounds after ↔ Admits options before operation := by
    cases before with
    | error fault => cases taken
    | ok tree =>
        obtain rfl := Option.some.inj taken
        exact in_bounds_iff sized (tracked tree rfl) operation
  apply TransitionSystem.along_guarded_iff (tracked_step sized) decides run (empty_tracked options)
  intro same
  cases same

end Runs

instance (options : Options) : Decidable (Sized options) :=
  decidable_of_iff (options.leafMaxSize ≤ options.LEAF_PAGE_SLOT_CNT ∧
    options.internalMaxSize ≤ options.INTERNAL_PAGE_SLOT_CNT ∧ options.keySize ≤ 64)
    ⟨fun sizes => ⟨sizes.1, sizes.2.1, sizes.2.2⟩, fun sized =>
      ⟨sized.leafSlots, sized.nodeSlots, sized.keySize⟩⟩

/-- Keys of 64 bytes: 113 entries in a leaf and 120 children in an internal page. -/
def longKeys : Options := ⟨113, 120, 64, 0⟩

theorem short_run_decided : ∃ last,
    TransitionSystem.Run (TransitionSystem.graph (step longKeys)) (.ok {})
      [.insert 2 20, .insert 1 10, .remove 2 false] last ∧
    (TransitionSystem.Along (TransitionSystem.graph (step longKeys)) InBounds
      (.ok ({} : Tree Nat Nat))
        [.insert 2 20, .insert 1 10, .remove 2 false] ↔
      TransitionSystem.Run
        (TransitionSystem.guarded (Admits longKeys) (TransitionSystem.graph (step longKeys)))
        (.ok {}) [.insert 2 20, .insert 1 10, .remove 2 false] last) :=
  ⟨_, TransitionSystem.run_of_fold rfl,
    array_bounds_iff (by decide) (TransitionSystem.run_of_fold rfl)⟩

/-- The smallest leaves, under an internal page that may have as many children as it has slots. -/
def smallLeaves : Options := ⟨2, 120, 64, 0⟩

def ascending (count : Nat) : List (Operation Nat Nat) := (List.range count).map fun key =>
    .insert key key

def leavesArrays (outcome : Option (Except Fault (Tree Nat Nat))) : Bool :=
  match outcome with
  | some (.error .slots) => true
  | _ => false

/-- The root has 120 children after 120 insertions, and the next one puts a child behind them. -/
theorem full_root_overflows : ¬∀ options, Sized options →
    ∀ (operations : List (Operation Nat Nat)) last, TransitionSystem.Run
      (TransitionSystem.graph (step options)) (.ok {}) operations last →
        TransitionSystem.Along (TransitionSystem.graph (step options)) InBounds
        (.ok {}) operations := by
  intro claim
  have overflows : leavesArrays ((ascending 121).foldlM (step smallLeaves) (.ok {})) = true := by
    decide +kernel
  have done : (ascending 121).foldlM (step smallLeaves) (.ok {}) = some (.error .slots) := by
    generalize (ascending 121).foldlM (step smallLeaves) (.ok {}) = outcome at overflows ⊢
    unfold leavesArrays at overflows
    split at overflows
    · rfl
    · cases overflows
  have run := TransitionSystem.run_of_fold done
  exact claim smallLeaves (by decide) (ascending 121) _ run _ [] _ (List.append_nil _).symm run rfl

end BusTub.PageBounds
