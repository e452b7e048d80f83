import BusTub.BPlusTree
import BusTub.TransitionSystem

/-!
Which calls of `Insert` and `Remove` stay inside the arrays of the pages. All that
has to be known of a tree is how large its pages are: nothing is said of keys, of
the shape of the tree or of what its pages are linked to. A run ends with the first
fault of another kind.
-/

namespace BusTub.PageBounds

section Calls
variable {ε α β : Type} {bad : ε} {post : α → Prop} {call : Except ε α}

/-- The call does not end with the error, and what it comes back with meets the condition. -/
structure Avoids (bad : ε) (post : α → Prop) (call : Except ε α) : Prop where
  clear : call ≠ .error bad
  meets : ∀ result, call = .ok result → post result

theorem avoids_ok {result : α} (holds : post result) :
    Avoids bad post (.ok result) := by
  constructor
  case clear =>
    intro same
    cases same
  case meets =>
    intro other same
    obtain rfl := Except.ok.inj same
    exact holds

theorem avoids_error {failure : ε} (other : failure ≠ bad) :
    Avoids bad post (.error failure) := by
  constructor
  case clear => exact fun same => other (Except.error.inj same)
  case meets =>
    intro result same
    cases same

theorem avoids_bind {middle : α → Prop} {post : β → Prop} {next : α → Except ε β}
    (first : Avoids bad middle call)
    (later : ∀ result, middle result → Avoids bad post (next result)) :
    Avoids bad post (call >>= next) := by
  cases call with
  | error failure => exact avoids_error fun same => first.clear (by rw [same])
  | ok result => exact later result (first.meets result rfl)

theorem ok_bind (result : α) (next : α → Except ε β) :
    (Except.ok result >>= next) = next result := rfl

theorem avoids_known (first : Avoids bad post call) :
    Avoids bad (fun result => call = .ok result ∧ post result) call where
  clear := first.clear
  meets := fun result same => ⟨same, first.meets result same⟩

end Calls

open BPlusTree

/-! ### Sizes -/

/-- The sizes that an index is opened with; the largest keys have 64 bytes. -/
structure Sized (options : Options) : Prop where
  leafSlots : options.leafMaxSize ≤ options.LEAF_PAGE_SLOT_CNT
  nodeSlots : options.internalMaxSize ≤ options.INTERNAL_PAGE_SLOT_CNT
  keySize : options.keySize ≤ 64

theorem many_slots {options : Options} (sized : Sized options) :
    120 ≤ options.INTERNAL_PAGE_SLOT_CNT := by
  unfold Options.INTERNAL_PAGE_SLOT_CNT BPlusTree.BUSTUB_PAGE_SIZE
  rw [Nat.le_div_iff_mul_le (by omega)]
  have := sized.keySize
  omega

structure LeafFits {K V : Type} (options : Options) (leaf : LeafPage K V) : Prop where
  maxSize : leaf.maxSize = options.leafMaxSize
  entries : leaf.entries.length ≤ options.LEAF_PAGE_SLOT_CNT
  below : 2 ≤ options.leafMaxSize → leaf.entries.length < options.leafMaxSize
  tombstones : leaf.tombstones.length ≤ options.LEAF_PAGE_TOMB_CNT

structure NodeFits {K : Type} (options : Options) (node : InternalPage K) : Prop where
  maxSize : node.maxSize = options.internalMaxSize
  entries : node.entries.length ≤ max 2 options.internalMaxSize

def PageFits {K V : Type} (options : Options) : Page K V → Prop
  | .inl leaf => LeafFits options leaf
  | .inr node => NodeFits options node

structure Bounded {K V : Type} (options : Options) (tree : Tree K V) : Prop where
  fresh : ∀ pid page, tree.pages pid = some page → pid < tree.nextPageId
  fits : ∀ pid page, tree.pages pid = some page → PageFits options page

section Pages
variable {K V : Type} {options : Options} {tree : Tree K V} {pid : PageId} {leaf : LeafPage K V}
  {node : InternalPage K} {page : Page K V}

theorem node_slots (sized : Sized options) (fits : NodeFits options node) :
    node.entries.length ≤ options.INTERNAL_PAGE_SLOT_CNT := by
  have := many_slots sized
  have := sized.nodeSlots
  have := fits.entries
  omega

theorem bounded_root (bounded : Bounded options tree) (root : Option PageId) :
    Bounded options { tree with rootPageId := root } := ⟨bounded.fresh, bounded.fits⟩

theorem bounded_new (bounded : Bounded options tree) : Bounded options tree.newPage.2 where
  fresh := by
    intro pid page found
    have := bounded.fresh pid page found
    change pid < tree.nextPageId + 1
    lia
  fits := bounded.fits

theorem bounded_set (bounded : Bounded options tree) (handedOut : pid < tree.nextPageId)
    (fits : PageFits options page) : Bounded options (tree.setPage pid page) := by
  constructor
  case fresh =>
    intro other found there
    by_cases same : other = pid
    · exact same ▸ handedOut
    · exact bounded.fresh other found (by simpa [same] using there)
  case fits =>
    intro other found there
    by_cases same : other = pid
    · obtain rfl : page = found := by simpa [same] using there
      exact fits
    · exact bounded.fits other found (by simpa [same] using there)

theorem bounded_delete (bounded : Bounded options tree) (pid : PageId) :
    Bounded options (tree.deletePage pid) := by
  have kept {other : PageId} {page : Page K V}
    (found : (tree.deletePage pid).pages other = some page) :
    tree.pages other = some page := by
    by_cases same : other = pid
    · subst same
      simp [Tree.deletePage] at found
    · simpa [Tree.deletePage, same] using found
  constructor
  case fresh => exact fun other page found => bounded.fresh other page (kept found)
  case fits => exact fun other page found => bounded.fits other page (kept found)

theorem bounded_deletes (bounded : Bounded options tree) (pids : List PageId) :
    Bounded options (tree.deletePages pids) := by
  induction pids generalizing tree with
  | nil => exact bounded
  | cons pid rest ih => exact ih (bounded_delete bounded pid)

/-! What the calls have that read and store pages. -/

theorem leaf_page (tree : Tree K V) (pid : PageId) :
    Avoids .slots (fun leaf => tree.pages pid = some (.inl leaf)) (tree.leafPage pid) := by
  unfold Tree.leafPage
  cases found : tree.pages pid with
  | none => exact avoids_error (by decide)
  | some page =>
      cases page with
      | inl leaf => exact avoids_ok rfl
      | inr node => exact avoids_error (by decide)

theorem internal_page (tree : Tree K V) (pid : PageId) :
    Avoids .slots (fun node => tree.pages pid = some (.inr node)) (tree.internalPage pid) := by
  unfold Tree.internalPage
  cases found : tree.pages pid with
  | none => exact avoids_error (by decide)
  | some page =>
      cases page with
      | inl leaf => exact avoids_error (by decide)
      | inr node => exact avoids_ok rfl

theorem put_leaf (bounded : Bounded options tree) (handedOut : pid < tree.nextPageId)
    (fits : LeafFits options leaf) :
    Avoids .slots (fun after => after = tree.setPage pid (.inl leaf) ∧ Bounded options after)
      (tree.putLeaf options pid leaf) := by
  rw [Tree.putLeaf, if_pos ⟨fits.entries, fits.tombstones⟩]
  exact avoids_ok ⟨rfl, bounded_set bounded handedOut fits⟩

theorem put_internal (sized : Sized options) (bounded : Bounded options tree)
    (handedOut : pid < tree.nextPageId) (fits : NodeFits options node) :
    Avoids .slots (fun after => after = tree.setPage pid (.inr node) ∧ Bounded options after)
      (tree.putInternal options pid node) := by
  rw [Tree.putInternal, if_pos (node_slots sized fits)]
  exact avoids_ok ⟨rfl, bounded_set bounded handedOut fits⟩

theorem descends (tree : Tree K V) (search : InternalPage K → Option PageId) (fuel : Nat)
    (root : PageId)
    (path : List PageId) : Avoids .slots (fun found => tree.pages found.2.1 = some (.inl found.2.2))
      (tree.descend search fuel root path) := by
  induction fuel generalizing root path with
  | zero => exact avoids_error (by decide)
  | succ fuel ih =>
      unfold Tree.descend
      cases found : tree.pages root with
      | none => exact avoids_error (by decide)
      | some page =>
          cases page with
          | inl leaf => exact avoids_ok found
          | inr node =>
              cases goes : search node with
              | none =>
                  simp only [goes]
                  exact avoids_error (by decide)
              | some child =>
                  simp only [goes]
                  exact ih child (root :: path)

end Pages

section Removals
variable {K V : Type} {options : Options} {tree : Tree K V} {node parent : PageId}
  {parentPage : InternalPage K} {index place : Nat} {writeSet : List PageId} {pid : PageId}
  {page : Page K V} {leaf : LeafPage K V}

def Meagre : Page K V → Prop
  | .inl leaf => leaf.getSize ≤ leaf.getMinSize
  | .inr internal => internal.getSize ≤ internal.getMinSize

def Declines (tree : Tree K V) (parentPage : InternalPage K) (place : Nat) : Prop :=
  ∀ pid, Tree.childAt parentPage place = .ok pid → ∀ page, tree.pages pid = some page → Meagre page

def Borrowed (options : Options) (tree : Tree K V) (parentPage : InternalPage K) (place : Nat) :
    Option (Tree K V) → Prop
  | some after => Bounded options after
  | none => Declines tree parentPage place

theorem handed_out (bounded : Bounded options tree) {pid : PageId}
    (found : tree.pages pid = some page) : pid < tree.nextPageId := bounded.fresh pid page found

theorem leaf_fits (bounded : Bounded options tree)
    (found : tree.pages pid = some (.inl leaf)) : LeafFits options leaf :=
  bounded.fits pid (.inl leaf) found

theorem node_fits (bounded : Bounded options tree) {page : InternalPage K}
    (found : tree.pages pid = some (.inr page)) : NodeFits options page :=
  bounded.fits pid (.inr page) found

theorem same_leaf {leaf other : LeafPage K V} (found : tree.pages pid = some (.inl leaf))
    (again : tree.pages pid = some (.inl other)) : leaf = other :=
  Sum.inl.inj (Option.some.inj (found.symm.trans again))

theorem same_node {page other : InternalPage K} (found : tree.pages pid = some (.inr page))
    (again : tree.pages pid = some (.inr other)) : page = other :=
  Sum.inr.inj (Option.some.inj (found.symm.trans again))

theorem rekeyed_fits (fits : NodeFits options parentPage) (key : K) :
    NodeFits options (parentPage.setKeyAt place key) where
  maxSize := fits.maxSize
  entries := (List.length_modify _ _ _).trans_le fits.entries

theorem taken_fits (fits : NodeFits options parentPage) :
    NodeFits options (parentPage.removeAt place) where
  maxSize := fits.maxSize
  entries := (List.length_eraseIdx_le _ _).trans fits.entries

theorem child_at (page : InternalPage K) (place : Nat) :
    Avoids .slots (fun pid => Tree.childAt page place = .ok pid) (Tree.childAt page place) := by
  unfold Tree.childAt
  cases page.valueAt place with
  | none => exact avoids_error (by decide)
  | some pid => exact avoids_ok rfl

theorem write_page (writeSet : List PageId) (pid : PageId) :
    Avoids .slots (fun _ => True) (Tree.writePage writeSet pid) := by
  unfold Tree.writePage
  split
  · exact avoids_error (by decide)
  · exact avoids_ok trivial

theorem first_key (page : LeafPage K V) : Avoids .slots (fun _ => True) (Tree.firstKey page) := by
  unfold Tree.firstKey
  split
  · exact avoids_ok trivial
  · exact avoids_error (by decide)

theorem key_at (page : InternalPage K) (place : Nat) :
    Avoids .slots (fun _ => True) (Tree.keyAt page place) := by
  unfold Tree.keyAt
  split
  · exact avoids_ok trivial
  · exact avoids_error (by decide)

theorem shorter_fits {leaf shorter : LeafPage K V} (fits : LeafFits options leaf)
    (sameMax : shorter.maxSize = leaf.maxSize)
    (fewer : shorter.entries.length ≤ leaf.entries.length)
    (tombstones : shorter.tombstones.length ≤ leaf.tombstones.length) :
    LeafFits options shorter where
  maxSize := sameMax.trans fits.maxSize
  entries := fewer.trans fits.entries
  below := fun two => fewer.trans_lt (fits.below two)
  tombstones := tombstones.trans fits.tombstones

theorem longer_fits {leaf longer : LeafPage K V} (sized : Sized options)
    (fits : LeafFits options leaf) (small : leaf.getSize < leaf.getMinSize)
    (sameMax : longer.maxSize = leaf.maxSize)
    (grown : longer.entries.length ≤ leaf.entries.length + 1)
    (tombstones : longer.tombstones = leaf.tombstones) :
    LeafFits options longer := by
  have slots := sized.leafSlots
  have max := fits.maxSize
  simp only [LeafPage.getSize, LeafPage.getMinSize] at small
  constructor
  case maxSize => exact sameMax.trans fits.maxSize
  case entries => omega
  case below => omega
  case tombstones => exact tombstones ▸ fits.tombstones

theorem declines (sibling : Tree.childAt parentPage place = .ok pid)
    (found : tree.pages pid = some page) (meagre : Meagre page) :
    Declines tree parentPage place := by
  intro other same another there
  obtain rfl := Except.ok.inj (sibling.symm.trans same)
  obtain rfl := Option.some.inj (found.symm.trans there)
  exact meagre

section Borrowing
variable {sibling : PageId} {current : LeafPage K V}

/-- The end of a round that has borrowed an entry for a leaf. -/
theorem lend_entry {lender current : LeafPage K V} (sized : Sized options)
    (bounded : Bounded options tree) (siblingThere : sibling < tree.nextPageId)
    (nodeThere : node < tree.nextPageId) (parentFound : tree.pages parent = some (.inr parentPage))
    (shorter : LeafFits options lender) (longer : LeafFits options current) (keyed : LeafPage K V)
    (slot : Nat) :
    Avoids .slots (Borrowed options tree parentPage place) (do
      let tree ← tree.putLeaf options sibling lender
      let tree ← tree.putLeaf options node current
      let key ← Tree.firstKey keyed
      let tree ← tree.putInternal options parent (parentPage.setKeyAt slot key)
      .ok (some tree)) := by
  have parentThere := handed_out bounded parentFound
  have parentFits := node_fits bounded parentFound
  refine avoids_bind (put_leaf bounded siblingThere shorter) ?_
  rintro _ ⟨rfl, once⟩
  refine avoids_bind (put_leaf once nodeThere longer) ?_
  rintro _ ⟨rfl, twice⟩
  refine avoids_bind (first_key keyed) fun key _ => ?_
  refine avoids_bind (put_internal sized twice parentThere (rekeyed_fits parentFits key)) ?_
  rintro after ⟨-, done⟩
  exact avoids_ok done

/-- The end of a round that has borrowed a child for an internal page. -/
theorem lend_child {lender current : InternalPage K} (sized : Sized options)
    (bounded : Bounded options tree) (siblingThere : sibling < tree.nextPageId)
    (nodeThere : node < tree.nextPageId) (parentFound : tree.pages parent = some (.inr parentPage))
    (shorter : NodeFits options lender) (longer : NodeFits options current) (slot : Nat) (key : K) :
    Avoids .slots (Borrowed options tree parentPage place) (do
      let tree ← tree.putInternal options sibling lender
      let tree ← tree.putInternal options node current
      let tree ← tree.putInternal options parent (parentPage.setKeyAt slot key)
      .ok (some tree)) := by
  have parentThere := handed_out bounded parentFound
  have parentFits := node_fits bounded parentFound
  refine avoids_bind (put_internal sized bounded siblingThere shorter) ?_
  rintro _ ⟨rfl, once⟩
  refine avoids_bind (put_internal sized once nodeThere longer) ?_
  rintro _ ⟨rfl, twice⟩
  refine avoids_bind (put_internal sized twice parentThere (rekeyed_fits parentFits key)) ?_
  rintro after ⟨-, done⟩
  exact avoids_ok done

theorem borrow_left_leaf (sized : Sized options) (bounded : Bounded options tree)
    (parentFound : tree.pages parent = some (.inr parentPage))
    (found : tree.pages node = some (.inl current)) (small : current.getSize < current.getMinSize) :
    Avoids .slots (Borrowed options tree parentPage (index - 1))
      (Tree.borrowLeftLeaf options writeSet tree node parent index) := by
  unfold Tree.borrowLeftLeaf
  refine avoids_bind (internal_page tree parent) fun page again => ?_
  obtain rfl := same_node parentFound again
  refine avoids_bind (child_at parentPage (index - 1)) fun leftPid sibling => ?_
  refine avoids_bind (write_page writeSet leftPid) fun _ _ => ?_
  refine avoids_bind (leaf_page tree leftPid) fun left leftFound => ?_
  refine avoids_bind (leaf_page tree node) fun page again => ?_
  obtain rfl := same_leaf found again
  have leftFits := leaf_fits bounded leftFound
  have fits := leaf_fits bounded found
  split
  case isTrue meagre =>
    exact avoids_ok (declines sibling leftFound meagre)
  case isFalse lends =>
    have one : left.entries.getLast?.toList.length ≤ 1 := Option.length_toList_le
    have shorter : LeafFits options (left.moveLastToFrontOf current).1 :=
      shorter_fits leftFits rfl (List.length_dropLast.trans_le (Nat.sub_le _ 1)) (le_refl _)
    have grown : (left.moveLastToFrontOf current).2.entries.length ≤
        current.entries.length + 1 := by
      simp only [LeafPage.moveLastToFrontOf, List.length_append]
      omega
    have longer : LeafFits options (left.moveLastToFrontOf current).2 :=
      longer_fits sized fits small rfl grown rfl
    exact lend_entry sized bounded (handed_out bounded leftFound) (handed_out bounded found)
      parentFound shorter
      longer _ index

theorem borrow_right_leaf (sized : Sized options) (bounded : Bounded options tree)
    (parentFound : tree.pages parent = some (.inr parentPage))
    (found : tree.pages node = some (.inl current)) (small : current.getSize < current.getMinSize) :
    Avoids .slots (Borrowed options tree parentPage (index + 1))
      (Tree.borrowRightLeaf options writeSet tree node parent index) := by
  unfold Tree.borrowRightLeaf
  refine avoids_bind (internal_page tree parent) fun page again => ?_
  obtain rfl := same_node parentFound again
  refine avoids_bind (child_at parentPage (index + 1)) fun rightPid sibling => ?_
  refine avoids_bind (write_page writeSet rightPid) fun _ _ => ?_
  refine avoids_bind (leaf_page tree rightPid) fun right rightFound => ?_
  refine avoids_bind (leaf_page tree node) fun page again => ?_
  obtain rfl := same_leaf found again
  have rightFits := leaf_fits bounded rightFound
  have fits := leaf_fits bounded found
  split
  case isTrue meagre => exact avoids_ok (declines sibling rightFound meagre)
  case isFalse lends =>
    have one : right.entries.head?.toList.length ≤ 1 := Option.length_toList_le
    have shorter : LeafFits options (right.moveFirstToEndOf current).1 :=
      shorter_fits rightFits rfl (List.length_tail.trans_le (Nat.sub_le _ 1)) (le_refl _)
    have grown : (right.moveFirstToEndOf current).2.entries.length ≤
        current.entries.length + 1 := by
      simp only [LeafPage.moveFirstToEndOf, List.length_append]
      omega
    have longer : LeafFits options (right.moveFirstToEndOf current).2 :=
      longer_fits sized fits small rfl grown rfl
    exact lend_entry sized bounded (handed_out bounded rightFound) (handed_out bounded found)
      parentFound shorter
      longer _ (index + 1)

theorem grown_fits {current longer : InternalPage K} (fits : NodeFits options current)
    (small : current.getSize < current.getMinSize) (maxSize : longer.maxSize = current.maxSize)
    (grown : longer.entries.length ≤ current.entries.length + 1) : NodeFits options longer := by
  refine ⟨maxSize.trans fits.maxSize, ?_⟩
  have := fits.maxSize
  simp only [InternalPage.getSize, InternalPage.getMinSize] at small
  omega

theorem last_child_lent [Inhabited K] (lender current : InternalPage K) (middleKey : K) :
    (lender.moveLastToFrontOf current middleKey).1.maxSize = lender.maxSize ∧
      (lender.moveLastToFrontOf current middleKey).1.entries.length ≤ lender.entries.length ∧
      (lender.moveLastToFrontOf current middleKey).2.1.maxSize = current.maxSize ∧
      (lender.moveLastToFrontOf current middleKey).2.1.entries.length ≤
        current.entries.length + 1 := by
  unfold InternalPage.moveLastToFrontOf
  cases lender.entries.getLast? with
  | none => simp
  | some entry => cases list : current.entries <;> simp

theorem first_child_lent [Inhabited K] (lender current : InternalPage K) (middleKey : K) :
    (lender.moveFirstToEndOf current middleKey).1.maxSize = lender.maxSize ∧
      (lender.moveFirstToEndOf current middleKey).1.entries.length ≤ lender.entries.length ∧
      (lender.moveFirstToEndOf current middleKey).2.1.maxSize = current.maxSize ∧
      (lender.moveFirstToEndOf current middleKey).2.1.entries.length ≤
        current.entries.length + 1 := by
  unfold InternalPage.moveFirstToEndOf
  split
  · simp
  · simp
  · simp_all

theorem borrow_left_internal [Inhabited K] (sized : Sized options) (bounded : Bounded options tree)
    (parentFound : tree.pages parent = some (.inr parentPage)) {current : InternalPage K}
    (found : tree.pages node = some (.inr current)) (small : current.getSize < current.getMinSize) :
    Avoids .slots (Borrowed options tree parentPage (index - 1))
      (Tree.borrowLeftInternal options writeSet tree node parent index) := by
  unfold Tree.borrowLeftInternal
  refine avoids_bind (internal_page tree parent) fun page again => ?_
  obtain rfl := same_node parentFound again
  refine avoids_bind (child_at parentPage (index - 1)) fun leftPid sibling => ?_
  refine avoids_bind (write_page writeSet leftPid) fun _ _ => ?_
  refine avoids_bind (internal_page tree leftPid) fun left leftFound => ?_
  refine avoids_bind (internal_page tree node) fun page again => ?_
  obtain rfl := same_node found again
  have leftFits := node_fits bounded leftFound
  have fits := node_fits bounded found
  split
  case isTrue meagre => exact avoids_ok (declines sibling leftFound meagre)
  case isFalse lends =>
    refine avoids_bind (key_at parentPage index) fun middleKey _ => ?_
    obtain ⟨sameMax, fewer, otherMax, more⟩ := last_child_lent left current middleKey
    exact lend_child sized bounded (handed_out bounded leftFound)
      (handed_out bounded found) parentFound
      ⟨sameMax.trans leftFits.maxSize, fewer.trans leftFits.entries⟩
        (grown_fits fits small otherMax more) index _

theorem borrow_right_internal [Inhabited K] (sized : Sized options) (bounded : Bounded options tree)
    (parentFound : tree.pages parent = some (.inr parentPage)) {current : InternalPage K}
    (found : tree.pages node = some (.inr current)) (small : current.getSize < current.getMinSize) :
    Avoids .slots (Borrowed options tree parentPage (index + 1))
      (Tree.borrowRightInternal options writeSet tree node parent index) := by
  unfold Tree.borrowRightInternal
  refine avoids_bind (internal_page tree parent) fun page again => ?_
  obtain rfl := same_node parentFound again
  refine avoids_bind (child_at parentPage (index + 1)) fun rightPid sibling => ?_
  refine avoids_bind (write_page writeSet rightPid) fun _ _ => ?_
  refine avoids_bind (internal_page tree rightPid) fun right rightFound => ?_
  refine avoids_bind (internal_page tree node) fun page again => ?_
  obtain rfl := same_node found again
  have rightFits := node_fits bounded rightFound
  have fits := node_fits bounded found
  split
  case isTrue meagre => exact avoids_ok (declines sibling rightFound meagre)
  case isFalse lends =>
    refine avoids_bind (key_at parentPage (index + 1)) fun middleKey _ => ?_
    obtain ⟨sameMax, fewer, otherMax, more⟩ := first_child_lent right current middleKey
    exact lend_child sized bounded (handed_out bounded rightFound)
      (handed_out bounded found) parentFound
      ⟨sameMax.trans rightFits.maxSize, fewer.trans rightFits.entries⟩
        (grown_fits fits small otherMax more)
      (index + 1) _

end Borrowing

section Merging
variable {leftPid rightPid : PageId} {rightIndex : Nat} {page : Page K V}

def Together (options : Options) : Page K V → Page K V → Prop
  | .inl left, .inl right => left.entries.length + right.entries.length < options.leafMaxSize
  | .inr left, .inr right => left.entries.length + right.entries.length ≤ options.internalMaxSize
  | _, _ => True

theorem small_with_meagre {small meagre : Page K V} (fits : PageFits options small)
    (others : PageFits options meagre) (isSmall : Tree.isSmall small = true)
    (lendsNothing : Meagre meagre) :
    Together options small meagre ∧ Together options meagre small := by
  cases small with
  | inl first =>
      cases meagre with
      | inl second =>
          have less := of_decide_eq_true isSmall
          have := fits.maxSize
          have := others.maxSize
          simp only [Meagre, LeafPage.getSize, LeafPage.getMinSize] at less lendsNothing
          simp only [Together]
          omega
      | inr second => exact ⟨trivial, trivial⟩
  | inr first =>
      cases meagre with
      | inl second => exact ⟨trivial, trivial⟩
      | inr second =>
          have less := of_decide_eq_true isSmall
          have := fits.maxSize
          have := others.maxSize
          simp only [Meagre, InternalPage.getSize, InternalPage.getMinSize] at less lendsNothing
          simp only [Together]
          omega

def Mergeable (options : Options) (tree : Tree K V) (leftPid rightPid : PageId) : Prop :=
  ∀ left right, tree.pages leftPid = some left → tree.pages rightPid = some right →
    Together options left right

theorem merge_leaves (sized : Sized options) (bounded : Bounded options tree)
    (mergeable : Mergeable options tree leftPid rightPid) :
    Avoids .slots (fun result => Bounded options result.1)
      (Tree.mergeLeaves options tree parent leftPid rightPid rightIndex) := by
  unfold Tree.mergeLeaves
  refine avoids_bind (internal_page tree parent) fun parentPage parentFound => ?_
  refine avoids_bind (leaf_page tree leftPid) fun left leftFound => ?_
  refine avoids_bind (leaf_page tree rightPid) fun right rightFound => ?_
  have leftFits := leaf_fits bounded leftFound
  have rightFits := leaf_fits bounded rightFound
  have together := mergeable _ _ leftFound rightFound
  have longer : LeafFits options (right.moveAllTo left) := by
    have fewer : (right.moveAllTo left).entries.length < options.leafMaxSize :=
      List.length_append.trans_lt together
    exact ⟨leftFits.maxSize, fewer.le.trans sized.leafSlots, fun _ => fewer, leftFits.tombstones⟩
  refine avoids_bind (put_leaf bounded (handed_out bounded leftFound) longer) ?_
  rintro _ ⟨rfl, once⟩
  have empty : LeafFits options ({ right with entries := [] } : LeafPage K V) :=
    shorter_fits rightFits rfl (Nat.zero_le _) (le_refl _)
  refine avoids_bind (put_leaf once (handed_out bounded rightFound) empty) ?_
  rintro _ ⟨rfl, twice⟩
  have parentThere := handed_out bounded parentFound
  refine avoids_bind
    (put_internal sized twice parentThere (taken_fits (node_fits bounded parentFound))) ?_
  rintro after ⟨-, done⟩
  exact avoids_ok done

theorem merge_internals [Inhabited K] (sized : Sized options) (bounded : Bounded options tree)
    (mergeable : Mergeable options tree leftPid rightPid) :
    Avoids .slots (fun result => Bounded options result.1)
      (Tree.mergeInternals options tree parent leftPid rightPid rightIndex) := by
  unfold Tree.mergeInternals
  refine avoids_bind (internal_page tree parent) fun parentPage parentFound => ?_
  refine avoids_bind (internal_page tree leftPid) fun left leftFound => ?_
  refine avoids_bind (internal_page tree rightPid) fun right rightFound => ?_
  refine avoids_bind (key_at parentPage rightIndex) fun middleKey _ => ?_
  have parentThere := handed_out bounded parentFound
  have parentFits := node_fits bounded parentFound
  have leftFits := node_fits bounded leftFound
  have rightFits := node_fits bounded rightFound
  have together := mergeable _ _ leftFound rightFound
  have taken {after : Tree K V} (handedOut : after.nextPageId = tree.nextPageId)
    (kept : Bounded options after) :
    Avoids .slots (fun result => Bounded options result.1) (do
      let tree ← after.putInternal options parent (parentPage.removeAt rightIndex)
      .ok (tree, rightPid)) := by
    refine avoids_bind (put_internal sized kept (handedOut ▸ parentThere) (taken_fits parentFits))
      ?_
    rintro after ⟨-, done⟩
    exact avoids_ok done
  split
  case isTrue => exact taken rfl bounded
  case isFalse =>
    have longer : NodeFits options (right.moveAllTo left middleKey) := by
      refine ⟨leftFits.maxSize, ?_⟩
      rw [InternalPage.moveAllTo, List.length_append, List.length_modifyHead]
      exact Nat.le_trans together (Nat.le_max_right 2 _)
    refine avoids_bind (put_internal sized bounded (handed_out bounded leftFound) longer) ?_
    rintro _ ⟨rfl, once⟩
    have empty : NodeFits options ({ right with entries := [] } : InternalPage K) :=
      ⟨rightFits.maxSize, Nat.zero_le _⟩
    refine avoids_bind (put_internal sized once (handed_out bounded rightFound) empty) ?_
    rintro _ ⟨rfl, twice⟩
    exact taken rfl twice

theorem remove_alone (sized : Sized options) (bounded : Bounded options tree) :
    Avoids .slots (fun result => Bounded options result.1)
      (Tree.removeAlone options tree node parent index) := by
  unfold Tree.removeAlone
  refine avoids_bind (internal_page tree parent) fun parentPage parentFound => ?_
  have parentFits := node_fits bounded parentFound
  refine avoids_bind
    (put_internal sized bounded (handed_out bounded parentFound) (taken_fits parentFits)) ?_
  rintro after ⟨-, done⟩
  exact avoids_ok done

/-- A round for either kind of page, given its ways to borrow and to merge. -/
theorem repair_node (sized : Sized options) (bounded : Bounded options tree)
    (found : tree.pages node = some page) (small : Tree.isSmall page = true)
    {borrowLeft borrowRight : Except Fault (Option (Tree K V))}
    {merge : PageId → PageId → Nat → Except Fault (Tree K V × PageId)}
    (fromLeft : Avoids .slots (Borrowed options tree parentPage (index - 1)) borrowLeft)
    (fromRight : Avoids .slots (Borrowed options tree parentPage (index + 1)) borrowRight)
    (merges : ∀ leftPid rightPid rightIndex, Mergeable options tree leftPid rightPid →
      Avoids .slots (fun result => Bounded options result.1) (merge leftPid rightPid rightIndex)) :
    Avoids .slots (fun result => Bounded options result.1)
      (Tree.repairNode options tree node parent index borrowLeft borrowRight merge parentPage) := by
  have pageFits := bounded.fits node page found
  have toLeft (declined : Declines tree parentPage (index - 1)) :
    Avoids .slots (fun result => Bounded options result.1)
      (Tree.childAt parentPage (index - 1) >>= fun leftPid => merge leftPid node index) := by
    refine avoids_bind (child_at parentPage (index - 1)) fun leftPid sibling => ?_
    apply merges
    intro left right leftFound rightFound
    obtain rfl := Option.some.inj (found.symm.trans rightFound)
    have meagre := declined leftPid sibling left leftFound
    exact (small_with_meagre pageFits (bounded.fits leftPid left leftFound) small meagre).2
  have fromNext (declined : Declines tree parentPage (index + 1)) :
      Avoids .slots (fun result => Bounded options result.1)
        (Tree.childAt parentPage (index + 1) >>= fun rightPid =>
          merge node rightPid (index + 1)) := by
    refine avoids_bind (child_at parentPage (index + 1)) fun rightPid sibling => ?_
    apply merges
    intro left right leftFound rightFound
    obtain rfl := Option.some.inj (found.symm.trans leftFound)
    have meagre := declined rightPid sibling right rightFound
    exact (small_with_meagre pageFits (bounded.fits rightPid right rightFound) small meagre).1
  have tagged {call : Except Fault (Tree K V × PageId)}
      (called : Avoids .slots (fun result => Bounded options result.1) call) :
      Avoids .slots (fun result : Tree K V × Option PageId => Bounded options result.1)
        (call >>= fun result => .ok (result.1, some result.2)) := avoids_bind called fun _ kept =>
          avoids_ok kept
  unfold Tree.repairNode
  by_cases hasLeft : 0 < index
  · simp only [hasLeft, if_true]
    refine avoids_bind fromLeft fun result declinedLeft => ?_
    cases result with
    | some after => exact avoids_ok declinedLeft
    | none =>
        have merged := tagged (toLeft declinedLeft)
        rw [bind_assoc] at merged
        by_cases hasRight : index + 1 < parentPage.getSize
        · simp only [hasRight, if_true]
          refine avoids_bind fromRight fun result declinedRight => ?_
          cases result with
          | some after => exact avoids_ok declinedRight
          | none => exact merged
        · simp only [hasRight, if_false]
          exact merged
  · simp only [hasLeft, if_false, ok_bind]
    by_cases hasRight : index + 1 < parentPage.getSize
    · simp only [hasRight, if_true]
      refine avoids_bind fromRight fun result declinedRight => ?_
      cases result with
      | some after => exact avoids_ok declinedRight
      | none =>
          have merged := tagged (fromNext declinedRight)
          rw [bind_assoc] at merged
          exact merged
    · simp only [hasRight, if_false]
      exact tagged (remove_alone sized bounded)

theorem repair_page [Inhabited K] (sized : Sized options) (bounded : Bounded options tree)
    (parentFound : tree.pages parent = some (.inr parentPage)) (found : tree.pages node = some page)
    (small : Tree.isSmall page = true) :
    Avoids .slots (fun result => Bounded options result.1)
      (Tree.repairPage options writeSet tree node parent index parentPage page) := by
  cases page with
  | inl current =>
      have less := of_decide_eq_true small
      exact repair_node sized bounded found small
        (borrow_left_leaf sized bounded parentFound found less)
        (borrow_right_leaf sized bounded parentFound found less) fun _ _ _ =>
          merge_leaves sized bounded
  | inr current =>
      have less := of_decide_eq_true small
      exact repair_node sized bounded found small
        (borrow_left_internal sized bounded parentFound found less)
        (borrow_right_internal sized bounded parentFound found less) fun _ _ _ =>
          merge_internals sized bounded

theorem repair_loop [Inhabited K] (sized : Sized options) (bounded : Bounded options tree)
    (doomed path : List PageId) :
    Avoids .slots (fun result => Bounded options result.1)
      (Tree.repair options writeSet tree doomed path) := by
  induction path generalizing tree doomed with
  | nil => exact avoids_ok bounded
  | cons node rest ih =>
      cases rest with
      | nil => exact avoids_ok bounded
      | cons parent upper =>
          unfold Tree.repair
          cases found : tree.pages node with
          | none => exact avoids_error (by decide)
          | some page =>
              dsimp only
              split
              case isFalse => exact avoids_ok bounded
              case isTrue small =>
                refine avoids_bind (internal_page tree parent) fun parentPage parentFound => ?_
                cases parentPage.valueIndex node with
                | none => exact avoids_error (by decide)
                | some index =>
                    refine avoids_bind (repair_page sized bounded parentFound found small) ?_
                    rintro ⟨after, gone⟩ kept
                    cases gone with
                    | none => exact avoids_ok kept
                    | some pid => exact ih kept (doomed ++ [pid])

end Merging

theorem shrink_root (bounded : Bounded options tree) (root : PageId) :
    Avoids .slots (fun result => Bounded options result.1) (tree.shrinkRoot root) := by
  unfold Tree.shrinkRoot
  cases found : tree.pages root with
  | none => exact avoids_error (by decide)
  | some page =>
      cases page with
      | inl leaf => exact avoids_ok bounded
      | inr page =>
          dsimp only
          split
          · exact avoids_ok (bounded_root bounded _)
          · exact avoids_ok (bounded_root bounded none)
          · exact avoids_ok bounded

theorem shrink_loop (bounded : Bounded options tree) (fuel : Nat) :
    Avoids .slots (Bounded options) (tree.shrinkLoop fuel) := by
  induction fuel generalizing tree with
  | zero => exact avoids_error (by decide)
  | succ fuel ih =>
      have without (root : Option PageId) (gone : PageId) :
          Bounded options ({ tree with rootPageId := root }.deletePage gone) :=
        bounded_delete (bounded_root bounded root) gone
      unfold Tree.shrinkLoop
      cases tree.rootPageId with
      | none => exact avoids_ok bounded
      | some root =>
          dsimp only
          cases tree.pages root with
          | none => exact avoids_error (by decide)
          | some page =>
              cases page with
              | inl leaf =>
                  dsimp only
                  split
                  · exact avoids_ok (without none root)
                  · exact avoids_ok bounded
              | inr page =>
                  dsimp only
                  split
                  · exact avoids_ok (without none root)
                  · exact ih (without _ root)
                  · exact avoids_ok bounded

theorem remove_underflow [Inhabited K] (sized : Sized options) (bounded : Bounded options tree)
    (writeSet : List PageId) :
    Avoids .slots (Bounded options) (tree.removeUnderflow options writeSet) := by
  unfold Tree.removeUnderflow
  refine avoids_bind (repair_loop sized bounded [] writeSet) ?_
  rintro ⟨repaired, doomed⟩ kept
  cases writeSet.getLast? with
  | none => exact avoids_error (by decide)
  | some front =>
      refine avoids_bind (shrink_root kept front) ?_
      rintro ⟨shrunk, rest⟩ kept
      exact shrink_loop (bounded_deletes kept _) _

theorem update_ancestors (sized : Sized options) (bounded : Bounded options tree) (inBytes : Bool)
    (child : PageId) (key : K) (writeSet : List PageId) :
    Avoids .slots (fun result => Bounded options result.1)
      (tree.updateAncestorMinKey options inBytes child key writeSet) := by
  induction writeSet generalizing child with
  | nil => exact avoids_ok bounded
  | cons top rest ih =>
      unfold Tree.updateAncestorMinKey
      cases found : tree.pages top with
      | none => exact avoids_error (by decide)
      | some page =>
          cases page with
          | inl leaf =>
              dsimp only
              split
              · exact avoids_error (by decide)
              · exact ih top
          | inr parent =>
              dsimp only
              split
              · refine avoids_bind (put_internal sized bounded (handed_out bounded found)
                  (rekeyed_fits (node_fits bounded found) key)) ?_
                rintro after ⟨-, done⟩
                exact avoids_ok done
              · exact ih top

variable [LinearOrder K]

/-- A removal from a leaf adds a tombstone only where there is room for one. -/
theorem removed_fits (fits : LeafFits options leaf) (key : K) :
    LeafFits options (leaf.remove options.LEAF_PAGE_TOMB_CNT key).2 := by
  unfold LeafPage.remove
  cases leaf.entries.findIdx? fun entry => entry.1 = key with
  | none => exact fits
  | some index =>
      dsimp only
      split
      · exact fits
      · split
        case isTrue =>
          have fewer : (leaf.removeAt index).tombstones.length ≤ leaf.tombstones.length := by
            rw [LeafPage.removeAt, List.length_map]
            exact List.length_filter_le _ _
          exact @shorter_fits K V options leaf (leaf.removeAt index) fits rfl
            (List.length_eraseIdx_le _ _) fewer
        case isFalse room =>
          refine ⟨fits.maxSize, fits.entries, fits.below, ?_⟩
          rw [List.length_append, List.length_singleton]
          omega

theorem try_optimistic_remove (bounded : Bounded options tree) (key : K) :
    Avoids .slots (fun result => ∀ after, result = some after → Bounded options after)
      (tree.tryOptimisticRemove options key) := by
  have nothing : ∀ after, (none : Option (Tree K V)) = some after → Bounded options after := by simp
  unfold Tree.tryOptimisticRemove
  cases tree.rootPageId with
  | none => exact avoids_ok nothing
  | some root =>
      dsimp only
      refine avoids_bind (descends tree _ _ root []) ?_
      rintro ⟨path, pid, leaf⟩ found
      dsimp only
      split
      case isTrue => exact avoids_ok nothing
      case isFalse =>
        have fits := removed_fits (leaf_fits bounded found) key
        cases removal : leaf.remove options.LEAF_PAGE_TOMB_CNT key with
        | mk removed smaller =>
            rw [removal] at fits
            cases removed with
            | false => exact avoids_ok nothing
            | true =>
                refine avoids_bind (put_leaf bounded (handed_out bounded found) fits) ?_
                rintro after ⟨-, done⟩
                exact avoids_ok fun other same => Option.some.inj same ▸ done

theorem remove_pessimistic [Inhabited K] (sized : Sized options) (bounded : Bounded options tree)
    (inBytes : Bool)
    (key : K) : Avoids .slots (Bounded options) (tree.removePessimistic options inBytes key) := by
  unfold Tree.removePessimistic
  cases tree.rootPageId with
  | none => exact avoids_ok bounded
  | some root =>
      dsimp only
      refine avoids_bind (descends tree _ _ root []) ?_
      rintro ⟨path, pid, leaf⟩ found
      dsimp only
      have fits := removed_fits (leaf_fits bounded found) key
      cases removal : leaf.remove options.LEAF_PAGE_TOMB_CNT key with
      | mk removed smaller =>
          rw [removal] at fits
          cases removed with
          | false => exact avoids_ok bounded
          | true =>
              refine avoids_bind (put_leaf bounded (handed_out bounded found) fits) ?_
              rintro after ⟨-, kept⟩
              split
              case isTrue =>
                split
                case isTrue => exact avoids_ok (bounded_delete (bounded_root kept none) pid)
                case isFalse => exact avoids_ok kept
              case isFalse =>
                have ends {result : Tree K V × List PageId} (kept : Bounded options result.1) :
                    Avoids .slots (Bounded options)
                      (if smaller.getMinSize ≤ smaller.getSize then .ok result.1
                      else result.1.removeUnderflow options result.2) := by
                  split
                  case isTrue => exact avoids_ok kept
                  case isFalse => exact remove_underflow sized kept result.2
                have unchanged : Avoids Fault.slots (fun result : Tree K V × List PageId =>
                    Bounded options result.1)
                    (.ok (after, pid :: path)) := avoids_ok kept
                split
                · split
                  case isTrue => exact avoids_bind unchanged fun _ => ends
                  case isFalse =>
                      exact avoids_bind
                        (update_ancestors sized kept inBytes pid _ (pid :: path)) fun _ => ends
                · exact avoids_bind unchanged fun _ => ends

theorem remove_bounded [Inhabited K] (sized : Sized options) (bounded : Bounded options tree)
    (inBytes : Bool)
    (key : K) : Avoids .slots (Bounded options) (tree.remove options inBytes key) := by
  unfold Tree.remove
  refine avoids_bind (try_optimistic_remove bounded key) fun result kept => ?_
  cases result with
  | none => exact remove_pessimistic sized bounded inBytes key
  | some after => exact avoids_ok (kept after rfl)

end Removals

end BusTub.PageBounds
