import BusTub.TreePages

/-!
Moving children between an internal page and the one to its right, together with what
the callers do to the parent. A parent with two of its pages put in their places is one
long page, and a key is routed through the two levels as a lookup in that page would be:
a move that leaves the children and the separators of the long page as they are leaves
every route as it is.
-/

namespace BusTub.NodeMoves

open BPlusTree

section Splicing
variable {K : Type} {pageAt : PageId → Option (InternalPage K)}
  {entries front back : List (K × PageId)} {entry : K × PageId}

def withKey (key : K) (entries : List (K × PageId)) :
    List (K × PageId) := entries.modifyHead fun entry => (key, entry.2)

def expand (pageAt : PageId → Option (InternalPage K)) (entry : K × PageId) : List (K × PageId) :=
  match pageAt entry.2 with
  | some page => withKey entry.1 page.entries
  | none => [entry]

def spliced (pageAt : PageId → Option (InternalPage K)) (entries : List (K × PageId)) :
    List (K × PageId) :=
  entries.flatMap (expand pageAt)

def Full (pageAt : PageId → Option (InternalPage K)) (entries : List (K × PageId)) : Prop :=
  ∀ entry ∈ entries, ∀ page, pageAt entry.2 = some page → page.entries ≠ []

theorem spliced_append :
    spliced pageAt (front ++ back) = spliced pageAt front ++ spliced pageAt back :=
    List.flatMap_append

theorem spliced_cons :
    spliced pageAt (entry :: entries) = expand pageAt entry ++ spliced pageAt entries := rfl

theorem spliced_others (others : ∀ entry ∈ entries, pageAt entry.2 = none) :
    spliced pageAt entries = entries := by
  induction entries with
  | nil => rfl
  | cons entry entries ih =>
      rw [spliced_cons, ih fun other member => others other (List.mem_cons_of_mem _ member)]
      rw [expand, others entry List.mem_cons_self, List.singleton_append]

theorem with_key_cons (key : K) : withKey key (entry :: entries) = (key, entry.2) :: entries := rfl

theorem with_key_append (key : K) (nonempty : front ≠ []) :
    withKey key (front ++ back) = withKey key front ++ back := by
  cases front with
  | nil => exact absurd rfl nonempty
  | cons entry front => rfl

theorem full_tail (full : Full pageAt (entry :: entries)) : Full pageAt entries :=
  fun other member => full other (List.mem_cons_of_mem _ member)

theorem expand_head (full : ∀ page, pageAt entry.2 = some page → page.entries ≠ []) :
    ∃ child rest, expand pageAt entry = (entry.1, child) :: rest := by
  unfold expand
  cases found : pageAt entry.2 with
  | none => exact ⟨entry.2, [], rfl⟩
  | some page =>
      obtain ⟨first, rest, whole⟩ := List.exists_cons_of_ne_nil (full page found)
      exact ⟨first.2, rest, by simp [whole, with_key_cons]⟩

theorem spliced_keys (full : Full pageAt entries) :
    (entries.map Prod.fst).Sublist ((spliced pageAt entries).map Prod.fst) := by
  induction entries with
  | nil => exact List.Sublist.slnil
  | cons entry entries ih =>
      obtain ⟨child, rest, first⟩ := expand_head (full entry List.mem_cons_self)
      rw [spliced_cons, first, List.cons_append, List.map_cons, List.map_cons, List.map_append]
      exact ((ih (full_tail full)).trans (List.sublist_append_right _ _)).cons_cons _

end Splicing

section Routing
variable {K : Type} [LinearOrder K] {pageAt : PageId → Option (InternalPage K)}
  {entries : List (K × PageId)} {key : K}

def routeIn (pageAt : PageId → Option (InternalPage K)) (parent : InternalPage K) (key : K) :
    Option PageId := do
  let child ← parent.lookup key
  match pageAt child with
  | some page => page.lookup key
  | none => return child

theorem rising_spliced (full : Full pageAt entries) (rising : Rising (spliced pageAt entries)) :
    Rising entries := by
  cases entries with
  | nil => exact List.Pairwise.nil
  | cons entry entries =>
      obtain ⟨child, rest, first⟩ := expand_head (full entry List.mem_cons_self)
      rw [Rising, spliced_cons, first, List.cons_append, List.tail_cons, List.map_append] at rising
      exact rising.sublist ((spliced_keys (full_tail full)).trans (List.sublist_append_right _ _))

/-- Beyond a key lie all the children of the entries that are beyond it. -/
theorem spliced_beyond (full : Full pageAt entries)
    (sorted : ((spliced pageAt entries).map Prod.fst).Pairwise (· < ·))
    (beyond : ∀ entry ∈ entries, key < entry.1) :
    ∀ entry ∈ spliced pageAt entries, key < entry.1 := by
  induction entries with
  | nil => simp [spliced]
  | cons entry entries ih =>
      obtain ⟨child, rest, first⟩ := expand_head (full entry List.mem_cons_self)
      rw [spliced_cons, first, List.map_append, List.pairwise_append, List.map_cons,
        List.pairwise_cons] at sorted
      have here := beyond entry List.mem_cons_self
      intro other member
      rw [spliced_cons, first] at member
      rcases List.mem_append.mp member with inside | later
      · rcases List.mem_cons.mp inside with rfl | inside
        · exact here
        · exact here.trans (sorted.1.1 _ (List.mem_map_of_mem inside))
      · exact ih (full_tail full) sorted.2.1
          (fun other member => beyond other (List.mem_cons_of_mem _ member)) other later

def childOf (children : List PageId) (separators : List K) (key : K) : Option PageId :=
  children[separators.countP fun separator => separator ≤ key]?

theorem cut_child {list left right : List (K × PageId)} {separator : K} {child : PageId}
    (rising : Rising list) (cut : Cut list key left separator child right) :
    childOf (list.map Prod.snd) (list.tail.map Prod.fst) key = some child := by
  have beyond : (right.map Prod.fst).countP (fun separator => separator ≤ key) = 0 := by
    rw [List.countP_eq_zero]
    intro other member
    obtain ⟨entry, inRight, rfl⟩ := List.mem_map.mp member
    simpa using cut.high entry inRight
  have counted : (list.tail.map Prod.fst).countP (fun separator => separator ≤ key) =
      left.length := by
    cases left with
    | nil =>
        rw [cut.whole]
        exact beyond
    | cons first left =>
        have low := cut.low (List.cons_ne_nil first left)
        rw [Rising, cut.whole, List.cons_append, List.tail_cons, List.map_append, List.map_cons,
          List.pairwise_append] at rising
        have before : (left.map Prod.fst).countP (fun separator => separator ≤ key) =
            left.length := by
          rw [List.countP_eq_length.mpr, List.length_map]
          intro other member
          simpa using (rising.2.2 other member separator List.mem_cons_self).le.trans low
        rw [cut.whole, List.cons_append, List.tail_cons, List.map_append, List.map_cons,
            List.countP_append, List.countP_cons, before, beyond]
        simp [low]
  rw [childOf, counted, cut.whole]
  simp

theorem behind_tail {α : Type} (front : List α) (item : α) (rest : List α) :
    rest.Sublist (front ++ item :: rest).tail := by
  cases front with
  | nil => exact List.Sublist.refl rest
  | cons first front =>
      exact (List.sublist_cons_self item rest).trans (List.sublist_append_right front _)

/-- What is behind some entry of a page whose keys rise is sorted. -/
theorem behind_sorted {list front back : List (K × PageId)} {entry : K × PageId}
    (rising : Rising list)
    (whole : list = front ++ entry :: back) : (back.map Prod.fst).Pairwise (· < ·) := by
  subst whole
  exact rising.sublist ((behind_tail front entry back).map Prod.fst)

theorem route_cut {parent : InternalPage K} (full : Full pageAt parent.entries)
    (more : parent.entries ≠ []) (rising : Rising (spliced pageAt parent.entries)) (key : K) :
    ∃ left separator child right, Cut (spliced pageAt parent.entries) key left
      separator child right ∧ routeIn pageAt parent key = some child := by
  obtain ⟨left, separator, child, right, cut, found⟩ :=
    @lookup_cut K _ parent key more (rising_spliced full rising)
  have fullRight : Full pageAt right := fun entry member =>
    full entry (cut.whole ▸ List.mem_append_right left (List.mem_cons_of_mem _ member))
  have low : spliced pageAt left ≠ [] → separator ≤ key := by
    intro some
    apply cut.low
    rintro rfl
    exact some rfl
  -- whichever of them the entry's own children are, those behind it are beyond the key
  have whole : ∀ rest back, expand pageAt (separator, child) = rest :: back →
      spliced pageAt parent.entries = spliced pageAt left ++ rest ::
        (back ++ spliced pageAt right) := by
    intro rest back head
    rw [cut.whole, spliced_append, spliced_cons, head, List.cons_append]
  obtain ⟨first, rest, head⟩ :=
    expand_head
      (full (separator, child) (cut.whole ▸ List.mem_append_right left List.mem_cons_self))
  have sorted := behind_sorted rising (whole _ _ head)
  rw [List.map_append, List.pairwise_append] at sorted
  have beyond := spliced_beyond fullRight sorted.2.1 cut.high
  rw [routeIn, found]
  cases inside : pageAt child with
  | none =>
      have alone : expand pageAt (separator, child) = [(separator, child)] := by rw [expand, inside]
      refine ⟨spliced pageAt left, separator, child, spliced pageAt right, ⟨?_, low, beyond⟩,
        by simp [inside]⟩
      exact whole _ _ alone
  | some page =>
      have expanded : expand pageAt (separator, child) = withKey separator page.entries := by
        rw [expand, inside]
      obtain ⟨old, rest', pageWhole⟩ := List.exists_cons_of_ne_nil
        (full (separator, child) (cut.whole ▸ List.mem_append_right left List.mem_cons_self) page
          inside)
      have pageSorted : Rising page.entries := by
        rw [expanded, pageWhole, with_key_cons, List.cons.injEq] at head
        rw [Rising, pageWhole, List.tail_cons, head.2]
        exact sorted.1
      obtain ⟨pageLeft, pageSeparator, grandchild, pageRight, pageCut, pageFound⟩ :=
        @lookup_cut K _ page key (by simp [pageWhole]) pageSorted
      have beyondBoth : ∀ entry ∈ pageRight ++ spliced pageAt right, key < entry.1 := by
        intro entry member
        rcases List.mem_append.mp member with inPage | later
        · exact pageCut.high entry inPage
        · exact beyond entry later
      rw [pageCut.whole] at expanded
      cases pageLeft with
      | nil =>
          refine ⟨spliced pageAt left, separator, grandchild, pageRight ++ spliced pageAt right,
            ⟨?_, low, beyondBoth⟩,
            by simpa [inside] using pageFound⟩
          exact whole _ _ expanded
      | cons front pageLeft =>
          refine ⟨spliced pageAt left ++ (separator, front.2) :: pageLeft,
              pageSeparator, grandchild, pageRight ++ spliced pageAt right, ⟨?_, ?_, beyondBoth⟩, by
                simpa [inside] using pageFound⟩
          · rw [whole _ _ expanded]
            simp
          · exact fun _ => pageCut.low (List.cons_ne_nil _ _)

end Routing
/-! ### Two pages and their parent -/

structure Family (K : Type) where
  /-- `none` while the left page is the root. -/
  parent : Option (InternalPage K)
  leftPid : PageId
  rightPid : PageId
  left : InternalPage K
  right : InternalPage K

namespace Family
variable {K : Type}

def pageAt (family : Family K) (pid : PageId) : Option (InternalPage K) :=
  if pid = family.leftPid then some family.left else if pid = family.rightPid then
    some family.right else none

def long (family : Family K) : List (K × PageId) :=
  match family.parent with
  | some parent => spliced family.pageAt parent.entries
  | none => family.left.entries

def children (family : Family K) : List PageId := family.long.map Prod.snd

def separators (family : Family K) : List K := family.long.tail.map Prod.fst

def route [LinearOrder K] (family : Family K) (key : K) : Option PageId :=
  match family.parent with
  | some parent => routeIn family.pageAt parent key
  | none => family.left.lookup key

/-- The keys of the pages rise and lie between the separators of the parent, and no page or child
is there twice. -/
structure WellFormed [LinearOrder K] (family : Family K) : Prop where
  apart : family.leftPid ≠ family.rightPid
  pids : ∀ parent ∈ family.parent, (parent.entries.map Prod.snd).Nodup
  rising : Rising family.long
  distinct : family.children.Nodup
  nonempty : family.left.entries ≠ []
  roomy : 2 ≤ family.left.maxSize ∧ 2 ≤ family.right.maxSize

def Neighbours (family : Family K) (parent : InternalPage K) (front : List (K × PageId))
    (key separator : K) (back : List (K × PageId)) : Prop :=
  family.parent = some parent ∧
    parent.entries = front ++ (key, family.leftPid) :: (separator, family.rightPid) :: back

end Family

/-- What moves children between two pages that are next to each other. Both merges are calls of
`MoveAllTo` on the right page: the one that has become too small is that page, or the left one. -/
inductive NodeMove where
  | split
  | moveLastToFrontOf
  | moveFirstToEndOf
  | moveAllToLeft
  | moveAllToCurrent

namespace NodeMove
variable {K : Type} [LinearOrder K] [Inhabited K]

/-- `MoveAllTo`, unless the page has no children, and the parent without its entry. -/
def merge (family : Family K) (parent : InternalPage K) (rightIndex : Nat) : Option (Family K) := do
  let (middleKey, _) ← parent.entries[rightIndex]?
  let left := if 0 < family.right.getSize then family.right.moveAllTo family.left middleKey
    else family.left
  return { family with
    parent := some (parent.removeAt rightIndex), left := left, right :=
      { family.right with entries := [] } }

/-- The pages and the parent when the caller is done. -/
def apply (family : Family K) : NodeMove → Option (Family K)
  | .split =>
      let (left, middleKey, right) := family.left.split family.right
      let parent := match family.parent with
        | none =>
            { maxSize := family.right.maxSize
              entries := [(default, family.leftPid), (middleKey, family.rightPid)] }
        | some parent => parent.insertAt (parent.upperBound middleKey) middleKey family.rightPid
      some { family with parent := some parent, left := left, right := right }
  | .moveLastToFrontOf => do
      let parent ← family.parent
      let index ← parent.valueIndex family.rightPid
      let (middleKey, _) ← parent.entries[index]?
      let (left, right, newKey) := family.left.moveLastToFrontOf family.right middleKey
      return { family with
        parent := some (parent.setKeyAt index newKey)
        left := left
        right := right }
  | .moveFirstToEndOf => do
      let parent ← family.parent
      let index ← parent.valueIndex family.leftPid
      let (middleKey, _) ← parent.entries[index + 1]?
      let (right, left, newKey) := family.right.moveFirstToEndOf family.left middleKey
      return { family with
        parent := some (parent.setKeyAt (index + 1) newKey)
        left := left
        right := right }
  | .moveAllToLeft => do
      let parent ← family.parent
      let index ← parent.valueIndex family.rightPid
      merge family parent index
  | .moveAllToCurrent => do
      let parent ← family.parent
      let index ← parent.valueIndex family.leftPid
      merge family parent (index + 1)

/-- A page is split when it has more children than it may have, into one that was just made, and
a child is borrowed only from a page that has more than it needs. -/
def Called (family : Family K) : NodeMove → Prop
  | .split => family.left.maxSize < family.left.getSize ∧ family.right.entries = [] ∧
      ∀ parent ∈ family.parent, family.leftPid ∈ parent.entries.map Prod.snd ∧
        family.rightPid ∉ parent.entries.map Prod.snd
  | .moveLastToFrontOf => family.left.getMinSize < family.left.getSize ∧ family.right.entries ≠ [] ∧
      ∃ parent front key separator back, family.Neighbours parent front key separator back
  | .moveFirstToEndOf => family.right.getMinSize < family.right.getSize ∧
      ∃ parent front key separator back, family.Neighbours parent front key separator back
  | .moveAllToLeft | .moveAllToCurrent => family.right.entries ≠ [] ∧
      ∃ parent front key separator back, family.Neighbours parent front key separator back

/-- The same children from left to right, and each key to the same one of them as before. -/
def Keeps (before after : Family K) : Prop :=
  after.children = before.children ∧ ∀ key, (before.route key).isSome ∧
    after.route key = before.route key

end NodeMove

section Families
variable {K : Type} {family : Family K} {parent : InternalPage K} {front back : List (K × PageId)}
  {key separator : K} {page : InternalPage K}

theorem value_index_at {pid : PageId} (whole : page.entries = front ++ (key, pid) :: back)
    (absent : pid ∉ front.map Prod.snd) : page.valueIndex pid = some front.length := by
  rw [InternalPage.valueIndex, whole, List.findIdx?_append]
  have nowhere : front.findIdx? (fun entry => decide (entry.2 = pid)) = none := by
    rw [List.findIdx?_eq_none_iff]
    intro entry member
    have there : entry.2 ∈ front.map Prod.snd := List.mem_map_of_mem member
    simpa using fun same : entry.2 = pid => absent (same ▸ there)
  simp [nowhere, List.findIdx?_cons]

theorem modify_at {α : Type} (change : α → α) (front back : List α) (item : α) :
    (front ++ item :: back).modify front.length change = front ++ change item :: back := by
  induction front with
  | nil => rfl
  | cons first front ih => simpa using ih

theorem erase_at {α : Type} (front back : List α) (item : α) :
    (front ++ item :: back).eraseIdx front.length = front ++ back := by
  induction front with
  | nil => rfl
  | cons first front ih => simpa using ih

/-- The parent's other children are not among the pages at hand. -/
theorem page_at_others {entries : List (K × PageId)}
    (leftAbsent : family.leftPid ∉ entries.map Prod.snd)
    (rightAbsent : family.rightPid ∉ entries.map Prod.snd) :
    ∀ entry ∈ entries, family.pageAt entry.2 = none := by
  intro entry member
  have there : entry.2 ∈ entries.map Prod.snd := List.mem_map_of_mem member
  have notLeft : entry.2 ≠ family.leftPid := fun same => leftAbsent (same ▸ there)
  have notRight : entry.2 ≠ family.rightPid := fun same => rightAbsent (same ▸ there)
  rw [Family.pageAt, if_neg notLeft, if_neg notRight]

structure Apart (family : Family K) (front back : List (K × PageId)) : Prop where
  pids : family.leftPid ≠ family.rightPid
  leftFront : family.leftPid ∉ front.map Prod.snd
  leftBack : family.leftPid ∉ back.map Prod.snd
  rightFront : family.rightPid ∉ front.map Prod.snd
  rightBack : family.rightPid ∉ back.map Prod.snd

theorem long_single (apart : Apart family front back) (there : family.parent = some parent)
    (whole : parent.entries = front ++ (key, family.leftPid) :: back) :
    family.long = front ++ (withKey key family.left.entries ++ back) := by
  have atLeft : family.pageAt family.leftPid = some family.left := if_pos rfl
  simp only [Family.long, there, whole, spliced_append, spliced_cons, expand, atLeft,
    spliced_others (page_at_others apart.leftFront apart.rightFront),
    spliced_others (page_at_others apart.leftBack apart.rightBack)]

theorem long_pair (apart : Apart family front back)
    (neighbours : family.Neighbours parent front key separator back) :
    family.long =
      front ++
      (withKey key family.left.entries ++ (withKey separator family.right.entries ++ back)) := by
  have atLeft : family.pageAt family.leftPid = some family.left := if_pos rfl
  have atRight : family.pageAt family.rightPid = some family.right :=
    by rw [Family.pageAt, if_neg apart.pids.symm, if_pos rfl]
  simp only [Family.long, neighbours.1, neighbours.2, spliced_append, spliced_cons, expand,
    atLeft, atRight, spliced_others (page_at_others apart.leftFront apart.rightFront),
      spliced_others
      (page_at_others apart.leftBack apart.rightBack)]

def Standing (family : Family K) : Prop :=
  match family.parent with
  | some parent => Full family.pageAt parent.entries ∧ parent.entries ≠ []
  | none => family.left.entries ≠ []

/-- Where the pages at hand have children, a parent with some child stands. -/
theorem standing_parent (there : family.parent = some parent) (more : parent.entries ≠ [])
    (left : family.left.entries ≠ []) (right : family.rightPid ∈ parent.entries.map Prod.snd →
      family.right.entries ≠ []) :
    Standing family := by
  rw [Standing, there]
  refine ⟨fun entry member page at_ => ?_, more⟩
  unfold Family.pageAt at at_
  split at at_
  · obtain rfl := Option.some.inj at_
    exact left
  · split at at_
    case isTrue isRight =>
      obtain rfl := Option.some.inj at_
      exact right (isRight ▸ List.mem_map_of_mem member)
    case isFalse => cases at_

theorem right_index (apart : Apart family front back)
    (neighbours : family.Neighbours parent front key separator back) :
    parent.valueIndex family.rightPid = some (front.length + 1) ∧
      parent.entries[front.length + 1]? = some (separator, family.rightPid) := by
  have whole : parent.entries = (front ++ [(key, family.leftPid)]) ++
    (separator, family.rightPid) :: back := by
    rw [neighbours.2, List.append_assoc, List.singleton_append]
  have absent : family.rightPid ∉ (front ++ [(key, family.leftPid)]).map Prod.snd := by
    simpa [apart.pids.symm] using apart.rightFront
  have size : (front ++ [(key, family.leftPid)]).length = front.length + 1 := by simp
  refine ⟨(value_index_at whole absent).trans (by rw [size]), ?_⟩
  rw [whole, List.getElem?_append_right (Nat.le_of_eq size), size, Nat.sub_self]
  rfl

theorem left_index (apart : Apart family front back)
    (neighbours : family.Neighbours parent front key separator back) :
    parent.valueIndex family.leftPid = some front.length :=
  value_index_at neighbours.2 apart.leftFront

theorem neighbours_rekeyed (neighbours : family.Neighbours parent front key separator back)
    (newKey : K) (left right : InternalPage K) :
    Family.Neighbours
      { family with
        parent := some (parent.setKeyAt (front.length + 1) newKey)
        left := left
        right := right }
      (parent.setKeyAt (front.length + 1) newKey) front key newKey back := by
  refine ⟨rfl, ?_⟩
  have whole : parent.entries = (front ++ [(key, family.leftPid)]) ++
    (separator, family.rightPid) :: back := by
    rw [neighbours.2, List.append_assoc, List.singleton_append]
  have size : (front ++ [(key, family.leftPid)]).length = front.length + 1 := by simp
  rw [InternalPage.setKeyAt, whole, ← size, modify_at, List.append_assoc, List.singleton_append]

theorem lender_split (roomy : 2 ≤ page.maxSize) (lends : page.getMinSize < page.getSize) :
    2 ≤ page.entries.length := by
  unfold InternalPage.getMinSize InternalPage.getSize at lends
  omega

theorem split_parts [Inhabited K] {page newPage : InternalPage K} (size : 2 ≤ page.entries.length) :
    ∃ low middleKey child high, low ≠ [] ∧ page.entries = low ++ (middleKey, child) :: high ∧
      page.split newPage =
        ({ page with entries := low }, middleKey,
          { newPage with entries := (default, child) :: high }) := by
  have inside : page.getSize / 2 < page.entries.length := by
    unfold InternalPage.getSize
    omega
  have tail : page.entries.drop (page.getSize / 2) =
      page.entries[page.getSize / 2] :: page.entries.drop (page.getSize / 2 + 1) :=
        List.drop_eq_getElem_cons inside
  refine ⟨page.entries.take (page.getSize / 2), (page.entries[page.getSize / 2]).1,
    (page.entries[page.getSize / 2]).2,
    page.entries.drop (page.getSize / 2 + 1), ?_, ?_, ?_⟩
  · apply List.ne_nil_of_length_pos
    rw [List.length_take]
    unfold InternalPage.getSize
    omega
  · rw [Prod.mk.eta, ← tail, List.take_append_drop]
  · simp only [InternalPage.split, tail, List.modifyHead_cons, List.getElem?_eq_getElem inside]
    rfl

end Families

section Routes
variable {K : Type} [LinearOrder K] {family before after : Family K} {parent : InternalPage K}
  {front back : List (K × PageId)} {key separator : K}

theorem neighbours_apart (formed : family.WellFormed)
    (neighbours : family.Neighbours parent front key separator back) :
    Apart family front back := by
  have unique := formed.pids parent neighbours.1
  rw [neighbours.2, List.map_append, List.nodup_append] at unique
  simp only [List.map_cons, List.nodup_cons, List.mem_cons, not_or] at unique
  refine ⟨formed.apart, ?_, unique.2.1.1.2, ?_, unique.2.1.2.1⟩
  · exact fun member => unique.2.2 _ member _ (Or.inl rfl) rfl
  · exact fun member => unique.2.2 _ member _ (Or.inr (Or.inl rfl)) rfl

theorem route_child (standing : Standing family) (rising : Rising family.long) (key : K) :
    ∃ child, family.route key = some child ∧ childOf family.children family.separators key =
      some child := by
  unfold Standing at standing
  unfold Family.children Family.separators Family.route
  unfold Family.long at rising ⊢
  cases there : family.parent with
  | none =>
      rw [there] at standing rising
      obtain ⟨left, separator, child, right, cut, found⟩ :=
        @lookup_cut K _ family.left key standing rising
      exact ⟨child, found, cut_child rising cut⟩
  | some parent =>
      rw [there] at standing rising
      obtain ⟨left, separator, child, right, cut, found⟩ :=
        route_cut standing.1 standing.2 rising key
      exact ⟨child, found, cut_child rising cut⟩

/-- Children and separators that stay as they are keep every route. -/
theorem keeps_same (rising : Rising before.long) (standing : Standing before)
    (standingAfter : Standing after) (sameChildren : after.children = before.children)
    (sameSeparators : after.separators = before.separators) :
    NodeMove.Keeps before after := by
  have risingAfter : Rising after.long := by
    unfold Rising
    unfold Family.separators at sameSeparators
    rw [sameSeparators]
    exact rising
  refine ⟨sameChildren, fun key => ?_⟩
  obtain ⟨child, routed, isChild⟩ := route_child standing rising key
  obtain ⟨other, routedAfter, isOther⟩ := route_child standingAfter risingAfter key
  rw [sameChildren, sameSeparators, isChild] at isOther
  rw [routed, routedAfter, Option.some.inj isOther]
  exact ⟨rfl, rfl⟩

theorem keeps_long (rising : Rising before.long) (standing : Standing before)
    (standingAfter : Standing after)
    (same : after.long = before.long) : NodeMove.Keeps before after :=
  keeps_same rising standing standingAfter (congrArg (List.map Prod.snd) same)
    (congrArg (fun list => list.tail.map Prod.fst) same)

theorem standing_neighbours (formed : family.WellFormed)
    (neighbours : family.Neighbours parent front key separator back)
    (right : family.right.entries ≠ []) : Standing family :=
  standing_parent neighbours.1 (by rw [neighbours.2]; simp) formed.nonempty fun _ => right

theorem merge_keeps (formed : family.WellFormed) (nonempty : family.right.entries ≠ [])
    (neighbours : family.Neighbours parent front key separator back) :
    ∃ after, NodeMove.merge family parent (front.length + 1) = some after ∧
      NodeMove.Keeps family after := by
  have apart := neighbours_apart formed neighbours
  have entry := (right_index apart neighbours).2
  have some : 0 < family.right.getSize := List.length_pos_iff.mpr nonempty
  have whole : parent.entries = (front ++ [(key, family.leftPid)]) ++
    (separator, family.rightPid) :: back := by
    rw [neighbours.2, List.append_assoc, List.singleton_append]
  have size : (front ++ [(key, family.leftPid)]).length = front.length + 1 := by simp
  have removed : (parent.removeAt (front.length + 1)).entries =
      front ++ (key, family.leftPid) :: back := by
    rw [InternalPage.removeAt, whole, ← size, erase_at, List.append_assoc, List.singleton_append]
  refine ⟨_, by simp [NodeMove.merge, entry, some]; rfl, ?_⟩
  have apartAfter : Apart { family with
      parent := Option.some (parent.removeAt (front.length + 1)),
      left := family.right.moveAllTo family.left separator,
      right := { family.right with entries := [] } } front back :=
    ⟨apart.pids, apart.leftFront, apart.leftBack, apart.rightFront, apart.rightBack⟩
  apply keeps_long formed.rising (standing_neighbours formed neighbours nonempty)
  · apply standing_parent rfl (by rw [removed]; simp)
    · exact List.append_ne_nil_of_left_ne_nil formed.nonempty _
    · rw [removed]
      simp [apart.rightFront, apart.rightBack, apart.pids.symm]
  · rw [long_single apartAfter rfl removed, long_pair apart neighbours, InternalPage.moveAllTo,
      with_key_append key formed.nonempty, List.append_assoc]
    rfl

/-- The key that goes up is above the page's own separator and below the next one. -/
theorem middle_cut {low high : List (K × PageId)} {middleKey : K} {child : PageId}
    (rising : Rising family.long)
    (parentWhole : parent.entries = front ++ (key, family.leftPid) :: back) (lowSome : low ≠ [])
    (long : family.long = front ++ (withKey key (low ++ (middleKey, child) :: high) ++ back)) :
    Cut parent.entries middleKey front key family.leftPid back := by
  obtain ⟨⟨first, value⟩, lowRest, rfl⟩ := List.exists_cons_of_ne_nil lowSome
  rw [List.cons_append, with_key_cons] at long
  refine ⟨parentWhole, fun some => ?_, fun entry inBack => ?_⟩
  · obtain ⟨head, front, rfl⟩ := List.exists_cons_of_ne_nil some
    have sorted :=
      @behind_sorted K _ family.long []
      (front ++ ((key, value) :: (lowRest ++ (middleKey, child) :: high) ++ back)) head
      rising (by rw [long]; rfl)
    rw [List.map_append, List.pairwise_append, List.cons_append, List.map_cons, List.pairwise_cons]
      at sorted
    exact (sorted.2.1.1 middleKey (by simp)).le
  · have sorted :=
      @behind_sorted K _ family.long front (lowRest ++ (middleKey, child) :: (high ++ back))
        (key, value)
        rising (by rw [long]; simp)
    rw [List.map_append, List.pairwise_append, List.map_cons, List.pairwise_cons] at sorted
    have inMap : entry.1 ∈ back.map Prod.fst := List.mem_map_of_mem inBack
    exact sorted.2.1.1 entry.1 (by simp only [List.map_append, List.mem_append]; exact Or.inr inMap)

end Routes

section Moves
variable {K : Type} [LinearOrder K] [Inhabited K] {family : Family K} {parent : InternalPage K}
  {front back : List (K × PageId)} {key separator : K}

/-- A child that is borrowed from the left takes the parent's separator with it. -/
theorem last_keeps (formed : family.WellFormed)
    (called : NodeMove.moveLastToFrontOf.Called family) :
    ∃ after, NodeMove.moveLastToFrontOf.apply family = some after ∧
      NodeMove.Keeps family after := by
  obtain ⟨lends, nonempty, parent, front, key, separator, back, neighbours⟩ := called
  have apart := neighbours_apart formed neighbours
  have size := lender_split formed.roomy.1 lends
  obtain ⟨init, lastKey, child, leftWhole⟩ : ∃ init lastKey child, family.left.entries =
      init ++ [(lastKey, child)] :=
    ⟨_, _, _, (List.dropLast_append_getLast formed.nonempty).symm⟩
  obtain ⟨⟨first, value⟩, rest, rightWhole⟩ := List.exists_cons_of_ne_nil nonempty
  have initSome : init ≠ [] := by
    rintro rfl
    rw [leftWhole] at size
    simp at size
  obtain ⟨index, entry⟩ := right_index apart neighbours
  have moved : family.left.moveLastToFrontOf family.right separator =
      ({ family.left with entries := init },
        { family.right with entries := (first, child) :: (separator, value) :: rest },
          lastKey) := by
    simp [InternalPage.moveLastToFrontOf, leftWhole, rightWhole]
  have rekeyed := neighbours_rekeyed neighbours lastKey { family.left with entries := init }
    { family.right with entries := (first, child) :: (separator, value) :: rest }
  refine ⟨_, by simp [NodeMove.apply, neighbours.1, index, entry, moved]; rfl, ?_⟩
  have apartAfter : Apart { family with
      parent := some (parent.setKeyAt (front.length + 1) lastKey), left :=
        { family.left with entries := init },
      right := { family.right with entries := (first, child) :: (separator, value) :: rest } } front
        back :=
    ⟨apart.pids, apart.leftFront, apart.leftBack, apart.rightFront, apart.rightBack⟩
  apply keeps_long formed.rising (standing_neighbours formed neighbours nonempty)
  · exact standing_parent rekeyed.1 (by rw [rekeyed.2]; simp) initSome fun _ => List.cons_ne_nil _ _
  · rw [long_pair apartAfter rekeyed, long_pair apart neighbours, leftWhole, rightWhole,
      with_key_append key initSome]
    simp [with_key_cons]

theorem split_root_keeps (formed : family.WellFormed) (there : family.parent = none)
    (size : 2 ≤ family.left.entries.length) :
    ∃ after, NodeMove.split.apply family = some after ∧ NodeMove.Keeps family after := by
  obtain ⟨low, middleKey, child, high, lowSome, whole, parts⟩ :=
    @split_parts K _ family.left family.right size
  obtain ⟨⟨first, value⟩, lowRest, lowWhole⟩ := List.exists_cons_of_ne_nil lowSome
  have long : family.long = low ++ (middleKey, child) :: high := by rw [Family.long, there, whole]
  have neighbours : Family.Neighbours { family with
      parent := some
        { maxSize := family.right.maxSize
          entries := [(default, family.leftPid), (middleKey, family.rightPid)] },
      left := { family.left with entries := low },
      right := { family.right with entries := (default, child) :: high } }
      { maxSize := family.right.maxSize
        entries := [(default, family.leftPid), (middleKey, family.rightPid)] }
      [] default middleKey [] := ⟨rfl, rfl⟩
  have apart : Apart { family with
      parent := some
        { maxSize := family.right.maxSize
          entries := [(default, family.leftPid), (middleKey, family.rightPid)] },
      left := { family.left with entries := low },
      right := { family.right with entries := (default, child) :: high } }
      [] [] := ⟨formed.apart, by simp, by simp, by simp, by simp⟩
  have after := long_pair apart neighbours
  simp only [with_key_cons, lowWhole, List.nil_append, List.append_nil, List.cons_append] at after
  refine ⟨_, by rw [NodeMove.apply, parts, there], ?_⟩
  apply keeps_same formed.rising
  · rw [Standing, there]
    exact formed.nonempty
  · exact standing_parent rfl (by simp) lowSome fun _ => List.cons_ne_nil _ _
  · simp only [Family.children, after, long, lowWhole]
    simp
  · simp only [Family.separators, after, long, lowWhole]
    simp

theorem split_parent_keeps (formed : family.WellFormed) (there : family.parent = some parent)
    (size : 2 ≤ family.left.entries.length)
    (leftThere : family.leftPid ∈ parent.entries.map Prod.snd)
    (rightAbsent : family.rightPid ∉ parent.entries.map Prod.snd) :
    ∃ after, NodeMove.split.apply family = some after ∧ NodeMove.Keeps family after := by
  obtain ⟨low, middleKey, child, high, lowSome, whole, parts⟩ :=
    @split_parts K _ family.left family.right size
  obtain ⟨⟨key, leftPid⟩, member, isLeft⟩ := List.mem_map.mp leftThere
  obtain ⟨front, back, parentWhole⟩ := List.append_of_mem member
  rw [show leftPid = family.leftPid from isLeft] at parentWhole
  have unique := formed.pids parent there
  rw [parentWhole, List.map_append, List.nodup_append] at unique
  simp only [List.map_cons, List.nodup_cons, List.mem_cons] at unique
  have standing : Standing family :=
    standing_parent there (by rw [parentWhole]; simp) formed.nonempty fun inParent =>
      absurd inParent rightAbsent
  rw [parentWhole] at rightAbsent
  simp only [List.map_append, List.map_cons, List.mem_append, List.mem_cons, not_or] at rightAbsent
  have apart : Apart family front back :=
    ⟨formed.apart, fun inFront => unique.2.2 _ inFront _ (Or.inl rfl) rfl, unique.2.1.1,
    rightAbsent.1, rightAbsent.2.2⟩
  have long := long_single apart there parentWhole
  rw [whole] at long
  have parentRising : Rising parent.entries := by
    rw [Standing, there] at standing
    have rising := formed.rising
    rw [Family.long, there] at rising
    exact rising_spliced standing.1 rising
  have place := upper_bound_at parentRising (middle_cut formed.rising parentWhole lowSome long)
  have inserted :=
    @internal_insert_at K parent front back key middleKey family.leftPid family.rightPid parentWhole
  have neighbours : Family.Neighbours { family with
      parent := some (parent.insertAt (parent.upperBound middleKey) middleKey family.rightPid),
      left := { family.left with entries := low },
      right := { family.right with entries := (default, child) :: high } }
      (parent.insertAt (parent.upperBound middleKey) middleKey family.rightPid) front key
        middleKey back :=
    ⟨rfl, by rw [place]; exact inserted⟩
  have apartAfter : Apart { family with
      parent := some (parent.insertAt (parent.upperBound middleKey) middleKey family.rightPid),
      left := { family.left with entries := low },
      right := { family.right with entries := (default, child) :: high } }
      front back := ⟨apart.pids, apart.leftFront, apart.leftBack, apart.rightFront, apart.rightBack⟩
  refine ⟨_, by rw [NodeMove.apply, parts, there], ?_⟩
  apply keeps_long formed.rising standing
  · exact standing_parent neighbours.1 (by rw [neighbours.2]; simp) lowSome fun _ =>
      List.cons_ne_nil _ _
  · rw [long_pair apartAfter neighbours, long, with_key_append key lowSome]
    simp [with_key_cons]

theorem split_keeps (formed : family.WellFormed) (called : NodeMove.split.Called family) :
    ∃ after, NodeMove.split.apply family = some after ∧ NodeMove.Keeps family after := by
  obtain ⟨full, -, known⟩ := called
  have size : 2 ≤ family.left.entries.length := by
    have roomy := formed.roomy.1
    unfold InternalPage.getSize at full
    omega
  cases there : family.parent with
  | none => exact split_root_keeps formed there size
  | some parent =>
      exact split_parent_keeps formed there size (known parent there).1 (known parent there).2

/-- A child that is borrowed from the right stays where it was as well, and the next one is lost. -/
theorem first_duplicates (formed : family.WellFormed)
    (called : NodeMove.moveFirstToEndOf.Called family) :
    ∃ after, NodeMove.moveFirstToEndOf.apply family = some after ∧ ¬ after.children.Nodup ∧
      after.children ≠ family.children := by
  obtain ⟨lends, parent, front, key, separator, back, neighbours⟩ := called
  have apart := neighbours_apart formed neighbours
  have size := lender_split formed.roomy.2 lends
  obtain ⟨first, second, rest, rightWhole⟩ : ∃ first second rest, family.right.entries =
      first :: second :: rest := by
    match found : family.right.entries with
    | [] | [_] =>
        rw [found] at size
        simp at size
    | first :: second :: rest => exact ⟨first, second, rest, rfl⟩
  have moved : family.right.moveFirstToEndOf family.left separator =
      ({ family.right with entries := first :: rest },
        { family.left with entries := family.left.entries ++ [(separator, first.2)] },
        second.1) := by
    simp [InternalPage.moveFirstToEndOf, rightWhole]
  have rekeyed := neighbours_rekeyed neighbours second.1
    { family.left with entries := family.left.entries ++ [(separator, first.2)] }
      { family.right with entries := first :: rest }
  have apartAfter : Apart { family with
      parent := some (parent.setKeyAt (front.length + 1) second.1),
      left := { family.left with entries := family.left.entries ++ [(separator, first.2)] },
      right := { family.right with entries := first :: rest } } front back :=
    ⟨apart.pids, apart.leftFront, apart.leftBack, apart.rightFront, apart.rightBack⟩
  refine ⟨_, by
    simp [NodeMove.apply, neighbours.1, left_index apart neighbours,
      (right_index apart neighbours).2, moved]
    rfl, ?_⟩
  have long := long_pair apartAfter rekeyed
  simp only [with_key_append key formed.nonempty, with_key_cons] at long
  have twice :
    ¬ (front ++
      (withKey key family.left.entries ++ [(separator, first.2)] ++
      ((second.1, first.2) :: rest ++ back))
      |>.map Prod.snd).Nodup := by
    simp [List.nodup_append]
  rw [Family.children, long]
  exact ⟨twice, fun same => twice (same ▸ formed.distinct)⟩

/-- Restructuring keeps the children and every route, but for borrowing from the right. -/
theorem node_move_iff (formed : family.WellFormed) (move : NodeMove) (called : move.Called family) :
    (∃ after, move.apply family = some after ∧ NodeMove.Keeps family after) ↔
      move ≠ .moveFirstToEndOf := by
  cases move with
  | split => exact ⟨fun _ => by simp, fun _ => split_keeps formed called⟩
  | moveLastToFrontOf => exact ⟨fun _ => by simp, fun _ => last_keeps formed called⟩
  | moveFirstToEndOf =>
      refine ⟨?_, fun different => absurd rfl different⟩
      rintro ⟨after, moved, keeps⟩
      obtain ⟨other, again, -, changed⟩ := first_duplicates formed called
      obtain rfl := Option.some.inj (moved.symm.trans again)
      exact absurd keeps.1 changed
  | moveAllToLeft =>
      refine ⟨fun _ => by simp, fun _ => ?_⟩
      obtain ⟨nonempty, parent, front, key, separator, back, neighbours⟩ := called
      have index := (right_index (neighbours_apart formed neighbours) neighbours).1
      obtain ⟨after, merged, keeps⟩ := merge_keeps formed nonempty neighbours
      exact ⟨after, by simp [NodeMove.apply, neighbours.1, index, merged], keeps⟩
  | moveAllToCurrent =>
      refine ⟨fun _ => by simp, fun _ => ?_⟩
      obtain ⟨nonempty, parent, front, key, separator, back, neighbours⟩ := called
      have index := left_index (neighbours_apart formed neighbours) neighbours
      obtain ⟨after, merged, keeps⟩ := merge_keeps formed nonempty neighbours
      exact ⟨after, by simp [NodeMove.apply, neighbours.1, index, merged], keeps⟩

end Moves

section Trees
variable {K V : Type} {options : Options} {writeSet : List PageId} {tree : Tree K V}
  {parentPage left right : InternalPage K} {parent leftPid rightPid : PageId} {index : Nat}
  {after : Family K}

def putFamily (options : Options) (tree : Tree K V) (parent : PageId) (family : Family K)
    (first second : PageId) :
    Except Fault (Tree K V) := do
  let pageOf (pid : PageId) := if pid = family.leftPid then family.left else family.right
  let tree ← tree.putInternal options first (pageOf first)
  let tree ← tree.putInternal options second (pageOf second)
  match family.parent with
  | some page => tree.putInternal options parent page
  | none => .ok tree

/-- The rounds of `Remove` at a page that is merged, or borrows from the left or the right, make
these moves. -/
theorem merge_internals_moves (apart : leftPid ≠ rightPid)
    (parentFound : tree.internalPage parent = .ok parentPage)
    (leftFound : tree.internalPage leftPid = .ok left)
    (rightFound : tree.internalPage rightPid = .ok right) (nonempty : right.entries ≠ [])
    (moved : NodeMove.merge ⟨some parentPage, leftPid, rightPid, left, right⟩ parentPage index =
      some after) :
    Tree.mergeInternals options tree parent leftPid rightPid index =
      (fun tree => (tree, rightPid)) <$> putFamily options tree parent after leftPid rightPid := by
  simp only [NodeMove.merge, Option.bind_eq_bind, Option.bind_eq_some_iff, Prod.exists] at moved
  obtain ⟨middleKey, pid, entry, same⟩ := moved
  obtain rfl := Option.some.inj same
  have some : 0 < right.getSize := List.length_pos_iff.mpr nonempty
  have middle : Tree.keyAt parentPage index = .ok middleKey := by rw [Tree.keyAt, entry]
  simp only [Tree.mergeInternals, putFamily, parentFound, leftFound, rightFound, middle,
    bind, Except.bind, if_neg nonempty,
    if_pos some, if_pos, if_neg apart.symm, Functor.map, Except.map]
  cases first : Tree.putInternal options tree leftPid (right.moveAllTo left middleKey) with
  | error fault => rfl
  | ok middleTree =>
      cases second : Tree.putInternal options middleTree rightPid { right with entries := [] } with
      | error fault => simp only [second]
      | ok lastTree => simp only [second]

variable [LinearOrder K] [Inhabited K]

theorem borrow_left_moves (apart : leftPid ≠ rightPid)
    (parentFound : tree.internalPage parent = .ok parentPage)
    (leftFound : tree.internalPage leftPid = .ok left)
    (rightFound : tree.internalPage rightPid = .ok right)
    (place : parentPage.valueIndex rightPid = some index)
    (beside : Tree.childAt parentPage (index - 1) = .ok leftPid) (free : leftPid ∉ writeSet)
    (lends : left.getMinSize < left.getSize)
    (moved : NodeMove.moveLastToFrontOf.apply ⟨some parentPage, leftPid, rightPid, left, right⟩ =
      some after) :
    Tree.borrowLeftInternal options writeSet tree rightPid parent index =
      some <$> putFamily options tree parent after leftPid rightPid := by
  simp only [NodeMove.apply, place, Option.bind_eq_bind, Option.bind_some, Option.bind_eq_some_iff,
    Prod.exists] at moved
  obtain ⟨middleKey, pid, entry, same⟩ := moved
  obtain rfl := Option.some.inj same
  have enough : ¬ left.getSize ≤ left.getMinSize := Nat.not_le_of_lt lends
  have written : Tree.writePage writeSet leftPid = .ok () := if_neg free
  have middle : Tree.keyAt parentPage index = .ok middleKey := by rw [Tree.keyAt, entry]
  simp only [Tree.borrowLeftInternal, putFamily, parentFound, beside, written, leftFound,
    rightFound, middle, bind, Except.bind,
    if_neg enough, if_pos, if_neg apart.symm, Functor.map, Except.map]
  split
  · rfl
  · split
    · rfl
    · split <;> rfl

theorem borrow_right_moves (apart : leftPid ≠ rightPid)
    (parentFound : tree.internalPage parent = .ok parentPage)
    (leftFound : tree.internalPage leftPid = .ok left)
    (rightFound : tree.internalPage rightPid = .ok right)
    (place : parentPage.valueIndex leftPid = some index)
    (beside : Tree.childAt parentPage (index + 1) = .ok rightPid) (free : rightPid ∉ writeSet)
    (lends : right.getMinSize < right.getSize)
    (moved : NodeMove.moveFirstToEndOf.apply ⟨some parentPage, leftPid, rightPid, left, right⟩ =
      some after) :
    Tree.borrowRightInternal options writeSet tree leftPid parent index =
      some <$> putFamily options tree parent after rightPid leftPid := by
  simp only [NodeMove.apply, place, Option.bind_eq_bind, Option.bind_some, Option.bind_eq_some_iff,
    Prod.exists] at moved
  obtain ⟨middleKey, pid, entry, same⟩ := moved
  obtain rfl := Option.some.inj same
  have enough : ¬ right.getSize ≤ right.getMinSize := Nat.not_le_of_lt lends
  have written : Tree.writePage writeSet rightPid = .ok () := if_neg free
  have middle : Tree.keyAt parentPage (index + 1) = .ok middleKey := by rw [Tree.keyAt, entry]
  simp only [Tree.borrowRightInternal, putFamily, parentFound, beside, written, leftFound,
    rightFound, middle, bind, Except.bind,
    if_neg enough, if_pos, if_neg apart.symm, Functor.map, Except.map]
  split
  · rfl
  · split
    · rfl
    · split <;> rfl

end Trees

/-! ### A page with two children to spare -/

def grandparent : InternalPage Nat := ⟨4, [(0, 10), (50, 11)]⟩

def shortOnLeft : Family Nat :=
  ⟨some grandparent, 10, 11, ⟨4, [(0, 20)]⟩, ⟨4, [(0, 21), (60, 22), (70, 23)]⟩⟩

theorem short_on_left_formed : shortOnLeft.WellFormed := by
  refine ⟨by decide, ?_, ?_, by decide, by decide, by decide⟩
  · intro parent there
    obtain rfl := Option.some.inj there
    decide
  · show List.Pairwise _ _
    decide

theorem short_on_left_decided :
    (∃ after, NodeMove.moveAllToCurrent.apply shortOnLeft = some after ∧
      NodeMove.Keeps shortOnLeft after) ↔ NodeMove.moveAllToCurrent ≠ .moveFirstToEndOf :=
  node_move_iff short_on_left_formed _ ⟨by decide, grandparent, [], 0, 50, [], rfl, rfl⟩

/-- Of the children 21, 22 and 23, the first is there twice and the second is lost. -/
theorem child_duplicated :
    ¬ ∃ after, NodeMove.moveFirstToEndOf.apply shortOnLeft = some after ∧
      NodeMove.Keeps shortOnLeft after := by
  rintro ⟨after, moved, keeps⟩
  have children : after.children = [20, 21, 21, 23] := by
    have same := Option.some.inj moved
    rw [← same]
    decide
  rw [keeps.1] at children
  exact absurd children (by decide)

end BusTub.NodeMoves
