import BusTub.SlottedPage
import BusTub.TransactionManager
import BusTub.TransitionSystem
import BusTub.LinkedChain

/-!
`storage/table/table_heap.cpp` and `table_iterator.cpp`: one bounded iterator
beside any number of calls of `InsertTuple`. What runs under one latch is one
step. A page is what its slots hold and its link to the next one; where the bytes
of a page would be overrun nothing is defined any more.
-/

namespace BusTub.TableHeap

open TablePage MachineIntegers MachineIntegers.Outcome TransitionSystem LinkedChain

def INVALID_PAGE_ID : PageId := -1

/-! ### The heap -/

structure HeapPage where
  nextPageId : PageId
  stored : List StoredTuple

/-- `TablePage::InsertTuple` on what the slots hold; `none` among the results refuses the tuple. -/
def insertStored (metadata : TablePage.TupleMeta) (data : ByteRegions.Block)
    (stored : List StoredTuple) :
    Outcome PageError (Option (List StoredTuple)) :=
  let slotEnd := BUSTUB_PAGE_SIZE - used stored stored.length
  if slotEnd < data.length then undefined
  else if slotEnd < infoOffset (stored.length + 1) + data.length then returned none
  else returned (some (stored ++ [⟨metadata, data⟩]))

theorem insert_stored_bytes {format : TupleInfoFormat} {page : ByteRegions.Block}
    {stored : List StoredTuple} (holds : Holds format page stored) (metadata : TablePage.TupleMeta)
    (tuple : TupleData) :
    (insertStored metadata tuple.data stored = undefined →
      insertTuple format metadata tuple.data page = undefined) ∧
      (insertStored metadata tuple.data stored = returned none →
      insertTuple format metadata tuple.data page = returned (page, none)) ∧
    ∀ after, insertStored metadata tuple.data stored = returned (some after) →
      ∃ written, insertTuple format metadata tuple.data page =
        returned (written, some stored.length) ∧ Holds format written after := by
  by_cases long : BUSTUB_PAGE_SIZE - used stored stored.length < tuple.data.length
  · simp [insertStored, long, holds.overruns metadata tuple long]
  · by_cases large : BUSTUB_PAGE_SIZE - used stored stored.length < infoOffset (stored.length + 1) +
      tuple.data.length
    · simp [insertStored, long, large, holds.refused metadata (Nat.not_lt.mp long) large]
    · simp only [insertStored, long, large, if_false, reduceCtorEq, false_implies, true_and,
        returned.injEq, Option.some.injEq]
      rintro after rfl
      exact holds.inserted metadata (Nat.not_lt.mp large)

/-- `TableHeap`, with the pages and the page counter of its buffer pool. -/
structure Heap where
  pages : PageId → HeapPage
  firstPageId : PageId
  lastPageId : PageId
  nextPageId : PageId

namespace Heap

def numTuples (heap : Heap) (pageId : PageId) : Nat := (heap.pages pageId).stored.length

def setStored (heap : Heap) (pageId : PageId) (stored : List StoredTuple) : Heap :=
  { heap with
    pages := Function.update heap.pages pageId { heap.pages pageId with stored := stored } }

def linkNewPage (heap : Heap) (pageId : PageId) : Heap :=
  { heap with
    pages := Function.update
      (Function.update heap.pages pageId { heap.pages pageId with nextPageId := heap.nextPageId })
      heap.nextPageId ⟨INVALID_PAGE_ID, []⟩
    lastPageId := heap.nextPageId
    nextPageId := heap.nextPageId + 1 }

def link (heap : Heap) (pageId : PageId) : Option PageId :=
  if (heap.pages pageId).nextPageId = INVALID_PAGE_ID then
    none else some (heap.pages pageId).nextPageId

def rids (pageId : PageId) (count : Nat) : List RID := (List.range count).map fun slotNum =>
    ⟨pageId, slotNum⟩

def HasRids (heap : Heap) (all : List RID) : Prop :=
  ∃ linked, Chain heap.link heap.firstPageId linked none ∧
    all = (heap.firstPageId :: linked).flatMap fun pageId => rids pageId (heap.numTuples pageId)

end Heap

/-! ### The threads -/

/-- A call of `InsertTuple` that holds `latch_` and the write latch of `page`. -/
structure Insertion where
  metadata : TablePage.TupleMeta
  tuple : TupleData
  page : PageId

inductive Scan where
  | notStarted
  | lastPageRead (lastPageId : PageId)
  | counted (stopAtRid : RID)
  | iterating (rid stopAtRid : RID)
  | outOfBound

/-- `visited` collects the RIDs at which the iterator stood. -/
structure State where
  heap : Heap
  inserting : Option Insertion
  scan : Scan
  visited : List RID

inductive Section where
  | newPageElsewhere
  | beginInsert (metadata : TablePage.TupleMeta) (tuple : TupleData)
  | linkPage
  | insertTuple
  | readLastPage
  | countTuples
  | constructIterator
  | increment

def State.latched (state : State) (pageId : PageId) : Bool :=
  state.inserting.any fun insertion => insertion.page == pageId

def isEnd (rid : RID) : Bool := rid.pageId == INVALID_PAGE_ID

def constructed (heap : Heap) (rid : RID) : RID :=
  if rid.pageId = INVALID_PAGE_ID then ⟨INVALID_PAGE_ID, 0⟩
  else if rid.slotNum ≥ heap.numTuples rid.pageId then ⟨INVALID_PAGE_ID, 0⟩
  else rid

def inBound (rid stopAtRid : RID) : Prop :=
  stopAtRid.pageId ≠ INVALID_PAGE_ID →
    rid.pageId < stopAtRid.pageId ∨
      (rid.pageId = stopAtRid.pageId ∧ rid.slotNum + 1 ≤ stopAtRid.slotNum)

instance (rid stopAtRid : RID) : Decidable (inBound rid stopAtRid) := by
  unfold inBound
  infer_instance

def incremented (heap : Heap) (rid stopAtRid : RID) : RID :=
  let next : RID := ⟨rid.pageId, rid.slotNum + 1⟩
  if next = stopAtRid then ⟨INVALID_PAGE_ID, 0⟩
  else if next.slotNum < heap.numTuples rid.pageId then next
  else ⟨(heap.pages rid.pageId).nextPageId, 0⟩

def State.moveTo (state : State) (rid stopAtRid : RID) : State :=
  { state with
    scan := .iterating rid stopAtRid
    visited := if isEnd rid then state.visited else state.visited ++ [rid] }

/-- A section that has to wait is `none`, as is one in which the process ends: `BUSTUB_ENSURE`
refuses a tuple that does not fit on an empty page. -/
def step (state : State) : Section → Option State
  | .newPageElsewhere =>
    some { state with heap := { state.heap with nextPageId := state.heap.nextPageId + 1 } }
  | .beginInsert metadata tuple =>
      match state.inserting with
      | none => some { state with inserting := some ⟨metadata, tuple, state.heap.lastPageId⟩ }
      | some _ => none
  | .linkPage =>
      match state.inserting with
      | none => none
      | some insertion =>
          let page := state.heap.pages insertion.page
          match insertStored insertion.metadata insertion.tuple.data page.stored with
          | returned none =>
              if page.stored.length ≠ 0 then
                some { state with
                  heap := state.heap.linkNewPage insertion.page
                  inserting := some { insertion with page := state.heap.nextPageId } }
              else none
          | _ => none
  | .insertTuple =>
      match state.inserting with
      | none => none
      | some insertion =>
          match insertStored insertion.metadata insertion.tuple.data
            (state.heap.pages insertion.page).stored with
          | returned (some stored) =>
              -- `latch_` goes first and the page's latch after it, with nothing between that reads
              -- either
              some { state with
                heap := state.heap.setStored insertion.page stored
                inserting := none }
          | _ => none
  | .readLastPage =>
      match state.scan, state.inserting with
      | .notStarted, none => some { state with scan := .lastPageRead state.heap.lastPageId }
      | _, _ => none
  | .countTuples =>
      match state.scan with
      | .lastPageRead lastPageId =>
          if state.latched lastPageId then none
          else some { state with scan := .counted ⟨lastPageId, state.heap.numTuples lastPageId⟩ }
      | _ => none
  | .constructIterator =>
      match state.scan with
      | .counted stopAtRid =>
          if state.latched state.heap.firstPageId then none
          else some (state.moveTo (constructed state.heap ⟨state.heap.firstPageId, 0⟩) stopAtRid)
      | _ => none
  | .increment =>
      match state.scan with
      | .iterating rid stopAtRid =>
          if isEnd rid || state.latched rid.pageId then none
          else if inBound rid stopAtRid then
            some (state.moveTo (incremented state.heap rid stopAtRid) stopAtRid)
          else some { state with scan := .outOfBound }
      | _ => none

/-- The constructor of `TableHeap`: one page, newly made and empty. -/
def Fresh (state : State) : Prop :=
  0 ≤ state.heap.firstPageId ∧ state.heap.firstPageId < state.heap.nextPageId ∧
    state.heap.lastPageId = state.heap.firstPageId ∧
    state.heap.pages state.heap.firstPageId = ⟨INVALID_PAGE_ID, []⟩ ∧
    state.inserting = none ∧ state.scan = .notStarted ∧ state.visited = []

/-! ### The chain of pages -/

structure Linked (heap : Heap) (linked : List PageId) : Prop where
  chain : Chain heap.link heap.firstPageId linked none
  ends : last heap.firstPageId linked = heap.lastPageId
  ascending : (heap.firstPageId :: linked).Pairwise (· < ·)
  allocated : ∀ pageId ∈ heap.firstPageId :: linked, 0 ≤ pageId ∧ pageId < heap.nextPageId
  filled : ∀ pageId ∈ heap.firstPageId :: linked, pageId ≠ heap.lastPageId →
    0 < heap.numTuples pageId

structure Grows (before after : Heap) (linked more : List PageId) : Prop where
  first : after.firstPageId = before.firstPageId
  behind : after.lastPageId = before.lastPageId ∧ more = linked ∨
    (∃ added, more = linked ++ [added]) ∧ after.numTuples before.lastPageId =
      before.numTuples before.lastPageId
  settled : ∀ pageId ∈ before.firstPageId :: linked, pageId ≠ before.lastPageId →
    after.numTuples pageId = before.numTuples pageId
  keeps : ∀ pageId ∈ before.firstPageId :: linked, before.numTuples pageId ≤ after.numTuples pageId

section Chains

variable {heap : Heap} {linked : List PageId}

theorem Linked.unique (ok : Linked heap linked) : (heap.firstPageId :: linked).Nodup :=
  ok.ascending.imp fun less => Int.ne_of_lt less

theorem Linked.last_mem (ok : Linked heap linked) : heap.lastPageId ∈ heap.firstPageId :: linked :=
  ok.ends ▸ LinkedChain.last_mem _ _

theorem last_greatest {start : PageId} {visited : List PageId}
    (ascending : (start :: visited).Pairwise (· < ·)) :
    ∀ pageId ∈ start :: visited, pageId ≤ last start visited := by
  induction visited generalizing start with
  | nil =>
      intro pageId member
      exact (List.mem_singleton.mp member).le
  | cons next rest ih =>
      obtain ⟨first, others⟩ := List.pairwise_cons.mp ascending
      intro pageId member
      rw [last_cons]
      rcases List.mem_cons.mp member with rfl | behind
      · exact (Int.le_of_lt (first next List.mem_cons_self)).trans
          (ih others next List.mem_cons_self)
      · exact ih others pageId behind

theorem Linked.le_last (ok : Linked heap linked) :
    ∀ pageId ∈ heap.firstPageId :: linked, pageId ≤ heap.lastPageId :=
  ok.ends ▸ last_greatest ok.ascending

theorem grows_refl (heap : Heap) (linked : List PageId) : Grows heap heap linked linked :=
  ⟨rfl, .inl ⟨rfl, rfl⟩, fun _ _ _ => rfl, fun _ _ => Nat.le_refl _⟩

theorem Linked.new_page (ok : Linked heap linked) :
    Linked { heap with nextPageId := heap.nextPageId + 1 } linked where
  chain := ok.chain
  ends := ok.ends
  ascending := ok.ascending
  allocated :=
    fun pageId member =>
      ⟨(ok.allocated pageId member).1, Int.lt_add_one_of_le (ok.allocated pageId member).2.le⟩
  filled := ok.filled

@[simp] theorem num_tuples_set (heap : Heap) (pageId : PageId) (stored : List StoredTuple)
    (other : PageId) :
    (heap.setStored pageId stored).numTuples other =
      if other = pageId then stored.length else heap.numTuples other := by
  by_cases same : other = pageId
  · subst same
    simp [Heap.numTuples, Heap.setStored]
  · simp [Heap.numTuples, Heap.setStored, same]

@[simp] theorem link_set (heap : Heap) (pageId : PageId) (stored : List StoredTuple) :
    (heap.setStored pageId stored).link = heap.link := by
  funext other
  by_cases same : other = pageId
  · subst same
    simp [Heap.link, Heap.setStored]
  · simp [Heap.link, Heap.setStored, same]

theorem Linked.placed (ok : Linked heap linked) {stored : List StoredTuple}
    (more : heap.numTuples heap.lastPageId ≤ stored.length) :
    Linked (heap.setStored heap.lastPageId stored) linked ∧
      Grows heap (heap.setStored heap.lastPageId stored) linked linked := by
  constructor
  · constructor
    · rw [link_set]
      exact ok.chain
    · exact ok.ends
    · exact ok.ascending
    · exact ok.allocated
    · intro pageId member different
      have settled : pageId ≠ heap.lastPageId := different
      rw [num_tuples_set, if_neg settled]
      exact ok.filled pageId member settled
  · constructor
    · rfl
    · exact .inl ⟨rfl, rfl⟩
    · intro pageId _ different
      rw [num_tuples_set, if_neg different]
    · intro pageId _
      rw [num_tuples_set]
      split
      next same => exact same ▸ more
      next => exact Nat.le_refl _

theorem link_new (heap : Heap) (pageId : PageId) (valid : heap.nextPageId ≠ INVALID_PAGE_ID)
    (fresh : pageId ≠ heap.nextPageId) :
    (heap.linkNewPage pageId).link =
      Function.update (Function.update heap.link pageId (some heap.nextPageId))
        heap.nextPageId none := by
  funext other
  by_cases new : other = heap.nextPageId
  · subst new
    simp [Heap.link, Heap.linkNewPage]
  · by_cases same : other = pageId
    · subst same
      simp [Heap.link, Heap.linkNewPage, fresh, valid]
    · simp [Heap.link, Heap.linkNewPage, new, same]

theorem num_tuples_new (heap : Heap) (pageId other : PageId) (old : other ≠ heap.nextPageId) :
    (heap.linkNewPage pageId).numTuples other = heap.numTuples other := by
  by_cases same : other = pageId
  · subst same
    simp [Heap.numTuples, Heap.linkNewPage, old]
  · simp [Heap.numTuples, Heap.linkNewPage, old, same]

/-- A page is linked behind the last one, which holds a tuple. -/
theorem Linked.grown (ok : Linked heap linked) (any : 0 < heap.numTuples heap.lastPageId) :
    Linked (heap.linkNewPage heap.lastPageId) (linked ++ [heap.nextPageId]) ∧
      Grows heap (heap.linkNewPage heap.lastPageId) linked (linked ++ [heap.nextPageId]) := by
  have old : ∀ pageId ∈ heap.firstPageId :: linked, pageId ≠ heap.nextPageId := fun pageId member =>
    Int.ne_of_lt (ok.allocated pageId member).2
  have positive : 0 ≤ heap.nextPageId := by
    have first := ok.allocated _ List.mem_cons_self
    lia
  have valid : heap.nextPageId ≠ INVALID_PAGE_ID := by
    unfold INVALID_PAGE_ID
    lia
  constructor
  · constructor
    · have stops := chain_last ok.chain
      have extended := @chain_insert _ heap.link heap.firstPageId linked [] none _ heap.nextPageId
        (by simpa using ok.unique) (by simpa using fun same => old _ same rfl)
          (by simpa using ok.chain)
      rw [stops, ok.ends] at extended
      rw [link_new heap _ valid (old _ ok.last_mem)]
      exact extended
    · exact (last_append _ _ _).trans rfl
    · have apart : ∀ pageId ∈ heap.firstPageId :: linked, ∀ added ∈ [heap.nextPageId],
          pageId < added := by
        intro pageId member added new
        rw [List.mem_singleton.mp new]
        exact (ok.allocated pageId member).2
      exact List.pairwise_append.mpr ⟨ok.ascending, List.pairwise_singleton _ _, apart⟩
    · intro pageId member
      rcases List.mem_append.mp
        (show pageId ∈ (heap.firstPageId :: linked) ++
          [heap.nextPageId] from member) with here | new
      · exact ⟨(ok.allocated pageId here).1, Int.lt_add_one_of_le (ok.allocated pageId here).2.le⟩
      · rw [List.mem_singleton.mp new]
        exact ⟨positive, Int.lt_add_one_of_le (Int.le_refl _)⟩
    · intro pageId member different
      rcases List.mem_append.mp
        (show pageId ∈ (heap.firstPageId :: linked) ++
          [heap.nextPageId] from member) with here | new
      · rw [num_tuples_new heap _ _ (old _ here)]
        by_cases wasLast : pageId = heap.lastPageId
        · exact wasLast ▸ any
        · exact ok.filled pageId here wasLast
      · exact absurd (List.mem_singleton.mp new) different
  · constructor
    · rfl
    · exact .inr ⟨⟨_, rfl⟩, num_tuples_new heap _ _ (old _ ok.last_mem)⟩
    · exact fun pageId member _ => num_tuples_new heap _ _ (old _ member)
    · exact fun pageId member => (num_tuples_new heap _ _ (old _ member)).ge

end Chains

/-! ### What one section does -/

theorem insert_stored_grows {metadata : TablePage.TupleMeta} {data : ByteRegions.Block}
    {stored after : List StoredTuple}
    (inserts : insertStored metadata data stored = returned (some after)) :
    after.length = stored.length + 1 := by
  simp only [insertStored] at inserts
  split at inserts
  · cases inserts
  · split at inserts
    · cases inserts
    · obtain rfl := Option.some.inj (Outcome.returned.inj inserts)
      simp

inductive ScanStep (state : State) : Section → State → Prop where
  | readLastPage : state.scan = .notStarted → state.inserting = none →
      ScanStep state .readLastPage { state with scan := .lastPageRead state.heap.lastPageId }
  | countTuples {lastPageId : PageId} : state.scan = .lastPageRead lastPageId →
      state.latched lastPageId = false →
        ScanStep state .countTuples { state with
          scan := .counted ⟨lastPageId, state.heap.numTuples lastPageId⟩ }
  | constructIterator {stopAtRid : RID} : state.scan = .counted stopAtRid →
      state.latched state.heap.firstPageId = false →
      ScanStep state .constructIterator
        (state.moveTo (constructed state.heap ⟨state.heap.firstPageId, 0⟩) stopAtRid)
  | moves {rid stopAtRid : RID} : state.scan = .iterating rid stopAtRid → isEnd rid = false →
      inBound rid stopAtRid →
        ScanStep state .increment (state.moveTo (incremented state.heap rid stopAtRid) stopAtRid)
  | fails {rid stopAtRid : RID} : state.scan = .iterating rid stopAtRid → isEnd rid = false →
      ¬inBound rid stopAtRid → ScanStep state .increment { state with scan := .outOfBound }

inductive InsertStep (state : State) : Section → State → Prop where
  | newPage : InsertStep state .newPageElsewhere
      { state with heap := { state.heap with nextPageId := state.heap.nextPageId + 1 } }
  | begins (metadata : TablePage.TupleMeta) (tuple : TupleData) : state.inserting = none →
      InsertStep state (.beginInsert metadata tuple)
        { state with inserting := some ⟨metadata, tuple, state.heap.lastPageId⟩ }
  | links {insertion : Insertion} : state.inserting = some insertion →
      0 < state.heap.numTuples insertion.page → InsertStep state .linkPage
        { state with
          heap := state.heap.linkNewPage insertion.page
          inserting := some { insertion with page := state.heap.nextPageId } }
  | inserts {insertion : Insertion} {stored : List StoredTuple} : state.inserting = some insertion →
      stored.length = state.heap.numTuples insertion.page + 1 →
      InsertStep state .insertTuple
        { state with heap := state.heap.setStored insertion.page stored, inserting := none }

theorem step_cases {state after : State} {label : Section} (steps : step state label = some after) :
    ScanStep state label after ∨ InsertStep state label after := by
  cases label with
  | newPageElsewhere =>
      obtain rfl := Option.some.inj steps
      exact .inr .newPage
  | beginInsert metadata tuple =>
      simp only [step] at steps
      split at steps
      next free =>
        obtain rfl := Option.some.inj steps
        exact .inr (.begins metadata tuple free)
      next => cases steps
  | linkPage =>
      simp only [step] at steps
      split at steps
      next => cases steps
      next insertion busy =>
        split at steps
        · split at steps
          next any =>
            obtain rfl := Option.some.inj steps
            exact .inr (.links busy (Nat.pos_of_ne_zero any))
          next => cases steps
        · cases steps
  | insertTuple =>
      simp only [step] at steps
      split at steps
      next => cases steps
      next insertion busy =>
        split at steps
        next inserted =>
          obtain rfl := Option.some.inj steps
          exact .inr (.inserts busy (insert_stored_grows inserted))
        next => cases steps
  | readLastPage =>
      simp only [step] at steps
      split at steps
      next first free =>
        obtain rfl := Option.some.inj steps
        exact .inl (.readLastPage first free)
      next => cases steps
  | countTuples =>
      simp only [step] at steps
      split at steps
      next lastPageId phase =>
        split at steps
        next => cases steps
        next free =>
          obtain rfl := Option.some.inj steps
          exact .inl (.countTuples phase (Bool.eq_false_iff.mpr free))
      next => cases steps
  | constructIterator =>
      simp only [step] at steps
      split at steps
      next stopAtRid phase =>
        split at steps
        next => cases steps
        next free =>
          obtain rfl := Option.some.inj steps
          exact .inl (.constructIterator phase (Bool.eq_false_iff.mpr free))
      next => cases steps
  | increment =>
      simp only [step] at steps
      split at steps
      next rid stopAtRid phase =>
        split at steps
        next => cases steps
        next free =>
          have going : isEnd rid = false := by
            cases ends : isEnd rid with
            | false => rfl
            | true => simp [ends] at free
          split at steps
          next bounded =>
            obtain rfl := Option.some.inj steps
            exact .inl (.moves phase going bounded)
          next beyond =>
            obtain rfl := Option.some.inj steps
            exact .inl (.fails phase going beyond)
      next => cases steps

theorem ScanStep.heap_same {state after : State} {label : Section}
    (steps : ScanStep state label after) :
    after.heap = state.heap ∧ after.inserting = state.inserting := by
  cases steps <;> exact ⟨rfl, rfl⟩

theorem InsertStep.scan_same {state after : State} {label : Section}
    (steps : InsertStep state label after) :
    after.scan = state.scan ∧ after.visited = state.visited := by
  cases steps <;> exact ⟨rfl, rfl⟩

structure Sound (state : State) (linked : List PageId) : Prop where
  heap : Linked state.heap linked
  writes : ∀ insertion, state.inserting = some insertion → insertion.page = state.heap.lastPageId
  settled : state.inserting = none → linked = [] ∨ 0 < state.heap.numTuples state.heap.lastPageId

theorem fresh_sound {state : State} (fresh : Fresh state) : Sound state [] := by
  obtain ⟨valid, allocated, same, empty, free, _⟩ := fresh
  constructor
  · constructor
    · simp [Chain, Heap.link, empty]
    · exact same.symm
    · exact List.pairwise_singleton _ _
    · intro pageId member
      rw [List.mem_singleton.mp member]
      exact ⟨valid, allocated⟩
    · intro pageId member different
      rw [List.mem_singleton.mp member, same] at different
      exact absurd rfl different
  · intro insertion busy
    rw [free] at busy
    cases busy
  · exact fun _ => .inl rfl

theorem Sound.same {state after : State} {linked : List PageId} (ok : Sound state linked)
    (heap : after.heap = state.heap) (inserting : after.inserting = state.inserting) :
    Sound after linked := by
  constructor
  · exact heap ▸ ok.heap
  · rw [inserting, heap]
    exact ok.writes
  · rw [inserting, heap]
    exact ok.settled

theorem Sound.step {state after : State} {linked : List PageId} {label : Section}
    (ok : Sound state linked) (steps : step state label = some after) :
    ∃ more, Sound after more ∧ Grows state.heap after.heap linked more := by
  rcases step_cases steps with scans | inserts
  · obtain ⟨heap, inserting⟩ := scans.heap_same
    exact ⟨linked, ok.same heap inserting, heap ▸ grows_refl _ _⟩
  · cases inserts with
    | newPage =>
        exact ⟨linked, ⟨ok.heap.new_page, ok.writes, ok.settled⟩,
          ⟨rfl, .inl ⟨rfl, rfl⟩, fun _ _ _ => rfl, fun _ _ => Nat.le_refl _⟩⟩
    | begins metadata tuple free =>
        refine ⟨linked, ⟨ok.heap, ?_, ?_⟩, grows_refl _ _⟩
        · rintro insertion busy
          exact Option.some.inj busy ▸ rfl
        · rintro free
          cases free
    | links busy any =>
        have here := ok.writes _ busy
        rw [here] at any ⊢
        obtain ⟨chain, grows⟩ := ok.heap.grown any
        refine ⟨_, ⟨chain, ?_, ?_⟩, grows⟩
        · rintro insertion busy
          exact Option.some.inj busy ▸ rfl
        · rintro free
          cases free
    | @inserts insertion stored busy longer =>
        have here := ok.writes _ busy
        rw [here] at longer ⊢
        have more : state.heap.numTuples state.heap.lastPageId ≤ stored.length := by omega
        obtain ⟨chain, grows⟩ := ok.heap.placed more
        refine ⟨_, ⟨chain, ?_, ?_⟩, grows⟩
        · rintro insertion busy
          cases busy
        · rintro free
          right
          change 0 < (state.heap.setStored state.heap.lastPageId _).numTuples state.heap.lastPageId
          rw [num_tuples_set, if_pos rfl, longer]
          omega

/-! ### What a scan has seen -/

def flat (shown : List (PageId × Nat)) : List RID := shown.flatMap fun page =>
    Heap.rids page.1 page.2

structure Frozen (heap : Heap) (linked : List PageId) (full : List (PageId × Nat)) (pageId : PageId)
    (count : Nat) : Prop where
  place : ∃ behind, heap.firstPageId :: linked = full.map Prod.fst ++ pageId :: behind
  counted : ∀ shown ∈ full, heap.numTuples shown.1 = shown.2
  reached : count ≤ heap.numTuples pageId
  holds : full ≠ [] → 0 < count

section FrozenChains

variable {heap after : Heap} {linked more : List PageId} {full : List (PageId × Nat)}
  {pageId : PageId} {count : Nat} {shown : PageId × Nat}

theorem Frozen.page_mem (frozen : Frozen heap linked full pageId count) :
    pageId ∈ heap.firstPageId :: linked := by
  obtain ⟨behind, place⟩ := frozen.place
  rw [place]
  exact List.mem_append_right _ List.mem_cons_self

theorem Frozen.full_mem (frozen : Frozen heap linked full pageId count) (member : shown ∈ full) :
    shown.1 ∈ heap.firstPageId :: linked := by
  obtain ⟨behind, place⟩ := frozen.place
  rw [place]
  exact List.mem_append_left _ (List.mem_map_of_mem member)

theorem Frozen.full_lt (frozen : Frozen heap linked full pageId count) (ok : Linked heap linked)
    (member : shown ∈ full) : shown.1 < pageId := by
  obtain ⟨behind, place⟩ := frozen.place
  have ascending := ok.ascending
  rw [place] at ascending
  exact (List.pairwise_append.mp ascending).2.2 _ (List.mem_map_of_mem member) _ List.mem_cons_self

theorem Frozen.full_settled (frozen : Frozen heap linked full pageId count)
    (ok : Linked heap linked) (member : shown ∈ full) : shown.1 ≠ heap.lastPageId := by
  have before := frozen.full_lt ok member
  have bound := ok.le_last _ frozen.page_mem
  lia

theorem Frozen.grows (frozen : Frozen heap linked full pageId count) (ok : Linked heap linked)
    (grows : Grows heap after linked more) : Frozen after more full pageId count := by
  obtain ⟨behind, place⟩ := frozen.place
  constructor
  · rw [grows.first]
    rcases grows.behind with ⟨_, rfl⟩ | ⟨⟨added, rfl⟩, _⟩
    · exact ⟨behind, place⟩
    · refine ⟨behind ++ [added], ?_⟩
      rw [← List.cons_append, place]
      simp
  · intro shown member
    rw [grows.settled _ (frozen.full_mem member) (frozen.full_settled ok member)]
    exact frozen.counted shown member
  · exact frozen.reached.trans (grows.keeps _ frozen.page_mem)
  · exact frozen.holds

theorem Frozen.all (frozen : Frozen heap linked full heap.lastPageId count)
    (ok : Linked heap linked) :
    heap.HasRids (flat (full ++ [(heap.lastPageId, heap.numTuples heap.lastPageId)])) := by
  obtain ⟨behind, place⟩ := frozen.place
  have nothing : behind = [] := by
    cases behind with
    | nil => rfl
    | cons next rest =>
        have ascending := ok.ascending
        have bound := ok.le_last next (by rw [place]; simp)
        rw [place] at ascending
        have less :=
          (List.pairwise_cons.mp (List.pairwise_append.mp ascending).2.1).1 next List.mem_cons_self
        lia
  subst nothing
  refine ⟨linked, ok.chain, ?_⟩
  have shown : (full.map Prod.fst).flatMap (fun pageId =>
      Heap.rids pageId (heap.numTuples pageId)) = flat full := by
    rw [flat, List.flatMap_map]
    apply List.flatMap_congr
    intro page member
    rw [frozen.counted page member]
  rw [place, List.flatMap_append, shown]
  simp [flat]

/-- The last page begins a frozen chain as soon as no insertion is under way. -/
theorem frozen_last {state : State} (ok : Sound state linked) (free : state.inserting = none) :
    ∃ full, Frozen state.heap linked full state.heap.lastPageId
      (state.heap.numTuples state.heap.lastPageId) := by
  have split : state.heap.firstPageId :: linked =
      (state.heap.firstPageId :: linked).dropLast ++ [state.heap.lastPageId] := by
    have ends := ok.heap.ends
    have lastHere := List.getLast?_eq_some_getLast (List.cons_ne_nil state.heap.firstPageId linked)
    rw [List.getLast?_cons] at lastHere
    have same : (state.heap.firstPageId :: linked).getLast (List.cons_ne_nil _ _) =
        state.heap.lastPageId :=
      (Option.some.inj lastHere).symm.trans ends
    rw [← same]
    exact (List.dropLast_append_getLast _).symm
  refine ⟨(state.heap.firstPageId :: linked).dropLast.map fun pageId =>
    (pageId, state.heap.numTuples pageId), ?_⟩
  constructor
  · refine ⟨[], ?_⟩
    rw [List.map_map]
    exact split.trans (by simp [Function.comp_def])
  · intro shown member
    obtain ⟨pageId, _, rfl⟩ := List.mem_map.mp member
    rfl
  · exact Nat.le_refl _
  · intro some
    rcases ok.settled free with rfl | any
    · exact absurd rfl some
    · exact any

end FrozenChains

/-! ### The call of `MakeIterator` -/

def Recalls (opened state : State) (seen : List RID) : Prop :=
  ∃ earlier later moment, Run (graph step) opened earlier moment ∧
    Run (graph step) moment later state ∧ moment.heap.HasRids seen

theorem Recalls.step {opened before after : State} {label : Section} {seen : List RID}
    (recalls : Recalls opened before seen) (steps : step before label = some after) :
    Recalls opened after seen := by
  obtain ⟨earlier, later, moment, comes, goes, had⟩ := recalls
  exact ⟨earlier, later ++ [label], moment, comes, run_snoc goes steps, had⟩

def Knows (opened state : State) (linked : List PageId) : Prop :=
  match state.scan with
  | .lastPageRead pageId => state.visited = [] ∧
      ∃ full, Frozen state.heap linked full pageId (state.heap.numTuples pageId) ∧
        (pageId ≠ state.heap.lastPageId →
          Recalls opened state (flat (full ++ [(pageId, state.heap.numTuples pageId)])))
  | .notStarted => state.visited = []
  | .counted stopAtRid => state.visited = [] ∧
      ∃ full, Frozen state.heap linked full stopAtRid.pageId stopAtRid.slotNum ∧
        Recalls opened state (flat (full ++ [(stopAtRid.pageId, stopAtRid.slotNum)]))
  | _ => True

structure CallSound (opened state : State) : Prop where
  run : ∃ labels, Run (graph step) opened labels state
  knows : ∃ linked, Sound state linked ∧ Knows opened state linked

/-- An insertion beside the call: what it reads of a page that was not the last does not change
any more, and where the last page gets a successor the heap of before is what it had read. -/
theorem Knows.inserted {opened before after : State} {linked more : List PageId}
    {labels : List Section} {label : Section} (knows : Knows opened before linked)
    (ok : Sound before linked) (run : Run (graph step) opened labels before)
    (steps : step before label = some after) (inserts : InsertStep before label after)
    (grows : Grows before.heap after.heap linked more) : Knows opened after more := by
  obtain ⟨sameScan, sameVisited⟩ := inserts.scan_same
  unfold Knows at knows ⊢
  rw [sameScan, sameVisited]
  cases phase : before.scan with
  | lastPageRead pageId =>
      rw [phase] at knows
      obtain ⟨nothing, full, frozen, recalls⟩ := knows
      have next := frozen.grows ok.heap grows
      refine ⟨nothing, full, ⟨next.place, next.counted, Nat.le_refl _, fun some => ?_⟩,
        fun behind => ?_⟩
      · exact Nat.lt_of_lt_of_le (frozen.holds some) (grows.keeps _ frozen.page_mem)
      · by_cases wasLast : pageId = before.heap.lastPageId
        · subst wasLast
          rcases grows.behind with ⟨stays, _⟩ | ⟨_, counted⟩
          · exact absurd stays.symm behind
          · rw [counted]
            exact Recalls.step ⟨labels, [], before, run, .refl _, frozen.all ok.heap⟩ steps
        · rw [grows.settled _ frozen.page_mem wasLast]
          exact (recalls wasLast).step steps
  | counted stopAtRid =>
      rw [phase] at knows
      obtain ⟨nothing, full, frozen, recalls⟩ := knows
      exact ⟨nothing, full, frozen.grows ok.heap grows, recalls.step steps⟩
  | notStarted =>
      rw [phase] at knows
      exact knows
  | iterating rid stopAtRid => trivial
  | outOfBound => trivial

theorem Knows.scanned {opened before after : State} {linked : List PageId} {labels : List Section}
    {label : Section} (knows : Knows opened before linked) (ok : Sound before linked)
    (run : Run (graph step) opened labels before) (steps : step before label = some after)
    (scans : ScanStep before label after) :
    Knows opened after linked := by
  unfold Knows at knows
  cases scans with
  | readLastPage first free =>
      rw [first] at knows
      obtain ⟨full, frozen⟩ := frozen_last ok free
      exact ⟨knows, full, frozen, fun behind => absurd rfl behind⟩
  | @countTuples pageId phase free =>
      rw [phase] at knows
      obtain ⟨nothing, full, frozen, recalls⟩ := knows
      refine ⟨nothing, full, frozen, ?_⟩
      by_cases stillLast : pageId = before.heap.lastPageId
      · subst stillLast
        exact Recalls.step ⟨labels, [], before, run, .refl _, frozen.all ok.heap⟩ steps
      · exact (recalls stillLast).step steps
  | constructIterator phase free => trivial
  | moves phase going bounded => trivial
  | fails phase going beyond => trivial

theorem CallSound.step {opened before after : State} {label : Section}
    (sound : CallSound opened before)
    (steps : step before label = some after) : CallSound opened after := by
  obtain ⟨⟨labels, run⟩, linked, ok, knows⟩ := sound
  have behind := run_snoc run steps
  obtain ⟨more, okAfter, grows⟩ := ok.step steps
  rcases step_cases steps with scans | inserts
  · obtain ⟨heap, inserting⟩ := scans.heap_same
    exact ⟨⟨_, behind⟩, linked, ok.same heap inserting, knows.scanned ok run steps scans⟩
  · exact ⟨⟨_, behind⟩, more, okAfter, knows.inserted ok run steps inserts grows⟩

theorem call_sound {opened before after : State} {labels : List Section}
    (sound : CallSound opened before)
    (run : Run (graph step) before labels after) : CallSound opened after :=
  run_preserves (fun _ _ _ sound steps => sound.step steps) run sound

theorem fresh_call_sound {state : State} (fresh : Fresh state) : CallSound state state := by
  refine ⟨⟨[], .refl _⟩, [], fresh_sound fresh, ?_⟩
  obtain ⟨_, _, _, _, _, first, nothing⟩ := fresh
  unfold Knows
  rw [first]
  exact nothing

theorem opened_call_sound {start opened : State} (reached : Reachable Fresh (graph step) start)
    (opens : step start .readLastPage = some opened) : CallSound opened opened := by
  obtain ⟨made, labels, fresh, run⟩ := reached
  obtain ⟨_, linked, ok, knows⟩ := call_sound (fresh_call_sound fresh) run
  rcases step_cases opens with scans | inserts
  · cases scans with
    | readLastPage first free =>
        unfold Knows at knows
        rw [first] at knows
        obtain ⟨full, frozen⟩ := frozen_last ok free
        exact ⟨⟨[], .refl _⟩, linked, ok.same rfl rfl, knows, full, frozen, fun behind =>
          absurd rfl behind⟩
  · cases inserts

/-! ### The iterator -/

inductive Stands (shown : List (PageId × Nat)) : RID → List RID → Prop where
  | ended {rid : RID} : isEnd rid = true → Stands shown rid (flat shown)
  | here {before behind : List (PageId × Nat)} {pageId : PageId} {size slotNum : Nat} :
      shown = before ++ (pageId, size) :: behind → slotNum < size →
      Stands shown ⟨pageId, slotNum⟩ (flat before ++ Heap.rids pageId (slotNum + 1))

theorem rids_succ (pageId : PageId) (count : Nat) :
    Heap.rids pageId (count + 1) = Heap.rids pageId count ++ [⟨pageId, count⟩] := by
  simp [Heap.rids, List.range_succ]

@[simp] theorem rids_length (pageId : PageId) (count : Nat) :
    (Heap.rids pageId count).length = count := by
  simp [Heap.rids]

theorem flat_append (front back : List (PageId × Nat)) :
    flat (front ++ back) = flat front ++ flat back :=
  List.flatMap_append

@[simp] theorem flat_single (pageId : PageId) (count : Nat) :
    flat [(pageId, count)] = Heap.rids pageId count := by
  simp [flat]

theorem rids_prefix (pageId : PageId) {first second : Nat} (le : first ≤ second) :
    Heap.rids pageId first <+: Heap.rids pageId second := by
  induction le with
  | refl => exact List.prefix_rfl
  | step _ ih =>
      rw [rids_succ]
      exact ih.trans (List.prefix_append _ _)

theorem Stands.visited_prefix {shown : List (PageId × Nat)} {rid : RID} {visited : List RID}
    (stands : Stands shown rid visited) : visited <+: flat shown := by
  cases stands with
  | ended _ => exact List.prefix_rfl
  | @here before behind pageId size slotNum split inside =>
      obtain ⟨rest, whole⟩ := rids_prefix pageId (show slotNum + 1 ≤ size from inside)
      refine ⟨rest ++ flat behind, ?_⟩
      rw [split, flat_append, List.append_assoc, ← List.append_assoc (Heap.rids _ _), whole]
      exact congrArg _ (by simp [flat])

theorem not_end {rid : RID} (valid : 0 ≤ rid.pageId) : isEnd rid = false := by
  have different : rid.pageId ≠ INVALID_PAGE_ID := by
    unfold INVALID_PAGE_ID
    lia
  simp [isEnd, different]

theorem Stands.whole {shown : List (PageId × Nat)} {rid : RID} {visited : List RID}
    (stands : Stands shown rid visited) (valid : ∀ page ∈ shown, 0 ≤ page.1)
    (ends : isEnd rid = true) : visited = flat shown := by
  cases stands with
  | ended _ => rfl
  | @here before behind pageId size slotNum split inside =>
      have positive : 0 ≤ pageId := valid (pageId, size) (by simp [split])
      rw [@not_end ⟨pageId, slotNum⟩ positive] at ends
      cases ends

section Iterating

variable {heap : Heap} {linked : List PageId} {full : List (PageId × Nat)} {pageId : PageId}
  {count : Nat}

/-- The pages of a frozen chain that follow each other are linked, and one behind the first holds
a tuple. -/
theorem Frozen.next (frozen : Frozen heap linked full pageId count) (ok : Linked heap linked)
    {before behind : List (PageId × Nat)} {first second : PageId × Nat}
    (split : full ++ [(pageId, count)] = before ++ first :: second :: behind) :
    (heap.pages first.1).nextPageId = second.1 ∧ first ∈ full ∧ 0 < second.2 := by
  obtain ⟨rest, place⟩ := frozen.place
  have pages := congrArg (List.map Prod.fst) split
  simp only [List.map_append, List.map_cons, List.map_nil] at pages
  have whole : heap.firstPageId :: linked =
      before.map Prod.fst ++ first.1 :: second.1 :: (behind.map Prod.fst ++ rest) := by
    have longer := congrArg (· ++ rest) pages
    simpa [place] using longer
  have follows := chain_next ok.chain whole
  have inFull : first ∈ full := by
    obtain ⟨init, final, same⟩ : ∃ init final, second :: behind = init ++ [final] :=
      ⟨_, _, (List.dropLast_append_getLast (List.cons_ne_nil second behind)).symm⟩
    have again : full ++ [(pageId, count)] = (before ++ first :: init) ++ [final] := by
      rw [split, same]
      simp
    rw [(List.append_inj' again rfl).1]
    simp
  refine ⟨?_, inFull, ?_⟩
  · unfold Heap.link at follows
    split at follows
    · cases follows
    · exact Option.some.inj follows
  · have member : second ∈ full ++ [(pageId, count)] := by
      rw [split]
      simp
    rcases List.mem_append.mp member with here | final
    · rw [← frozen.counted _ here]
      exact ok.filled _ (frozen.full_mem here) (frozen.full_settled ok here)
    · rw [List.mem_singleton.mp final]
      exact frozen.holds (List.ne_nil_of_mem inFull)

theorem Frozen.shown_valid (frozen : Frozen heap linked full pageId count) (ok : Linked heap linked)
    {shown : PageId × Nat} (member : shown ∈ full ++ [(pageId, count)]) : 0 ≤ shown.1 := by
  rcases List.mem_append.mp member with here | final
  · exact (ok.allocated _ (frozen.full_mem here)).1
  · rw [List.mem_singleton.mp final]
    exact (ok.allocated _ frozen.page_mem).1

/-- One `operator++` on a frozen chain: it is in bound and goes to the next slot that was shown. -/
theorem Frozen.increment (frozen : Frozen heap linked full pageId count) (ok : Linked heap linked)
    {rid : RID} {visited : List RID} (stands : Stands (full ++ [(pageId, count)]) rid visited)
    (going : isEnd rid = false) :
    inBound rid ⟨pageId, count⟩ ∧
      ((isEnd (incremented heap rid ⟨pageId, count⟩) = true ∧
        visited = flat (full ++ [(pageId, count)])) ∨
          (isEnd (incremented heap rid ⟨pageId, count⟩) = false ∧
          Stands (full ++ [(pageId, count)]) (incremented heap rid ⟨pageId, count⟩)
            (visited ++ [incremented heap rid ⟨pageId, count⟩]))) := by
  cases stands with
  | ended ends =>
      rw [going] at ends
      cases ends
  | @here before behind page size slotNum split inside =>
      have valid : 0 ≤ page :=
        frozen.shown_valid ok (show (page, size) ∈ full ++ [(pageId, count)] by simp [split])
      have atNext : ∀ next, next = slotNum + 1 → next < size →
          Stands (full ++ [(pageId, count)]) ⟨page, next⟩
            (flat before ++ Heap.rids page (slotNum + 1) ++ [⟨page, next⟩]) := by
        rintro next rfl inside
        rw [List.append_assoc, ← rids_succ]
        exact .here split inside
      cases behind with
      | nil =>
          -- the page of the stop
          obtain ⟨rfl, same⟩ := List.append_inj' split rfl
          obtain ⟨rfl, rfl⟩ := Prod.mk.inj (List.cons.inj same).1
          refine ⟨fun _ => .inr ⟨rfl, inside⟩, ?_⟩
          by_cases stop : slotNum + 1 = count
          · left
            subst stop
            refine ⟨by simp [incremented, isEnd], ?_⟩
            rw [flat_append, flat_single]
          · right
            have inside' : slotNum + 1 < count := by omega
            have listed : slotNum + 1 < heap.numTuples pageId :=
              Nat.lt_of_lt_of_le inside' frozen.reached
            have goes : incremented heap ⟨pageId, slotNum⟩ ⟨pageId, count⟩ =
                ⟨pageId, slotNum + 1⟩ := by
              simp [incremented, stop, listed]
            rw [goes]
            exact ⟨not_end valid, atNext _ rfl inside'⟩
      | cons second rest =>
          obtain ⟨link, inFull, some⟩ := frozen.next ok split
          have less := frozen.full_lt ok inFull
          have apart : page ≠ pageId := Int.ne_of_lt less
          have counted := frozen.counted _ inFull
          refine ⟨fun _ => .inl less, .inr ?_⟩
          by_cases within : slotNum + 1 < size
          · have goes : incremented heap ⟨page, slotNum⟩ ⟨pageId, count⟩ = ⟨page, slotNum + 1⟩ := by
              simp only at counted
              simp [incremented, apart, counted, within]
            rw [goes]
            exact ⟨not_end valid, atNext _ rfl within⟩
          · have goes : incremented heap ⟨page, slotNum⟩ ⟨pageId, count⟩ = ⟨second.1, 0⟩ := by
              simp only at counted link
              simp [incremented, apart, counted, within, link]
            have full' : slotNum + 1 = size := by omega
            have secondValid :=
              frozen.shown_valid ok (show second ∈ full ++ [(pageId, count)] by simp [split])
            rw [goes, full']
            refine ⟨not_end secondValid, ?_⟩
            have next : full ++ [(pageId, count)] = (before ++ [(page, size)]) ++
              (second.1, second.2) :: rest := by
              rw [split]
              simp
            have visits := Stands.here next some
            rwa [flat_append, flat_single] at visits

end Iterating

/-! ### Runs of the iterator -/

def Section.isIncrement : Section → Bool
  | .increment => true
  | _ => false

def increments (labels : List Section) : Nat := labels.countP Section.isIncrement

def State.ended (state : State) : Bool :=
  match state.scan with
  | .iterating rid _ => isEnd rid
  | _ => false

structure Iterates (full : List (PageId × Nat)) (pageId : PageId) (count : Nat)
    (state : State) : Prop where
  frozen : ∃ linked, Sound state linked ∧ Frozen state.heap linked full pageId count
  stands : ∃ rid, state.scan = .iterating rid ⟨pageId, count⟩ ∧
    Stands (full ++ [(pageId, count)]) rid state.visited

def remaining (seen : List RID) (state : State) : Nat :=
  if state.ended then 0 else seen.length + 1 - state.visited.length

theorem remaining_ended {seen : List RID} {state : State} (ends : state.ended = true) :
    remaining seen state = 0 :=
  if_pos ends

theorem remaining_going {seen : List RID} {state : State} (going : state.ended = false) :
    remaining seen state = seen.length + 1 - state.visited.length := by
  simp [remaining, going]

theorem remaining_same {seen : List RID} {state after : State} (scan : after.scan = state.scan)
    (visited : after.visited = state.visited) : remaining seen after = remaining seen state := by
  have ended : after.ended = state.ended := by
    unfold State.ended
    rw [scan]
  rw [remaining, remaining, ended, visited]

section Runs

variable {full : List (PageId × Nat)} {pageId : PageId} {count : Nat}

/-- One section: an increment goes one slot on, and every other section leaves the iterator where
it is. -/
theorem Iterates.step {before after : State} {label : Section}
    (iterates : Iterates full pageId count before) (steps : step before label = some after) :
    Iterates full pageId count after ∧
      remaining (flat (full ++ [(pageId, count)])) before =
        increments [label] + remaining (flat (full ++ [(pageId, count)])) after := by
  obtain ⟨⟨linked, ok, frozen⟩, rid, phase, stands⟩ := iterates
  have seen := stands.visited_prefix.length_le
  rcases step_cases steps with scans | inserts
  · cases scans with
    | readLastPage first free =>
        rw [phase] at first
        cases first
    | countTuples reads free =>
        rw [phase] at reads
        cases reads
    | constructIterator counted free =>
        rw [phase] at counted
        cases counted
    | fails here going beyond =>
        rw [phase] at here
        obtain ⟨rfl, rfl⟩ := Scan.iterating.inj here
        exact absurd (frozen.increment ok.heap stands going).1 beyond
    | moves here going bounded =>
        rw [phase] at here
        obtain ⟨rfl, rfl⟩ := Scan.iterating.inj here
        have running : before.ended = false := by simp [State.ended, phase, going]
        rcases (frozen.increment ok.heap stands going).2 with ⟨ends, whole⟩ | ⟨goesOn, next⟩
        · refine ⟨⟨⟨linked, ok.same rfl rfl, frozen⟩, _, rfl, ?_⟩, ?_⟩
          · simp only [State.moveTo, ends, if_true, whole]
            exact .ended ends
          · have done :
                (before.moveTo (incremented before.heap rid ⟨pageId, count⟩)
                ⟨pageId, count⟩).ended = true :=
              ends
            rw [remaining_going running, remaining_ended done, whole]
            simp [increments, Section.isIncrement]
        · have longer := next.visited_prefix.length_le
          refine ⟨⟨⟨linked, ok.same rfl rfl, frozen⟩, _, rfl, ?_⟩, ?_⟩
          · simp only [State.moveTo, goesOn]
            exact next
          · have going' :
              (before.moveTo (incremented before.heap rid ⟨pageId, count⟩) ⟨pageId, count⟩).ended =
                false :=
              goesOn
            rw [List.length_append, List.length_singleton] at longer
            have longerBy :
              (before.moveTo (incremented before.heap rid ⟨pageId, count⟩)
                ⟨pageId, count⟩).visited.length =
                before.visited.length + 1 := by simp [State.moveTo, goesOn]
            have one : increments [.increment] = 1 := rfl
            rw [remaining_going running, remaining_going going', longerBy, one]
            omega
  · obtain ⟨more, okAfter, grows⟩ := ok.step steps
    obtain ⟨sameScan, sameVisited⟩ := inserts.scan_same
    have none : increments [label] = 0 := by
      cases inserts <;> rfl
    refine ⟨⟨?_, rid, sameScan.trans phase, sameVisited ▸ stands⟩, ?_⟩
    · exact ⟨more, okAfter, frozen.grows ok.heap grows⟩
    · rw [none, remaining_same sameScan sameVisited, Nat.zero_add]

theorem iterates_run {before after : State} {labels : List Section}
    (run : Run (graph step) before labels after) (iterates : Iterates full pageId count before) :
    Iterates full pageId count after ∧
      remaining (flat (full ++ [(pageId, count)])) before =
        increments labels + remaining (flat (full ++ [(pageId, count)])) after := by
  induction run with
  | refl _ => exact ⟨iterates, (Nat.zero_add _).symm⟩
  | @next before middle after label rest steps _ ih =>
      obtain ⟨going, first⟩ := iterates.step steps
      obtain ⟨final, later⟩ := ih going
      have parts : increments (label :: rest) = increments [label] + increments rest :=
        @List.countP_append _ _ [label] rest
      exact ⟨final, by omega⟩

end Runs

/-! ### The scan as a whole -/

structure Visits (seen : List RID) (labels : List Section) (state : State) : Prop where
  bounded : state.scan ≠ .outOfBound
  order : state.visited <+: seen
  whole : state.ended = true → state.visited = seen
  finite : increments labels ≤ seen.length ∧ (state.ended = true ↔ increments labels = seen.length)
  waits : state.ended = false → step state .increment = none →
    ∃ insertion, state.inserting = some insertion

/-- The iterator goes once over the RIDs that the heap had at one moment of the call, whatever
comes behind it. -/
def FixedScan (opened made : State) : Prop :=
  ∃ seen, Recalls opened made seen ∧ seen.Nodup ∧
    ∀ labels state, Run (graph step) made labels state → Visits seen labels state

theorem Iterates.waits {full : List (PageId × Nat)} {pageId : PageId} {count : Nat} {state : State}
    (iterates : Iterates full pageId count state) (going : state.ended = false)
    (stuck : TableHeap.step state .increment = none) :
    ∃ insertion, state.inserting = some insertion := by
  obtain ⟨_, rid, phase, _⟩ := iterates
  simp only [State.ended, phase] at going
  cases busy : state.inserting with
  | some insertion => exact ⟨insertion, rfl⟩
  | none =>
      have free : state.latched rid.pageId = false := by simp [State.latched, busy]
      by_cases bounded : inBound rid ⟨pageId, count⟩ <;>
        simp [TableHeap.step, phase, going, free, bounded] at stuck

theorem Iterates.visits {full : List (PageId × Nat)} {pageId : PageId} {count : Nat}
    {made state : State} {labels : List Section} (iterates : Iterates full pageId count made)
    (begins : remaining (flat (full ++ [(pageId, count)])) made =
      (flat (full ++ [(pageId, count)])).length)
    (run : Run (graph TableHeap.step) made labels state) :
    Visits (flat (full ++ [(pageId, count)])) labels state := by
  obtain ⟨after, passed⟩ := iterates_run run iterates
  have waits := fun going stuck => after.waits going stuck
  obtain ⟨⟨linked, ok, frozen⟩, rid, phase, stands⟩ := after
  have order := stands.visited_prefix
  rw [begins] at passed
  constructor
  · rw [phase]
    exact Scan.noConfusion
  · exact order
  · intro ends
    simp only [State.ended, phase] at ends
    exact stands.whole (fun _ member => frozen.shown_valid ok.heap member) ends
  · refine ⟨by omega, ?_⟩
    cases ends : state.ended with
    | true =>
        rw [remaining_ended ends] at passed
        simp [passed]
    | false =>
        have shorter := order.length_le
        rw [remaining_going ends] at passed
        simp
        omega
  · exact waits

theorem Frozen.once {heap : Heap} {linked : List PageId} {full : List (PageId × Nat)}
    {pageId : PageId} {count : Nat} (frozen : Frozen heap linked full pageId count)
    (ok : Linked heap linked) :
    (flat (full ++ [(pageId, count)])).Nodup := by
  obtain ⟨behind, place⟩ := frozen.place
  have pages : ((full ++ [(pageId, count)]).map Prod.fst).Nodup := by
    have unique := ok.unique
    rw [place, ← List.singleton_append, ← List.append_assoc] at unique
    simpa using unique.of_append_left
  refine List.nodup_flatMap.mpr ⟨?_, ?_⟩
  · intro page _
    exact List.nodup_range.map fun first second same => (RID.mk.inj same).2
  · refine (List.pairwise_map.mp pages).imp ?_
    intro first second apart rid inFirst inSecond
    obtain ⟨_, _, rfl⟩ := List.mem_map.mp inFirst
    obtain ⟨_, _, same⟩ := List.mem_map.mp inSecond
    exact apart (RID.mk.inj same).1.symm

theorem first_same {before after : State} {label : Section}
    (steps : step before label = some after) :
    after.heap.firstPageId = before.heap.firstPageId := by
  rcases step_cases steps with scans | inserts
  · rw [scans.heap_same.1]
  · cases inserts <;> rfl

/-- Once the stop is counted it stays, until the iterator is made. -/
theorem stop_kept {before after : State} {labels : List Section} {stopAtRid other : RID}
    (run : Run (graph step) before labels after) (counted : before.scan = .counted stopAtRid)
    (still : after.scan = .counted other) : other = stopAtRid := by
  have keeps : ∀ before label after, (∀ other, before.scan = .counted other → other = stopAtRid) ∧
      before.scan ≠ .notStarted ∧ (∀ pageId, before.scan ≠ .lastPageRead pageId) →
      graph step before label after → (∀ other, after.scan = .counted other → other = stopAtRid) ∧
      after.scan ≠ .notStarted ∧ (∀ pageId, after.scan ≠ .lastPageRead pageId) := by
    rintro before label after ⟨same, started, read⟩ steps
    rcases step_cases steps with scans | inserts
    · cases scans with
      | readLastPage first _ => exact absurd first started
      | countTuples first _ => exact absurd first (read _)
      | constructIterator _ _ => simp [State.moveTo]
      | moves _ _ _ => simp [State.moveTo]
      | fails _ _ _ => simp
    · rw [inserts.scan_same.1]
      exact ⟨same, started, read⟩
  exact (run_preserves keeps run (by simp [counted])).1 other still

theorem first_run {before after : State} {labels : List Section}
    (run : Run (graph step) before labels after) :
    after.heap.firstPageId = before.heap.firstPageId :=
  @run_preserves _ _ (graph step) (fun state => state.heap.firstPageId = before.heap.firstPageId)
    (fun _ _ _ same steps => (first_same steps).trans same) _ _ _ run rfl

section Construction

variable {full : List (PageId × Nat)} {pageId : PageId} {count : Nat} {linked : List PageId}
  {heap : Heap}

theorem Frozen.begins (frozen : Frozen heap linked full pageId count) :
    (full = [] ∧ pageId = heap.firstPageId) ∨
      ∃ size rest, full = (heap.firstPageId, size) :: rest := by
  obtain ⟨behind, place⟩ := frozen.place
  cases full with
  | nil => exact .inl ⟨rfl, (List.cons.inj place).1.symm⟩
  | cons shown rest =>
      obtain ⟨first, size⟩ := shown
      exact .inr ⟨size, rest, by rw [(List.cons.inj place).1]⟩

/-- Where the first page is empty, nothing else is in the heap. -/
theorem Frozen.empty (frozen : Frozen heap linked full pageId count) (ok : Linked heap linked)
    (empty : heap.numTuples heap.firstPageId = 0) :
    full = [] ∧ pageId = heap.firstPageId ∧ count = 0 := by
  rcases frozen.begins with ⟨rfl, rfl⟩ | ⟨size, rest, rfl⟩
  · have reached := frozen.reached
    exact ⟨rfl, rfl, by omega⟩
  · have holds :=
      ok.filled _ List.mem_cons_self (frozen.full_settled ok (@List.mem_cons_self _ _ rest))
    omega

/-- The iterator begins with the first RID of what it will show. -/
theorem Frozen.begin_scan {ready : State} (frozen : Frozen ready.heap linked full pageId count)
    (ok : Sound ready linked) (nothing : ready.visited = [])
    (shown : 0 < ready.heap.numTuples ready.heap.firstPageId → full = [] → 0 < count) :
    Iterates full pageId count
      (ready.moveTo (constructed ready.heap ⟨ready.heap.firstPageId, 0⟩) ⟨pageId, count⟩) ∧
    remaining (flat (full ++ [(pageId, count)]))
      (ready.moveTo (constructed ready.heap ⟨ready.heap.firstPageId, 0⟩) ⟨pageId, count⟩) =
        (flat (full ++ [(pageId, count)])).length := by
  have positive := (ok.heap.allocated _ List.mem_cons_self).1
  have valid : ready.heap.firstPageId ≠ INVALID_PAGE_ID := by
    unfold INVALID_PAGE_ID
    lia
  by_cases empty : ready.heap.numTuples ready.heap.firstPageId = 0
  · obtain ⟨rfl, rfl, rfl⟩ := frozen.empty ok.heap empty
    have ends : constructed ready.heap ⟨ready.heap.firstPageId, 0⟩ = ⟨INVALID_PAGE_ID, 0⟩ := by
      simp [constructed, empty]
    rw [ends]
    refine ⟨⟨⟨linked, ok.same rfl rfl, frozen⟩, _, rfl, ?_⟩, ?_⟩
    · simp only [State.moveTo, nothing]
      exact .ended rfl
    · exact remaining_ended rfl
  · have begins : constructed ready.heap ⟨ready.heap.firstPageId, 0⟩ =
        ⟨ready.heap.firstPageId, 0⟩ := by
      simp [constructed, valid, empty]
    have going : isEnd ⟨ready.heap.firstPageId, 0⟩ = false := not_end positive
    obtain ⟨size, behind, split, some⟩ : ∃ size behind,
        full ++ [(pageId, count)] = [] ++ (ready.heap.firstPageId, size) :: behind ∧ 0 < size := by
      rcases frozen.begins with ⟨rfl, rfl⟩ | ⟨size, rest, rfl⟩
      · exact ⟨count, [], rfl, shown (Nat.pos_of_ne_zero empty) rfl⟩
      · have counted := frozen.counted _ List.mem_cons_self
        exact ⟨size, rest ++ [(pageId, count)], rfl, by simp only at counted; omega⟩
    have stands := Stands.here split some
    have single : flat [] ++ Heap.rids ready.heap.firstPageId (0 + 1) =
      [⟨ready.heap.firstPageId, 0⟩] := rfl
    rw [single] at stands
    have visited :
      (ready.moveTo ⟨ready.heap.firstPageId, 0⟩ ⟨pageId, count⟩).visited =
        [⟨ready.heap.firstPageId, 0⟩] := by
      simp [State.moveTo, going, nothing]
    have running : (ready.moveTo ⟨ready.heap.firstPageId, 0⟩ ⟨pageId, count⟩).ended = false := going
    rw [begins]
    refine ⟨⟨⟨linked, ok.same rfl rfl, frozen⟩, _, rfl, ?_⟩, ?_⟩
    · rw [visited]
      exact stands
    · rw [remaining_going running, visited]
      rfl

end Construction

/-- An iterator that begins at its stop fails the check of its first increment. -/
theorem fails_at_stop {state : State} {pageId : PageId} (valid : 0 ≤ pageId)
    (phase : state.scan = .iterating ⟨pageId, 0⟩ ⟨pageId, 0⟩)
    (free : state.latched pageId = false) :
    step state .increment = some { state with scan := .outOfBound } := by
  have going : isEnd ⟨pageId, 0⟩ = false := not_end valid
  have here : pageId ≠ INVALID_PAGE_ID := by
    unfold INVALID_PAGE_ID
    lia
  simp [step, phase, going, free, inBound, here]

/-- A scan sees a fixed set of RIDs unless the first page is empty when its tuples are counted and
holds one when the iterator is made: that iterator stands at its stop from the beginning. -/
theorem heap_scan_fixed_iff {start opened atCount counted ready made : State}
    {waits pauses : List Section} (reached : Reachable Fresh (graph step) start)
    (opens : step start .readLastPage = some opened)
    (waited : Run (graph step) opened waits atCount)
    (counts : step atCount .countTuples = some counted)
    (paused : Run (graph step) counted pauses ready)
    (makes : step ready .constructIterator = some made) :
    FixedScan opened made ↔
      (atCount.heap.numTuples atCount.heap.firstPageId = 0 →
      ready.heap.numTuples ready.heap.firstPageId = 0) := by
  have soundAtCount := call_sound (opened_call_sound reached opens) waited
  have soundReady := call_sound (soundAtCount.step counts) paused
  obtain ⟨_, linkedAtCount, okAtCount, knewPage⟩ := soundAtCount
  obtain ⟨_, linked, ok, knows⟩ := soundReady
  have sameFirst : ready.heap.firstPageId = atCount.heap.firstPageId :=
    (first_run paused).trans (first_same counts)
  rcases step_cases counts with @scans | inserts
  swap
  · cases inserts
  rcases step_cases makes with scans' | inserts
  swap
  · cases inserts
  cases scans with
  | @countTuples lastPageId phase _ =>
    cases scans' with
    | @constructIterator stopAtRid phase' free =>
      obtain rfl := stop_kept paused rfl phase'
      unfold Knows at knewPage knows
      rw [phase] at knewPage
      rw [phase'] at knows
      obtain ⟨_, fullAtCount, frozenAtCount, _⟩ := knewPage
      obtain ⟨nothing, full, frozen, recalls⟩ := knows
      constructor
      · rintro ⟨seen, _, _, visits⟩ empty
        by_contra some
        obtain ⟨_, here, none⟩ := frozenAtCount.empty okAtCount.heap empty
        subst here
        have positive := (ok.heap.allocated _ List.mem_cons_self).1
        have valid : ready.heap.firstPageId ≠ INVALID_PAGE_ID := by
          unfold INVALID_PAGE_ID
          lia
        have begins : constructed ready.heap ⟨ready.heap.firstPageId, 0⟩ =
            ⟨ready.heap.firstPageId, 0⟩ := by
          simp [constructed, valid, some]
        have stop :
            (⟨atCount.heap.firstPageId, atCount.heap.numTuples atCount.heap.firstPageId⟩ : RID) =
            ⟨ready.heap.firstPageId, 0⟩ := by rw [sameFirst, none]
        rw [begins, stop] at visits
        have fails :=
          @fails_at_stop (ready.moveTo ⟨ready.heap.firstPageId, 0⟩ ⟨ready.heap.firstPageId, 0⟩)
            ready.heap.firstPageId positive rfl free
        exact (visits _ _ (.next fails (.refl _))).bounded rfl
      · intro settles
        have begins := frozen.begin_scan ok nothing (by
          intro some alone
          subst alone
          rcases frozen.begins with ⟨_, here⟩ | ⟨_, _, other⟩
          · have page : lastPageId = atCount.heap.firstPageId := here.trans sameFirst
            rw [page]
            by_contra none
            have empty := settles (Nat.eq_zero_of_not_pos none)
            omega
          · cases other)
        refine ⟨_, recalls.step makes, frozen.once ok.heap, fun labels state run =>
          begins.1.visits begins.2 run⟩

/-! ### Two interleavings -/

def blank : State := ⟨⟨fun _ => ⟨INVALID_PAGE_ID, []⟩, 0, 0, 1⟩, none, .notStarted, []⟩

theorem blank_fresh : Fresh blank := ⟨by decide, by decide, rfl, rfl, rfl, rfl, rfl⟩

def seven : TupleData := ⟨[7, 0, 0, 0], by decide⟩

def oneTuple (scan : Scan) (visited : List RID) : State :=
  ⟨blank.heap.setStored 0 [⟨⟨0, false⟩, seven.data⟩], none, scan, visited⟩

theorem seven_inserted (scan : Scan) :
    Run (graph step) { blank with scan := scan } [.beginInsert ⟨0, false⟩ seven,
      .insertTuple] (oneTuple scan []) := by
  have begins : step { blank with scan := scan } (.beginInsert ⟨0, false⟩ seven) =
      some { blank with scan := scan, inserting := some ⟨⟨0, false⟩, seven, 0⟩ } := rfl
  have inserts : step { blank with scan := scan, inserting := some ⟨⟨0, false⟩, seven, 0⟩ }
      .insertTuple =
      some (oneTuple scan []) := rfl
  exact .next begins (.next inserts (.refl _))

/-- The tuple is there before the call: the scan goes over it. -/
theorem one_tuple_scanned :
    FixedScan (oneTuple (.lastPageRead 0) []) (oneTuple (.iterating ⟨0, 0⟩ ⟨0, 1⟩) [⟨0, 0⟩]) :=
  (@heap_scan_fixed_iff (oneTuple .notStarted []) _ _ (oneTuple (.counted ⟨0, 1⟩) []) _ _ [] []
    ⟨blank, _, blank_fresh, seven_inserted .notStarted⟩ rfl (.refl _) rfl (.refl _) rfl).mpr
      (by decide)

/-- It comes between the count and the constructor: the scan stands at its stop and cannot leave
it. -/
theorem late_tuple_out_of_bound : ∃ start opened atCount counted ready made waits pauses,
    Reachable Fresh (graph step) start ∧ step start .readLastPage = some opened ∧
    Run (graph step) opened waits atCount ∧ step atCount .countTuples = some counted ∧
    Run (graph step) counted pauses ready ∧ step ready .constructIterator = some made ∧
    ¬FixedScan opened made := by
  refine ⟨blank, { blank with scan := .lastPageRead 0 }, { blank with scan := .lastPageRead 0 },
    { blank with scan := .counted ⟨0, 0⟩ }, oneTuple (.counted ⟨0, 0⟩) [], oneTuple
      (.iterating ⟨0, 0⟩ ⟨0, 0⟩) [⟨0, 0⟩],
    [], _, reachable_start blank_fresh, rfl, .refl _, rfl, seven_inserted _, rfl, ?_⟩
  rintro ⟨seen, _, _, visits⟩
  have fails := @fails_at_stop (oneTuple (.iterating ⟨0, 0⟩ ⟨0, 0⟩) [⟨0, 0⟩]) 0 (by decide) rfl rfl
  exact (visits _ _ (.next fails (.refl _))).bounded rfl

end BusTub.TableHeap
