import BusTub.LatchOrder
import Mathlib.Logic.Function.Basic

/-!
The latches that the operations of one B+ tree take, and who waits for whom. A
thread is where its code is, with the latches it holds and the one it asks for.
Searches and stores of keys are left open: which child a descent goes to, whether
a leaf is safe, and what a thread writes into the pages that it holds for writing
are choices of a step. Which latch is taken when, and what is held meanwhile, is the code's.
-/

namespace BusTub.TreeLatches

open TransitionSystem (Reachable Run graph guarded)
open LatchOrder (conflicts)

def INVALID_PAGE_ID : PageId := -1

inductive Page where
  | leaf (nextPageId : PageId)
  | internal (children : List PageId)
  deriving DecidableEq

abbrev Latch := PageId × GuardKind

inductive Call where
  | getValue
  /-- `Begin`, and then `operator++` until `End`. -/
  | iterate
  | insert
  | remove
  deriving DecidableEq

inductive After where
  | done
  /-- `WritePage(leaf_pid)` of `TryOptimisticInsert` and `TryOptimisticRemove`. -/
  | leaf (call : Call) (pid : PageId)
  /-- `Insert` and `Remove` themselves, once the optimistic try has failed. -/
  | locking (call : Call)
  /-- The loop at the end of `Remove` that shrinks the root. -/
  | shrinking
  deriving DecidableEq

/-- Where the code of a thread is. A page id that comes with a stage is the page the
code stands on, or comes to stand on with the latch it asks for. -/
inductive Stage where
  | idle
  | header (call : Call)
  /-- A descent with read guards: `GetValue`, `Begin` or `FindLeafPageOptimistic`. -/
  | reading (call : Call) (pid : PageId)
  | iterating (pid : PageId)
  | leaf (call : Call) (pid : PageId)
  | locking (call : Call)
  /-- The descent with write guards; `path` is `write_set_`, its last page first. -/
  | writing (call : Call) (pid : PageId) (path : List PageId)
  /-- `Insert` at the leaf, and `InsertIntoParent`. -/
  | splitting
  /-- `Remove` at the leaf, and `UpdateAncestorMinKey`. -/
  | removing (path : List PageId)
  /-- The loop of `Remove` over `level`; the first page of the path is `write_set_[level]`. -/
  | repair (path : List PageId)
  /-- In that loop, at a sibling of the page. -/
  | beside (path : List PageId) (sibling : PageId)
  | finishing
  | shrinking
  | shrinkingRoot (pid : PageId)
  | leaving (after : After)
  deriving DecidableEq

structure Thread where
  stage : Stage := .idle
  /-- The guards, the latest one first. -/
  held : List Latch := []
  asks : Option Latch := none
  /-- `pages_to_delete` -/
  doomed : List PageId := []
  /-- The thread has latched a page that had been deleted before. -/
  stray : Bool := false

inductive TreeOp where
  | call (call : Call)
  /-- The latch that is asked for is given. -/
  | granted
  /-- On from the header page to the root. -/
  | enter
  /-- Down to a child. -/
  | down (index : Nat)
  /-- The guard that another one was moved onto is dropped. -/
  | letGo
  /-- The code is done with the page it stands on and finds what it is after. -/
  | stay
  | giveUp
  /-- On to the next leaf. -/
  | along
  /-- `UpdateAncestorMinKey` takes the last guard off `write_set_`. -/
  | pop
  | left
  | right
  /-- Without a sibling the page is taken out of its parent. -/
  | alone
  | underflow
  /-- The sibling is not big enough to borrow from. -/
  | again
  | borrowed
  | merged (gone : PageId)
  | drop (index : Nat)
  | next
  | fresh (pid : PageId)
  | write (pid : PageId) (page : Page)
  | writeRoot (pid : PageId)
  | doom (pid : PageId)
  /-- `DeletePage`; `garbage` is what a later reader of the page finds. -/
  | delete (garbage : Page)

structure Pool where
  /-- `root_page_id_` of the header page. -/
  rootPageId : PageId
  pages : PageId → Page
  deleted : List PageId := []
  threads : List Thread

/-! The steps of a thread by itself: which latch it asks for next, and which it gives back. -/

def ask (thread : Thread) (stage : Stage) (latch : Latch) : Thread :=
  { thread with stage := stage, asks := Option.some latch }

def go (thread : Thread) (stage : Stage) : Thread :=
  { thread with stage := stage }

def release (thread : Thread) (pid : PageId) : Thread :=
  { thread with held := thread.held.erase (pid, .write) }

def kept : Call → Nat
  | .iterate => 1
  | _ => 0

def valueIndex (children : List PageId) (pid : PageId) : Int :=
  if pid ∈ children then (children.idxOf pid : Int) else -1

def siblingAt (pages : PageId → Page) (path : List PageId) (offset : Int) : Option PageId :=
  match path with
  | node :: parent :: _ =>
      match pages parent with
      | .internal children =>
          let index := valueIndex children node + offset
          if 0 ≤ index then children[index.toNat]? else none
      | .leaf _ => none
  | _ => none

variable (header : PageId)

def enterRead (root : PageId) (thread : Thread) (call : Call) : Thread :=
  if root = INVALID_PAGE_ID then
    match call with
    | .getValue | .iterate => go thread (.leaving .done)
    | .insert | .remove => go thread (.leaving (.locking call))
  else
    match call with
    -- `header_guard.Drop()` comes before the root is asked for
    | .getValue => ask { thread with held := [] } (.reading call root) (root, .read)
    | _ => ask thread (.reading call root) (root, .read)

/-- No guard is left that another one was moved onto; `FindLeafPageOptimistic` collects its
guards. -/
def settled (thread : Thread) (call : Call) : Bool :=
  thread.held.length = 1 + kept call || call = .insert || call = .remove

def readStep (pages : PageId → Page) (thread : Thread) (call : Call) (pid : PageId) (op : TreeOp) :
    Option Thread :=
  match op, pages pid with
  | .letGo, _ =>
      match thread.held with
      | latest :: _ :: rest =>
          if settled thread call then none else some { thread with held := latest :: rest }
      | _ => none
  | .down index, .internal children =>
      if settled thread call then
        (children[index]?).map fun child => ask thread (.reading call child) (child, .read)
      else none
  | .stay, .leaf _ =>
      if settled thread call then
        match call with
        | .getValue => some (go thread (.leaving .done))
        -- the constructor of the iterator reads the leaf that `Begin` still has
        | .iterate => some (ask thread (.iterating pid) (pid, .read))
        | .insert | .remove => some (go thread (.leaving (.leaf call pid)))
      else none
  | .giveUp, .leaf _ =>
      match call with
      | .insert | .remove => some (go thread (.leaving (.locking call)))
      | _ => none
  | .along, .leaf next =>
      if call = .iterate ∧ settled thread call then
        if next = INVALID_PAGE_ID then some (go thread (.leaving .done))
        else some (ask thread (.reading call next) (next, .read))
      else none
  | _, _ => none

def iterateStep (pages : PageId → Page) (thread : Thread) (pid : PageId) (op : TreeOp) :
    Option Thread :=
  match op, thread.held with
  | .letGo, latest :: _ :: rest => some { thread with held := latest :: rest }
  | .along, [_] =>
      match pages pid with
      | .leaf next =>
          if next = INVALID_PAGE_ID then some (go thread (.leaving .done))
          else some (ask thread (.iterating next) (next, .read))
      | .internal _ => none
  | _, _ => none

def enterWrite (root : PageId) (thread : Thread) (call : Call) : Thread :=
  if root = INVALID_PAGE_ID then
    match call with
    | .insert => go thread .splitting
    | _ => go thread (.leaving .done)
  else ask thread (.writing call root []) (root, .write)

def writeStep (pages : PageId → Page) (thread : Thread) (call : Call) (pid : PageId)
    (path : List PageId) (op : TreeOp) : Option Thread :=
  match op, pages pid with
  | .down index, .internal children =>
      (children[index]?).map fun child =>
        ask thread (.writing call child (pid :: path)) (child, .write)
  | .stay, .leaf _ =>
      match call with
      | .remove => some (go thread (.removing (pid :: path)))
      | _ => some (go thread .splitting)
  | .giveUp, .leaf _ => some (go thread (.leaving .done))
  | _, _ => none

def removeStep (pages : PageId → Page) (thread : Thread) (op : TreeOp) : Option Thread :=
  match thread.stage, op with
  | .removing (pid :: rest), .pop =>
      some (go (release thread pid) (.removing rest))
  | .removing _, .stay => some (go thread (.leaving .done))
  | .removing path, .underflow => some (go thread (.repair path))
  | .repair path, .left =>
      (siblingAt pages path (-1)).map fun sibling =>
        ask thread (.beside path sibling) (sibling, .write)
  | .repair path, .right =>
      (siblingAt pages path 1).map fun sibling =>
        ask thread (.beside path sibling) (sibling, .write)
  | .repair (node :: parent :: upper), .alone =>
      some { thread with stage := .repair (parent :: upper), doomed := thread.doomed ++ [node] }
  | .repair _, .stay => some (go thread .finishing)
  | .finishing, .next => some (go thread (.leaving .shrinking))
  | _, _ => none

def besideStep (thread : Thread) (path : List PageId) (sibling : PageId) (op : TreeOp) :
    Option Thread :=
  match op, path with
  | .again, _ => some (go (release thread sibling) (.repair path))
  | .borrowed, _ => some (go (release thread sibling) .finishing)
  | .merged gone, node :: parent :: upper =>
      if gone = node ∨ gone = sibling then
        some { release thread sibling with
          stage := .repair (parent :: upper)
          doomed := thread.doomed ++ [gone] }
      else none
  | _, _ => none

def shrinkStep (root : PageId) (thread : Thread) (op : TreeOp) : Option Thread :=
  match thread.stage, op with
  | .shrinking, .enter =>
      if root = INVALID_PAGE_ID then some (go thread (.leaving .done))
      else some (ask thread (.shrinkingRoot root) (root, .write))
  | .shrinkingRoot _, .stay => some (go thread (.leaving .done))
  | .shrinkingRoot _, .next => some (go thread (.leaving .shrinking))
  | _, _ => none

def leaveStep (thread : Thread) (after : After) (op : TreeOp) : Option Thread :=
  match op, thread.held, thread.doomed with
  | .drop index, _ :: _, _ => some { thread with held := thread.held.eraseIdx index }
  | .next, [], [] =>
      match after with
      | .done => some (go { thread with stray := false } .idle)
      | .leaf call pid => some (ask { thread with stray := false } (.leaf call pid) (pid, .write))
      | .locking call => some (ask { thread with stray := false } (.locking call) (header, .write))
      | .shrinking => some (ask { thread with stray := false } .shrinking (header, .write))
  | _, _, _ => none

def proceed (root : PageId) (pages : PageId → Page) (thread : Thread) (op : TreeOp) :
    Option Thread :=
  match thread.stage, op with
  | .idle, .call call => some (ask thread (.header call) (header, .read))
  | .header call, .enter => some (enterRead root thread call)
  | .reading call pid, op => readStep pages thread call pid op
  | .iterating pid, op => iterateStep pages thread pid op
  | .leaf _ _, .stay => some (go thread (.leaving .done))
  | .leaf call _, .giveUp => some (go thread (.leaving (.locking call)))
  | .locking call, .enter => some (enterWrite root thread call)
  | .writing call pid path, op => writeStep pages thread call pid path op
  | .splitting, .stay => some (go thread (.leaving .done))
  | .removing _, op | .repair _, op | .finishing, op => removeStep pages thread op
  | .beside path sibling, op => besideStep thread path sibling op
  | .shrinking, op | .shrinkingRoot _, op => shrinkStep root thread op
  | .leaving after, op => leaveStep header thread after op
  | _, _ => none

/-! The threads together. `level` is the level on which a page is created, leaves on
level 0; page ids are not given out twice, so a page stays there until it is deleted. -/

variable (level : PageId → Nat)

/-- Children are one level down, and the chain of leaves stays among the leaves. -/
def Fits (pid : PageId) : Page → Prop
  | .leaf next => level pid = 0 ∧ (next ≠ INVALID_PAGE_ID → next ≠ header ∧ level next = 0)
  | .internal children => ∀ child ∈ children, child ≠ header ∧ level child + 1 = level pid

instance (pid : PageId) (page : Page) : Decidable (Fits header level pid page) := by
  cases page
  · exact inferInstanceAs (Decidable (_ ∧ _))
  · exact inferInstanceAs (Decidable (∀ child ∈ _, _))

def free (threads : List Thread) (latch : Latch) : Bool :=
  threads.all fun holder => holder.held.all fun other =>
    !(other.1 = latch.1 && conflicts latch.2 other.2)

/-- Somebody has the page or waits for it, so its frame is pinned. -/
def pinned (threads : List Thread) (pid : PageId) : Bool :=
  threads.any fun thread =>
    thread.held.any (fun latch => latch.1 = pid) || thread.asks.any (fun latch => latch.1 = pid)

def restructures : Stage → Bool
  | .splitting | .removing _ | .repair _ | .beside _ _ | .finishing | .shrinkingRoot _ => true
  | _ => false

def act (pool : Pool) (t : Nat) (thread : Thread) (op : TreeOp) : Option Pool :=
  match op with
  | .fresh pid =>
      -- `NewPage` gives an id that nobody has seen, so its latch is taken at once
      if thread.stage = .splitting ∧ pid ≠ header ∧ pid ∉ pool.deleted ∧
        pinned pool.threads pid = false then
        some { pool with
          threads := pool.threads.set t { thread with held := (pid, .write) :: thread.held } }
      else none
  | .write pid page =>
      if restructures thread.stage ∧ (pid, GuardKind.write) ∈ thread.held ∧
        Fits header level pid page then
        some { pool with pages := Function.update pool.pages pid page }
      else none
  | .writeRoot pid =>
      if restructures thread.stage ∧ (header, GuardKind.write) ∈ thread.held ∧ pid ≠ header then
        some { pool with rootPageId := pid }
      else none
  | .doom pid =>
      if restructures thread.stage ∧ (pid, GuardKind.write) ∈ thread.held then
        some { pool with
          threads := pool.threads.set t { thread with doomed := thread.doomed ++ [pid] } }
      else none
  | .delete garbage =>
      match thread.stage, thread.held, thread.doomed with
      | .leaving _, [], pid :: rest =>
          let threads := pool.threads.set t { thread with doomed := rest }
          -- `DeletePage` leaves a pinned page alone
          if pinned pool.threads pid then some { pool with threads := threads }
          else some { pool with
            threads := threads
            pages := Function.update pool.pages pid garbage
            deleted := pid :: pool.deleted }
      | _, _, _ => none
  | op =>
      (proceed header pool.rootPageId pool.pages thread op).map fun next =>
        { pool with threads := pool.threads.set t next }

def granted (deleted : List PageId) (thread : Thread) (latch : Latch) : Thread :=
  { thread with
    held := latch :: thread.held
    asks := none
    stray := thread.stray || decide (latch.1 ∈ deleted) }

def step (pool : Pool) (label : Nat × TreeOp) : Option Pool :=
  match pool.threads[label.1]? with
  | none => none
  | some thread =>
      match thread.asks, label.2 with
      | some latch, .granted =>
          if free pool.threads latch then
            some { pool with
              threads := pool.threads.set label.1 (granted pool.deleted thread latch) }
          else none
      | some _, _ => none
      | none, op => act header level pool label.1 thread op

/-! Who waits for whom. -/

def Waits (threads : List Thread) (t u : Nat) : Prop :=
  ∃ waiter holder latch other, threads[t]? = some waiter ∧ threads[u]? = some holder ∧
    waiter.asks = some latch ∧ other ∈ holder.held ∧ other.1 = latch.1 ∧
      conflicts latch.2 other.2 = true

/-- A non-empty set of threads, each waiting for a latch that another thread of the set holds. -/
def Deadlocked (pool : Pool) : Prop :=
  ∃ set : Set Nat, set.Nonempty ∧ ∀ t ∈ set, ∃ u ∈ set, u ≠ t ∧ Waits pool.threads t u

def repairing (thread : Thread) : Bool :=
  match thread.stage with
  | .beside _ _ => true
  | _ => false

/-- A thread asks for a page to write that a reader holds, and the reader asks for one
that the thread holds. The thread is `Remove` at a sibling, unless one of the two has
latched a page after its deletion. -/
def Crossed (remover reader : Thread) : Prop :=
  ∃ x y, remover.asks = some (x, .write) ∧ (x, .read) ∈ reader.held ∧
    reader.asks = some (y, .read) ∧ (y, .write) ∈ remover.held ∧
      (repairing remover = true ∨ remover.stray = true ∨ reader.stray = true)

/-- What a thread asks for next does not cross what another one holds and asks for. -/
def Meets (pool : Pool) (label : Nat × TreeOp) : Prop :=
  ∀ thread next, pool.threads[label.1]? = some thread → thread.asks = none →
    proceed header pool.rootPageId pool.pages thread label.2 = some next →
    ∀ u other, u ≠ label.1 → pool.threads[u]? = some other → ¬ Crossed next other ∧
      ¬ Crossed other next

/-! What holds of each thread by itself. -/

structure Reads (thread : Thread) (pid : PageId) : Prop where
  stands : (thread.asks = none ∧ ∃ rest, thread.held = (pid, .read) :: rest) ∨
    thread.asks = some (pid, .read)
  reads : ∀ latch ∈ thread.held, latch.2 = GuardKind.read
  high : thread.stray = false → pid ≠ header ∧ ∀ latch ∈ thread.held, latch.1 ≠ header →
    level pid ≤ level latch.1

structure Descends (thread : Thread) (pid : PageId) (path : List PageId) : Prop where
  locked : (header, GuardKind.write) ∈ thread.held
  below : ∀ page ∈ path, page ≠ header
  stands : (thread.asks = none ∧ (pid, GuardKind.write) ∈ thread.held ∧ pid ≠ header) ∨
    (thread.asks = some (pid, .write) ∧
      (thread.stray = false → ∀ latch ∈ thread.held, latch.1 ≠ header → level pid < level latch.1))
  high : thread.stray = false → pid ≠ header ∧ ∀ latch ∈ thread.held, latch.1 ≠ header →
    level pid ≤ level latch.1

def Shaped (thread : Thread) : Prop :=
  match thread.stage with
  | .idle => thread.held = [] ∧ thread.asks = none
  | .header _ => (thread.asks = some (header, .read) ∧ thread.held = []) ∨
      (thread.asks = none ∧ thread.held = [(header, .read)])
  | .reading _ pid | .iterating pid => Reads header level thread pid
  | .leaf _ pid => thread.asks = none ∨ (thread.asks = some (pid, .write) ∧ thread.held = [])
  | .locking _ | .shrinking => (thread.asks = some (header, .write) ∧ thread.held = []) ∨
      (thread.asks = none ∧ thread.held = [(header, .write)])
  | .writing _ pid path => Descends header level thread pid path
  | .shrinkingRoot pid =>
      thread.asks = none ∨ (thread.asks = some (pid, .write) ∧ thread.held = [(header, .write)])
  | .removing path | .repair path =>
      thread.asks = none ∧ (header, GuardKind.write) ∈ thread.held ∧ ∀ page ∈ path, page ≠ header
  | .beside path sibling =>
      (header, GuardKind.write) ∈ thread.held ∧ (∀ page ∈ path, page ≠ header) ∧
        ((thread.asks = none ∧ sibling ≠ header) ∨ thread.asks = some (sibling, .write))
  | .splitting | .finishing | .leaving _ => thread.asks = none

/-- The guards that a step of a thread leaves it with. -/
structure Keeps (thread next : Thread) : Prop where
  shaped : Shaped header level next
  held : ∀ latch ∈ next.held, latch ∈ thread.held
  stray : next.stray = thread.stray ∨ next.held = []

section Threads
variable {header : PageId} {level : PageId → Nat} {root : PageId} {pages : PageId → Page}
  {deleted : List PageId} {thread next : Thread} {op : TreeOp} {pid : PageId} {call : Call}
  {path : List PageId}

theorem enter_read_keeps (apart : root ≠ header) (quiet : thread.asks = none)
    (atHeader : thread.held = [(header, .read)]) :
    Keeps header level thread (enterRead root thread call) := by
  have rooted : ∀ before : Thread, (∀ latch ∈ before.held, latch = (header, GuardKind.read)) →
      Reads header level (ask before (.reading call root) (root, .read)) root := by
    intro before inside
    constructor
    · exact Or.inr rfl
    · intro latch member
      rw [inside latch member]
    · intro _
      refine ⟨apart, fun latch member other => absurd ?_ other⟩
      rw [inside latch member]
  have first : ∀ latch ∈ thread.held, latch = (header, GuardKind.read) := by
    simp [atHeader]
  unfold enterRead
  by_cases none : root = INVALID_PAGE_ID
  · rw [if_pos none]
    cases call <;> exact ⟨quiet, fun _ member => member, Or.inl rfl⟩
  · rw [if_neg none]
    cases call with
    | getValue => exact ⟨rooted _ (by simp), by simp [ask], Or.inl rfl⟩
    | iterate => exact ⟨rooted _ first, fun _ member => member, Or.inl rfl⟩
    | insert => exact ⟨rooted _ first, fun _ member => member, Or.inl rfl⟩
    | remove => exact ⟨rooted _ first, fun _ member => member, Or.inl rfl⟩

theorem shaped_reader {pid : PageId} {call : Call}
    (stage : thread.stage = .reading call pid ∨ thread.stage = .iterating pid)
    (reader : Reads header level thread pid) : Shaped header level thread := by
  unfold Shaped
  rcases stage with same | same
  · rw [same]
    exact reader
  · rw [same]
    exact reader

/-- A reader goes on to a page that is not above the one it stands on. -/
theorem reads_on {pid other : PageId} {stage : Stage} (reader : Reads header level thread pid)
    (below : thread.stray = false → other ≠ header ∧ level other ≤ level pid) :
    Reads header level (ask thread stage (other, .read)) other := by
  constructor
  · exact Or.inr rfl
  · exact reader.reads
  · intro straight
    obtain ⟨apart, low⟩ := below straight
    refine ⟨apart, fun latch member inside => ?_⟩
    have := (reader.high straight).2 latch member inside
    omega

theorem reads_let_go {latest old : Latch} {rest : List Latch}
    (reader : Reads header level thread pid) (quiet : thread.asks = none)
    (guards : thread.held = latest :: old :: rest) :
    Reads header level { thread with held := latest :: rest } pid := by
  have inside : ∀ latch ∈ latest :: rest, latch ∈ thread.held := by
    intro latch member
    rw [guards]
    rcases List.mem_cons.mp member with same | later
    · exact List.mem_cons.mpr (Or.inl same)
    · exact List.mem_cons_of_mem _ (List.mem_cons_of_mem _ later)
  constructor
  · rcases reader.stands with ⟨_, more, stands⟩ | asks
    · rw [guards] at stands
      obtain ⟨rfl, _⟩ := List.cons.inj stands
      exact Or.inl ⟨quiet, rest, rfl⟩
    · rw [quiet] at asks
      cases asks
  · exact fun latch member => reader.reads latch (inside latch member)
  · intro straight
    exact ⟨(reader.high straight).1, fun latch member =>
      (reader.high straight).2 latch (inside latch member)⟩

theorem reads_held (reader : Reads header level thread pid) (quiet : thread.asks = none) :
    (pid, GuardKind.read) ∈ thread.held := by
  rcases reader.stands with ⟨_, rest, stands⟩ | asks
  · rw [stands]
    exact List.mem_cons_self
  · rw [quiet] at asks
    cases asks

def Sound (header : PageId) (level : PageId → Nat) (pages : PageId → Page)
    (thread : Thread) : Prop :=
  thread.stray = false → ∀ latch ∈ thread.held, latch.1 ≠ header →
    Fits header level latch.1 (pages latch.1)

theorem read_keeps (reader : Reads header level thread pid) (quiet : thread.asks = none)
    (stage : thread.stage = .reading call pid) (sound : Sound header level pages thread)
    (stepped : readStep pages thread call pid op = some next) : Keeps header level thread next := by
  have fits : thread.stray = false → Fits header level pid (pages pid) := fun straight =>
    sound straight _ (reads_held reader quiet) (reader.high straight).1
  have gone : ∀ after, Keeps header level thread (go thread (.leaving after)) := fun after =>
    ⟨quiet, fun _ member => member, Or.inl rfl⟩
  unfold readStep at stepped
  split at stepped
  · -- the old guard is dropped
    split at stepped
    · split at stepped
      · cases stepped
      · obtain rfl := Option.some.inj stepped
        rename_i latest old rest guards _
        refine ⟨shaped_reader (Or.inl stage) (reads_let_go reader quiet guards), ?_, Or.inl rfl⟩
        simp only [guards, List.mem_cons]
        tauto
    · cases stepped
  · -- a child is asked for
    rename_i children found
    split at stepped
    · obtain ⟨child, inside, rfl⟩ := Option.map_eq_some_iff.mp stepped
      refine ⟨reads_on reader fun straight => ?_, fun _ member => member, Or.inl rfl⟩
      have here := fits straight
      rw [found] at here
      have := here child (List.mem_of_getElem? inside)
      exact ⟨this.1, by omega⟩
    · cases stepped
  · -- the leaf is reached
    split at stepped
    · cases call with
      | getValue =>
          obtain rfl := Option.some.inj stepped
          exact gone _
      | iterate =>
          obtain rfl := Option.some.inj stepped
          refine ⟨reads_on reader fun straight => ?_, fun _ member => member, Or.inl rfl⟩
          exact ⟨(reader.high straight).1, le_refl _⟩
      | insert =>
          obtain rfl := Option.some.inj stepped
          exact gone _
      | remove =>
          obtain rfl := Option.some.inj stepped
          exact gone _
    · cases stepped
  · cases call with
    | getValue => cases stepped
    | iterate => cases stepped
    | insert =>
        obtain rfl := Option.some.inj stepped
        exact gone _
    | remove =>
        obtain rfl := Option.some.inj stepped
        exact gone _
  · -- `Begin` passes a leaf without live entries
    rename_i following found
    split at stepped
    · split at stepped
      · obtain rfl := Option.some.inj stepped
        exact gone _
      · rename_i more
        obtain rfl := Option.some.inj stepped
        refine ⟨reads_on reader fun straight => ?_, fun _ member => member, Or.inl rfl⟩
        have here := fits straight
        rw [found] at here
        have := here.2 more
        exact ⟨this.1, by omega⟩
    · cases stepped
  · cases stepped

theorem iterate_keeps (reader : Reads header level thread pid) (quiet : thread.asks = none)
    (stage : thread.stage = .iterating pid) (sound : Sound header level pages thread)
    (stepped : iterateStep pages thread pid op = some next) : Keeps header level thread next := by
  have fits : thread.stray = false → Fits header level pid (pages pid) := fun straight =>
    sound straight _ (reads_held reader quiet) (reader.high straight).1
  unfold iterateStep at stepped
  split at stepped
  · rename_i latest old rest guards
    obtain rfl := Option.some.inj stepped
    refine ⟨@shaped_reader header level _ pid .iterate (Or.inr stage)
        (reads_let_go reader quiet guards), ?_, Or.inl rfl⟩
    simp only [guards, List.mem_cons]
    tauto
  · split at stepped
    · rename_i following found
      split at stepped
      · obtain rfl := Option.some.inj stepped
        exact ⟨quiet, fun _ member => member, Or.inl rfl⟩
      · rename_i more
        obtain rfl := Option.some.inj stepped
        refine ⟨reads_on reader fun straight => ?_, fun _ member => member, Or.inl rfl⟩
        have here := fits straight
        rw [found] at here
        have := here.2 more
        exact ⟨this.1, by omega⟩
    · cases stepped
  · cases stepped

theorem enter_write_keeps (apart : root ≠ header) (quiet : thread.asks = none)
    (atHeader : thread.held = [(header, .write)]) :
    Keeps header level thread (enterWrite root thread call) := by
  unfold enterWrite
  by_cases empty : root = INVALID_PAGE_ID
  · rw [if_pos empty]
    cases call <;> exact ⟨quiet, fun _ member => member, Or.inl rfl⟩
  · rw [if_neg empty]
    refine ⟨⟨?_, by simp, Or.inr ⟨rfl, ?_⟩, ?_⟩, fun _ member => member, Or.inl rfl⟩
    · simp [ask, atHeader]
    · simp [ask, atHeader]
    · simp [ask, atHeader, apart]

theorem write_keeps (writer : Descends header level thread pid path) (quiet : thread.asks = none)
    (sound : Sound header level pages thread)
    (stepped : writeStep pages thread call pid path op = some next) :
    Keeps header level thread next := by
  obtain ⟨here, apart⟩ : (pid, GuardKind.write) ∈ thread.held ∧ pid ≠ header := by
    rcases writer.stands with stands | asks
    · exact stands.2
    · rw [quiet] at asks
      cases asks.1
  have below : ∀ page ∈ pid :: path, page ≠ header := by
    simpa [apart] using writer.below
  unfold writeStep at stepped
  split at stepped
  · -- a child is asked for, and every page held is above it
    rename_i children found
    obtain ⟨child, inside, rfl⟩ := Option.map_eq_some_iff.mp stepped
    have lower : thread.stray = false → child ≠ header ∧ level child < level pid := by
      intro straight
      have fits : Fits header level pid (pages pid) := sound straight _ here apart
      rw [found] at fits
      have := fits child (List.mem_of_getElem? inside)
      exact ⟨this.1, by omega⟩
    refine ⟨⟨writer.locked, below, Or.inr ⟨rfl, ?_⟩, ?_⟩, fun _ member => member, Or.inl rfl⟩
    · intro straight latch member other
      have := (writer.high straight).2 latch member other
      have := (lower straight).2
      omega
    · intro straight
      refine ⟨(lower straight).1, fun latch member other => ?_⟩
      have := (writer.high straight).2 latch member other
      have := (lower straight).2
      omega
  · cases call with
    | remove =>
        obtain rfl := Option.some.inj stepped
        exact ⟨⟨quiet, writer.locked, below⟩, fun _ member => member, Or.inl rfl⟩
    | getValue =>
        obtain rfl := Option.some.inj stepped
        exact ⟨quiet, fun _ member => member, Or.inl rfl⟩
    | iterate =>
        obtain rfl := Option.some.inj stepped
        exact ⟨quiet, fun _ member => member, Or.inl rfl⟩
    | insert =>
        obtain rfl := Option.some.inj stepped
        exact ⟨quiet, fun _ member => member, Or.inl rfl⟩
  · obtain rfl := Option.some.inj stepped
    exact ⟨quiet, fun _ member => member, Or.inl rfl⟩
  · cases stepped

theorem erased_header (apart : pid ≠ header) (locked : (header, GuardKind.write) ∈ thread.held) :
    (header, GuardKind.write) ∈ (release thread pid).held := by
  have other : (header, GuardKind.write) ≠ (pid, GuardKind.write) := by
    intro same
    exact apart (Prod.mk.inj same).1.symm
  exact (List.mem_erase_of_ne other).mpr locked

theorem erased_held : ∀ latch ∈ (release thread pid).held, latch ∈ thread.held :=
  fun _ member => List.mem_of_mem_erase member

theorem remove_keeps (shaped : Shaped header level thread)
    (stepped : removeStep pages thread op = some next) :
    Keeps header level thread next := by
  unfold removeStep at stepped
  split at stepped
  · rename_i pid rest stage
    rw [Shaped, stage] at shaped
    obtain ⟨quiet, locked, below⟩ := shaped
    obtain rfl := Option.some.inj stepped
    refine ⟨⟨quiet, erased_header (below pid List.mem_cons_self) locked, ?_⟩,
      erased_held, Or.inl rfl⟩
    exact fun page member => below page (List.mem_cons_of_mem _ member)
  · rename_i stage
    rw [Shaped, stage] at shaped
    obtain rfl := Option.some.inj stepped
    exact ⟨shaped.1, fun _ member => member, Or.inl rfl⟩
  · rename_i stage
    rw [Shaped, stage] at shaped
    obtain rfl := Option.some.inj stepped
    exact ⟨shaped, fun _ member => member, Or.inl rfl⟩
  · rename_i stage
    rw [Shaped, stage] at shaped
    obtain ⟨sibling, _, rfl⟩ := Option.map_eq_some_iff.mp stepped
    exact ⟨⟨shaped.2.1, shaped.2.2, Or.inr rfl⟩, fun _ member => member, Or.inl rfl⟩
  · rename_i stage
    rw [Shaped, stage] at shaped
    obtain ⟨sibling, _, rfl⟩ := Option.map_eq_some_iff.mp stepped
    exact ⟨⟨shaped.2.1, shaped.2.2, Or.inr rfl⟩, fun _ member => member, Or.inl rfl⟩
  · rename_i stage
    rw [Shaped, stage] at shaped
    obtain ⟨quiet, locked, below⟩ := shaped
    obtain rfl := Option.some.inj stepped
    refine ⟨⟨quiet, locked, ?_⟩, fun _ member => member, Or.inl rfl⟩
    exact fun page member => below page (List.mem_cons_of_mem _ member)
  · rename_i stage
    rw [Shaped, stage] at shaped
    obtain rfl := Option.some.inj stepped
    exact ⟨shaped.1, fun _ member => member, Or.inl rfl⟩
  · rename_i stage
    rw [Shaped, stage] at shaped
    obtain rfl := Option.some.inj stepped
    exact ⟨shaped, fun _ member => member, Or.inl rfl⟩
  · cases stepped

theorem beside_keeps {sibling : PageId} (quiet : thread.asks = none)
    (stage : thread.stage = .beside path sibling) (shaped : Shaped header level thread)
    (stepped : besideStep thread path sibling op = some next) : Keeps header level thread next := by
  rw [Shaped, stage] at shaped
  obtain ⟨locked, below, stands⟩ := shaped
  have apart : sibling ≠ header := by
    rcases stands with stands | asks
    · exact stands.2
    · rw [quiet] at asks
      cases asks
  have stillLocked := erased_header apart locked
  unfold besideStep at stepped
  split at stepped
  · obtain rfl := Option.some.inj stepped
    exact ⟨⟨quiet, stillLocked, below⟩, erased_held, Or.inl rfl⟩
  · obtain rfl := Option.some.inj stepped
    exact ⟨quiet, erased_held, Or.inl rfl⟩
  · split at stepped
    · obtain rfl := Option.some.inj stepped
      refine ⟨⟨quiet, stillLocked, ?_⟩, erased_held, Or.inl rfl⟩
      exact fun page member => below page (List.mem_cons_of_mem _ member)
    · cases stepped
  · cases stepped

theorem shrink_keeps (quiet : thread.asks = none) (shaped : Shaped header level thread)
    (stepped : shrinkStep root thread op = some next) : Keeps header level thread next := by
  have gone : ∀ after, Keeps header level thread (go thread (.leaving after)) := fun after =>
    ⟨quiet, fun _ member => member, Or.inl rfl⟩
  unfold shrinkStep at stepped
  split at stepped
  · rename_i stage
    split at stepped
    · obtain rfl := Option.some.inj stepped
      exact gone _
    · obtain rfl := Option.some.inj stepped
      rw [Shaped, stage] at shaped
      rcases shaped with waits | ⟨_, atHeader⟩
      · rw [quiet] at waits
        cases waits.1
      · exact ⟨Or.inr ⟨rfl, atHeader⟩, fun _ member => member, Or.inl rfl⟩
  · obtain rfl := Option.some.inj stepped
    exact gone _
  · obtain rfl := Option.some.inj stepped
    exact gone _
  · cases stepped

theorem leave_keeps {after : After} (quiet : thread.asks = none)
    (stage : thread.stage = .leaving after)
    (stepped : leaveStep header thread after op = some next) : Keeps header level thread next := by
  unfold leaveStep at stepped
  split at stepped
  · rename_i guards
    obtain rfl := Option.some.inj stepped
    refine ⟨?_, ?_, Or.inl rfl⟩
    · rw [Shaped, stage]
      exact quiet
    · intro latch member
      exact List.mem_of_mem_eraseIdx member
  · rename_i none _
    have nothing : ∀ latch ∈ thread.held, latch ∈ thread.held := fun _ member => member
    cases after with
    | done =>
        obtain rfl := Option.some.inj stepped
        exact ⟨⟨none, quiet⟩, nothing, Or.inr none⟩
    | leaf call pid =>
        obtain rfl := Option.some.inj stepped
        exact ⟨Or.inr ⟨rfl, none⟩, nothing, Or.inr none⟩
    | locking call =>
        obtain rfl := Option.some.inj stepped
        exact ⟨Or.inl ⟨rfl, none⟩, nothing, Or.inr none⟩
    | shrinking =>
        obtain rfl := Option.some.inj stepped
        exact ⟨Or.inl ⟨rfl, none⟩, nothing, Or.inr none⟩
  · cases stepped

theorem proceed_keeps (apart : root ≠ header) (sound : Sound header level pages thread)
    (quiet : thread.asks = none) (shaped : Shaped header level thread)
    (stepped : proceed header root pages thread op = some next) :
    Keeps header level thread next := by
  have gone : ∀ after, Keeps header level thread (go thread (.leaving after)) := fun after =>
    ⟨quiet, fun _ member => member, Or.inl rfl⟩
  unfold proceed at stepped
  split at stepped
  · rename_i stage
    obtain rfl := Option.some.inj stepped
    rw [Shaped, stage] at shaped
    exact ⟨Or.inl ⟨rfl, shaped.1⟩, fun _ member => member, Or.inl rfl⟩
  · rename_i stage
    obtain rfl := Option.some.inj stepped
    rw [Shaped, stage] at shaped
    rcases shaped with waits | ⟨_, atHeader⟩
    · rw [quiet] at waits
      cases waits.1
    · exact enter_read_keeps apart quiet atHeader
  · rename_i stage
    have reader := shaped
    rw [Shaped, stage] at reader
    exact read_keeps reader quiet stage sound stepped
  · rename_i stage
    have reader := shaped
    rw [Shaped, stage] at reader
    exact iterate_keeps reader quiet stage sound stepped
  · obtain rfl := Option.some.inj stepped
    exact gone _
  · obtain rfl := Option.some.inj stepped
    exact gone _
  · rename_i stage
    obtain rfl := Option.some.inj stepped
    rw [Shaped, stage] at shaped
    rcases shaped with waits | ⟨_, atHeader⟩
    · rw [quiet] at waits
      cases waits.1
    · exact enter_write_keeps apart quiet atHeader
  · rename_i stage
    rw [Shaped, stage] at shaped
    exact write_keeps shaped quiet sound stepped
  · obtain rfl := Option.some.inj stepped
    exact gone _
  · exact remove_keeps shaped stepped
  · exact remove_keeps shaped stepped
  · exact remove_keeps shaped stepped
  · rename_i stage
    exact beside_keeps quiet stage shaped stepped
  · exact shrink_keeps quiet shaped stepped
  · exact shrink_keeps quiet shaped stepped
  · rename_i stage
    exact leave_keeps quiet stage stepped
  · cases stepped

end Threads

/-! What holds of the threads together. -/

structure PoolInv (pool : Pool) : Prop where
  fits : ∀ pid, pid ∉ pool.deleted → Fits header level pid (pool.pages pid)
  root : pool.rootPageId ≠ header
  shaped : ∀ (t : Nat) thread, pool.threads[t]? = some thread → Shaped header level thread
  live : ∀ (t : Nat) thread, pool.threads[t]? = some thread → thread.stray = false →
    ∀ latch ∈ thread.held, latch.1 ∉ pool.deleted
  apart : ∀ (t u : Nat) one two, t ≠ u → pool.threads[t]? = some one → pool.threads[u]? = some two →
    ∀ mine ∈ one.held, ∀ theirs ∈ two.held, mine.1 = theirs.1 → conflicts mine.2 theirs.2 = false

section Pool
variable {header : PageId} {level : PageId → Nat} {pool after : Pool} {t u : Nat}
  {thread next : Thread} {latch : Latch} {threads : List Thread} {deleted : List PageId}
  {pid : PageId} {label : Nat × TreeOp}

theorem set_found (found : pool.threads[t]? = some thread) {other : Thread}
    (lookup : (pool.threads.set t next)[u]? = some other) :
    (u = t ∧ other = next) ∨ (u ≠ t ∧ pool.threads[u]? = some other) := by
  rw [List.getElem?_set] at lookup
  split at lookup
  · rename_i same
    have inside : t < pool.threads.length := (List.getElem?_eq_some_iff.mp found).1
    rw [if_pos inside] at lookup
    exact Or.inl ⟨same.symm, (Option.some.inj lookup).symm⟩
  · rename_i different
    exact Or.inr ⟨fun same => different same.symm, lookup⟩

theorem conflicts_comm (one two : GuardKind) : conflicts one two = conflicts two one := by
  cases one <;> cases two <;> rfl

/-- One thread moves: it keeps the invariant if its own part holds and its new guards conflict
with no one's. -/
theorem moved_inv (inv : PoolInv header level pool) (found : pool.threads[t]? = some thread)
    (shaped : Shaped header level next)
    (live : next.stray = false → ∀ latch ∈ next.held, latch.1 ∉ pool.deleted)
    (apart : ∀ (u : Nat) other, u ≠ t → pool.threads[u]? = some other → ∀ mine ∈ next.held,
      ∀ theirs ∈ other.held, mine.1 = theirs.1 → conflicts mine.2 theirs.2 = false) :
    PoolInv header level { pool with threads := pool.threads.set t next } := by
  constructor
  · exact inv.fits
  · exact inv.root
  · intro u other lookup
    rcases set_found found lookup with ⟨_, rfl⟩ | ⟨_, same⟩
    · exact shaped
    · exact inv.shaped u other same
  · intro u other lookup
    rcases set_found found lookup with ⟨_, rfl⟩ | ⟨_, same⟩
    · exact live
    · exact inv.live u other same
  · intro v w one two different lookupOne lookupTwo mine inOne theirs inTwo same
    rcases set_found found lookupOne with ⟨rfl, rfl⟩ | ⟨_, old⟩
    · rcases set_found found lookupTwo with ⟨rfl, _⟩ | ⟨other, older⟩
      · exact absurd rfl different
      · exact apart w two other older mine inOne theirs inTwo same
    · rcases set_found found lookupTwo with ⟨rfl, rfl⟩ | ⟨_, older⟩
      · rename_i other
        rw [conflicts_comm]
        exact apart v one other old theirs inTwo mine inOne same.symm
      · exact inv.apart v w one two different old older mine inOne theirs inTwo same

/-- A thread that has no guard it did not have before conflicts with no one. -/
theorem shrunk_inv (inv : PoolInv header level pool) (found : pool.threads[t]? = some thread)
    (keeps : Keeps header level thread next) :
    PoolInv header level { pool with threads := pool.threads.set t next } := by
  apply moved_inv inv found keeps.shaped
  · intro straight latch member
    rcases keeps.stray with same | none
    · exact inv.live t thread found (same ▸ straight) latch (keeps.held latch member)
    · rw [none] at member
      cases member
  · intro u other different lookup mine inNext theirs inOther same
    exact inv.apart t u thread other (Ne.symm different) found lookup mine
      (keeps.held mine inNext) theirs inOther same

theorem sound_of_inv (inv : PoolInv header level pool) (found : pool.threads[t]? = some thread) :
    Sound header level pool.pages thread :=
  fun straight latch member _ => inv.fits latch.1 (inv.live t thread found straight latch member)

theorem free_iff : free threads latch = true ↔
    ∀ (u : Nat) holder, threads[u]? = some holder → ∀ other ∈ holder.held, other.1 = latch.1 →
      conflicts latch.2 other.2 = false := by
  unfold free
  rw [List.all_eq_true]
  constructor
  · intro all u holder lookup other member same
    have := List.all_eq_true.mp (all holder (List.mem_of_getElem? lookup)) other member
    simpa [same] using this
  · intro all holder inside
    obtain ⟨u, lookup⟩ := List.getElem?_of_mem inside
    rw [List.all_eq_true]
    intro other member
    by_cases same : other.1 = latch.1
    · simp [all u holder lookup other member same]
    · simp [same]

theorem granted_straight (straight : (granted deleted thread latch).stray = false) :
    thread.stray = false ∧ latch.1 ∉ deleted := by
  simpa [granted] using straight

theorem granted_low {kind : GuardKind}
    (low : thread.stray = false → pid ≠ header ∧ ∀ latch ∈ thread.held, latch.1 ≠ header →
      level pid ≤ level latch.1)
    (straight : (granted deleted thread (pid, kind)).stray = false) :
    pid ≠ header ∧
      ∀ latch ∈ (granted deleted thread (pid, kind)).held, latch.1 ≠ header →
      level pid ≤ level latch.1 := by
  obtain ⟨apart, below⟩ := low (granted_straight straight).1
  refine ⟨apart, fun latch member other => ?_⟩
  rcases List.mem_cons.mp member with rfl | old
  · exact le_refl _
  · exact below latch old other

/-- No second guard for writing is given out, not even to the thread that has the first. -/
theorem granted_apart {pid other : PageId} (found : threads[t]? = some thread)
    (given : free threads (other, .write) = true) (locked : (pid, GuardKind.write) ∈ thread.held) :
    other ≠ pid := by
  intro same
  have := free_iff.mp given t thread found (pid, .write) locked same.symm
  simp [conflicts] at this

theorem reads_granted (reader : Reads header level thread pid)
    (asked : thread.asks = some latch) : Reads header level (granted deleted thread latch) pid := by
  obtain rfl : latch = (pid, .read) := by
    rcases reader.stands with ⟨quiet, _⟩ | asks
    · rw [quiet] at asked
      cases asked
    · rw [asks] at asked
      exact (Option.some.inj asked).symm
  refine ⟨Or.inl ⟨rfl, thread.held, rfl⟩, ?_, granted_low reader.high⟩
  intro latch member
  rcases List.mem_cons.mp member with rfl | old
  · rfl
  · exact reader.reads latch old

theorem granted_shaped (found : threads[t]? = some thread) (shaped : Shaped header level thread)
    (asked : thread.asks = some latch) (given : free threads latch = true) :
    Shaped header level (granted deleted thread latch) := by
  have waits : thread.asks ≠ none := by
    rw [asked]
    exact Option.some_ne_none _
  have same : ∀ {other}, thread.asks = some other → latch = other := fun asks =>
    Option.some.inj (asked.symm.trans asks)
  have kept : ∀ other ∈ thread.held, other ∈ (granted deleted thread latch).held :=
    fun _ member => List.mem_cons_of_mem _ member
  unfold Shaped at shaped ⊢
  have stage : (granted deleted thread latch).stage = thread.stage := rfl
  rw [stage]
  split at shaped
  · exact absurd shaped.2 waits
  · rcases shaped with ⟨asks, none⟩ | quiet
    · refine Or.inr ⟨rfl, ?_⟩
      simp [granted, none, same asks]
    · exact absurd quiet.1 waits
  · exact reads_granted shaped asked
  · exact reads_granted shaped asked
  · exact Or.inl rfl
  · rcases shaped with ⟨asks, none⟩ | quiet
    · refine Or.inr ⟨rfl, ?_⟩
      simp [granted, none, same asks]
    · exact absurd quiet.1 waits
  · rcases shaped with ⟨asks, none⟩ | quiet
    · refine Or.inr ⟨rfl, ?_⟩
      simp [granted, none, same asks]
    · exact absurd quiet.1 waits
  · rcases shaped.stands with quiet | ⟨asks, _⟩
    · exact absurd quiet.1 waits
    · obtain rfl := same asks
      refine ⟨kept _ shaped.locked, shaped.below, Or.inl ⟨rfl, List.mem_cons_self, ?_⟩,
        granted_low shaped.high⟩
      exact granted_apart found given shaped.locked
  · exact Or.inl rfl
  · exact absurd shaped.1 waits
  · exact absurd shaped.1 waits
  · obtain ⟨locked, below, quiet | asks⟩ := shaped
    · exact absurd quiet.1 waits
    · obtain rfl := same asks
      exact ⟨kept _ locked, below, Or.inl ⟨rfl, granted_apart found given locked⟩⟩
  · exact absurd shaped waits
  · exact absurd shaped waits
  · exact absurd shaped waits

theorem pinned_held (loose : pinned threads pid = false)
    (found : threads[t]? = some thread) : ∀ latch ∈ thread.held, latch.1 ≠ pid := by
  intro latch member same
  have := List.any_eq_false.mp loose thread (List.mem_of_getElem? found)
  simp only [Bool.or_eq_true, not_or, List.any_eq_true, not_exists, not_and, decide_eq_true_eq]
    at this
  exact this.1 latch member same

theorem shaped_doomed (shaped : Shaped header level thread) (doomed : List PageId) :
    Shaped header level { thread with doomed := doomed } := by
  cases thread with
  | mk stage held asks before stray =>
      cases stage
      case reading call pid =>
        have reader : Reads header level _ pid := shaped
        exact ⟨reader.stands, reader.reads, reader.high⟩
      case iterating pid =>
        have reader : Reads header level _ pid := shaped
        exact ⟨reader.stands, reader.reads, reader.high⟩
      case writing call pid path =>
        have writer : Descends header level _ pid path := shaped
        exact ⟨writer.locked, writer.below, writer.stands, writer.high⟩
      all_goals exact shaped

theorem doomed_inv (inv : PoolInv header level pool) (found : pool.threads[t]? = some thread)
    (doomed : List PageId) :
    PoolInv header level { pool with
      threads := pool.threads.set t { thread with doomed := doomed } } :=
  shrunk_inv inv found ⟨shaped_doomed (inv.shaped t thread found) doomed, fun _ member =>
    member, Or.inl rfl⟩

theorem act_inv (inv : PoolInv header level pool) (found : pool.threads[t]? = some thread)
    (quiet : thread.asks = none) {op : TreeOp}
    (stepped : act header level pool t thread op = some after) :
    PoolInv header level after := by
  unfold act at stepped
  split at stepped
  · -- a new page
    rename_i pid
    split at stepped
    · rename_i conditions
      obtain ⟨stage, _, new, loose⟩ := conditions
      obtain rfl := Option.some.inj stepped
      apply moved_inv inv found
      · simp [Shaped, stage, quiet]
      · intro straight latch member
        rcases List.mem_cons.mp member with rfl | old
        · exact new
        · exact inv.live t thread found straight latch old
      · intro u other different lookup mine inNext theirs inOther same
        rcases List.mem_cons.mp inNext with rfl | old
        · exact absurd same.symm (pinned_held loose lookup theirs inOther)
        · exact inv.apart t u thread other (Ne.symm different) found lookup mine old
            theirs inOther same
    · cases stepped
  · -- a page is written
    split at stepped
    · rename_i pid page conditions
      obtain rfl := Option.some.inj stepped
      refine ⟨fun other alive => ?_, inv.root, inv.shaped, inv.live, inv.apart⟩
      by_cases same : other = pid
      · subst same
        simpa using conditions.2.2
      · simpa [Function.update_of_ne same] using inv.fits other alive
    · cases stepped
  · split at stepped
    · rename_i conditions
      obtain rfl := Option.some.inj stepped
      exact ⟨inv.fits, conditions.2.2, inv.shaped, inv.live, inv.apart⟩
    · cases stepped
  · split at stepped
    · obtain rfl := Option.some.inj stepped
      exact doomed_inv inv found _
    · cases stepped
  · -- `DeletePage`
    split at stepped
    · rename_i pid rest _ _ _
      split at stepped
      · obtain rfl := Option.some.inj stepped
        exact doomed_inv inv found _
      · rename_i loose
        obtain rfl := Option.some.inj stepped
        have base := doomed_inv inv found rest
        refine ⟨fun other alive => ?_, inv.root, base.shaped, ?_, base.apart⟩
        · obtain ⟨different, kept⟩ := not_or.mp fun or => alive (List.mem_cons.mpr or)
          simpa [Function.update_of_ne different] using inv.fits other kept
        · intro u other lookup straight latch member deleted
          rcases List.mem_cons.mp deleted with same | old
          · rcases set_found found lookup with ⟨rfl, rfl⟩ | ⟨_, kept⟩
            · exact pinned_held (Bool.eq_false_iff.mpr loose) found latch member same
            · exact pinned_held (Bool.eq_false_iff.mpr loose) kept latch member same
          · exact base.live u other lookup straight latch member old
    · cases stepped
  · obtain ⟨next, proceeds, rfl⟩ := Option.map_eq_some_iff.mp stepped
    exact shrunk_inv inv found
      (proceed_keeps inv.root (sound_of_inv inv found) quiet (inv.shaped t thread found) proceeds)

theorem granted_inv (inv : PoolInv header level pool) (found : pool.threads[t]? = some thread)
    (asked : thread.asks = some latch) (given : free pool.threads latch = true) :
    PoolInv header level { pool with
      threads := pool.threads.set t (granted pool.deleted thread latch) } := by
  apply moved_inv inv found
  · exact granted_shaped found (inv.shaped t thread found) asked given
  · intro straight other member
    obtain ⟨before, alive⟩ := granted_straight straight
    rcases List.mem_cons.mp member with rfl | old
    · exact alive
    · exact inv.live t thread found before other old
  · intro u other different lookup mine inNext theirs inOther same
    rcases List.mem_cons.mp inNext with rfl | old
    · exact free_iff.mp given u other lookup theirs inOther same.symm
    · exact inv.apart t u thread other (Ne.symm different) found lookup mine old theirs inOther same

/-- A step gives a latch to the thread that asks for it, or is the act of one that asks for none. -/
theorem step_cases (stepped : step header level pool label = some after) :
    ∃ thread, pool.threads[label.1]? = some thread ∧
      ((∃ latch, thread.asks = some latch ∧ free pool.threads latch = true ∧
          after =
            { pool with threads := pool.threads.set label.1 (granted pool.deleted thread latch) }) ∨
        (thread.asks = none ∧ act header level pool label.1 thread label.2 = some after)) := by
  unfold step at stepped
  split at stepped
  · cases stepped
  · rename_i thread found
    refine ⟨thread, found, ?_⟩
    split at stepped
    · rename_i latch asked _
      split at stepped
      · rename_i given
        exact Or.inl ⟨latch, asked, given, (Option.some.inj stepped).symm⟩
      · cases stepped
    · cases stepped
    · rename_i quiet
      exact Or.inr ⟨quiet, stepped⟩

theorem step_inv (inv : PoolInv header level pool)
    (stepped : step header level pool label = some after) : PoolInv header level after := by
  obtain ⟨thread, found, ⟨latch, asked, given, rfl⟩ | ⟨quiet, acts⟩⟩ := step_cases stepped
  · exact granted_inv inv found asked given
  · exact act_inv inv found quiet acts

end Pool

/-! A circle of waiting threads is a pair that crosses. -/

def Uncrossed (pool : Pool) : Prop :=
  ∀ (t u : Nat) remover reader, t ≠ u → pool.threads[t]? = some remover →
    pool.threads[u]? = some reader → ¬ Crossed remover reader

section Circles
variable {header : PageId} {level : PageId → Nat} {pool after : Pool} {t u : Nat}
  {thread next : Thread} {x : PageId}

/-- What a thread holds while it asks for a latch to read: read guards, of pages not below that
one. -/
theorem reader_holds {y : PageId} (shaped : Shaped header level thread)
    (asks : thread.asks = some (y, .read))
    (holds : thread.held ≠ []) : Reads header level thread y := by
  have read : ∀ {x : PageId}, thread.asks ≠ some (x, .write) := by
    intro x same
    rw [asks] at same
    cases same
  unfold Shaped at shaped
  split at shaped
  · exact absurd shaped.1 holds
  · rcases shaped with ⟨_, none⟩ | ⟨quiet, _⟩
    · exact absurd none holds
    · rw [quiet] at asks
      cases asks
  · rename_i pid _
    rcases shaped.stands with ⟨quiet, _⟩ | same
    · rw [quiet] at asks
      cases asks
    · rw [asks] at same
      obtain rfl : y = pid := congrArg Prod.fst (Option.some.inj same)
      exact shaped
  · rename_i pid _
    rcases shaped.stands with ⟨quiet, _⟩ | same
    · rw [quiet] at asks
      cases asks
    · rw [asks] at same
      obtain rfl : y = pid := congrArg Prod.fst (Option.some.inj same)
      exact shaped
  · rcases shaped with quiet | ⟨same, _⟩
    · rw [quiet] at asks
      cases asks
    · exact absurd same read
  · rcases shaped with ⟨same, _⟩ | ⟨quiet, _⟩
    · exact absurd same read
    · rw [quiet] at asks
      cases asks
  · rcases shaped with ⟨same, _⟩ | ⟨quiet, _⟩
    · exact absurd same read
    · rw [quiet] at asks
      cases asks
  · rcases shaped.stands with ⟨quiet, _⟩ | ⟨same, _⟩
    · rw [quiet] at asks
      cases asks
    · exact absurd same read
  · rcases shaped with quiet | ⟨same, _⟩
    · rw [quiet] at asks
      cases asks
    · exact absurd same read
  · rw [shaped.1] at asks
    cases asks
  · rw [shaped.1] at asks
    cases asks
  · rcases shaped.2.2 with ⟨quiet, _⟩ | same
    · rw [quiet] at asks
      cases asks
    · exact absurd same read
  · rw [shaped] at asks
    cases asks
  · rw [shaped] at asks
    cases asks
  · rw [shaped] at asks
    cases asks

/-- A thread that holds something while it asks for a latch to write has the header page,
and unless it asks for a sibling or has strayed, its pages are above the one it asks for. -/
theorem writer_holds (shaped : Shaped header level thread) (asks : thread.asks = some (x, .write))
    (holds : thread.held ≠ []) : (header, GuardKind.write) ∈ thread.held ∧
      (repairing thread = false → thread.stray = false →
        ∀ latch ∈ thread.held, latch.1 ≠ header → level x < level latch.1) := by
  have asked : thread.asks ≠ none := by
    rw [asks]
    exact Option.some_ne_none _
  have written : ∀ {y : PageId}, thread.asks ≠ some (y, .read) := by
    intro y same
    rw [asks] at same
    cases same
  unfold Shaped at shaped
  split at shaped
  · exact absurd shaped.2 asked
  · rcases shaped with ⟨same, _⟩ | ⟨quiet, _⟩
    · exact absurd same written
    · exact absurd quiet asked
  · rcases shaped.stands with ⟨quiet, _⟩ | same
    · exact absurd quiet asked
    · exact absurd same written
  · rcases shaped.stands with ⟨quiet, _⟩ | same
    · exact absurd quiet asked
    · exact absurd same written
  · rcases shaped with quiet | ⟨_, none⟩
    · exact absurd quiet asked
    · exact absurd none holds
  · rcases shaped with ⟨_, none⟩ | ⟨quiet, _⟩
    · exact absurd none holds
    · exact absurd quiet asked
  · rcases shaped with ⟨_, none⟩ | ⟨quiet, _⟩
    · exact absurd none holds
    · exact absurd quiet asked
  · rename_i pid _ _
    refine ⟨shaped.locked, fun _ straight => ?_⟩
    rcases shaped.stands with ⟨quiet, _⟩ | ⟨same, above⟩
    · exact absurd quiet asked
    · rw [asks] at same
      obtain rfl : x = pid := congrArg Prod.fst (Option.some.inj same)
      exact above straight
  · rcases shaped with quiet | ⟨_, root⟩
    · exact absurd quiet asked
    · rw [root]
      refine ⟨List.mem_singleton.mpr rfl, fun _ _ latch member other => absurd ?_ other⟩
      rw [List.mem_singleton.mp member]
  · exact absurd shaped.1 asked
  · exact absurd shaped.1 asked
  · rename_i stage
    refine ⟨shaped.1, fun elsewhere => ?_⟩
    simp [repairing, stage] at elsewhere
  · exact absurd shaped asked
  · exact absurd shaped asked
  · exact absurd shaped asked

/-- A writer in a circle waits for a reader, and that reader waits for the writer. -/
theorem writer_crosses (inv : PoolInv header level pool) {set : Set Nat}
    (circle : ∀ t ∈ set, ∃ u ∈ set, u ≠ t ∧ Waits pool.threads t u) (inside : t ∈ set)
    (found : pool.threads[t]? = some thread) (asks : thread.asks = some (x, .write))
    (holds : thread.held ≠ []) :
    ∃ u reader, t ≠ u ∧ pool.threads[u]? = some reader ∧ Crossed thread reader := by
  obtain ⟨locked, above⟩ := writer_holds (inv.shaped t thread found) asks holds
  -- the reader that the writer waits for
  obtain ⟨u, insideU, different, waits⟩ := circle t inside
  obtain ⟨waiter, reader, latch, held, lookup, here, asked, member, same, _⟩ := waits
  obtain rfl : thread = waiter := Option.some.inj (found.symm.trans lookup)
  obtain rfl : latch = (x, .write) := Option.some.inj (asked.symm.trans asks)
  obtain ⟨w, insideW, differentW, waitsW⟩ := circle u insideU
  obtain ⟨waiter, writer, request, guard, lookupU, there, requested, guarded, sameW, clash⟩ :=
    waitsW
  obtain rfl : reader = waiter := Option.some.inj (here.symm.trans lookupU)
  obtain ⟨y, kind⟩ := request
  have holdsReader : reader.held ≠ [] := List.ne_nil_of_mem member
  have onlyWriter : ∀ v other, pool.threads[v]? = some other →
      (header, GuardKind.write) ∈ other.held → v = t := by
    intro v other lookupV lockedV
    by_contra elsewhere
    have := inv.apart v t other thread elsewhere lookupV found _ lockedV _ locked rfl
    simp [conflicts] at this
  cases kind with
  | write =>
      have := writer_holds (inv.shaped u reader here) requested holdsReader
      exact absurd (onlyWriter u reader here this.1) different
  | read =>
      have reads := reader_holds (inv.shaped u reader here) requested holdsReader
      have heldRead : held = (x, .read) := Prod.ext same (reads.reads held member)
      -- the writer that the reader waits for has the header page too, so it is the same one
      have guardWrite : guard = (y, .write) := by
        refine Prod.ext sameW ?_
        cases kind : guard.2 with
        | write => rfl
        | read => simp [conflicts, kind] at clash
      obtain ⟨_, _, _, back⟩ := circle w insideW
      have writerAsks : w = t := by
        obtain ⟨waiterW, _, wanted, _, lookupW, _, wants, _⟩ := back
        obtain rfl : writer = waiterW := Option.some.inj (there.symm.trans lookupW)
        obtain ⟨z, kindW⟩ := wanted
        have holdsW : writer.held ≠ [] := List.ne_nil_of_mem guarded
        cases kindW with
        | write =>
            exact onlyWriter w writer there
              (writer_holds (inv.shaped w writer there) wants holdsW).1
        | read =>
            have := (reader_holds (inv.shaped w writer there) wants holdsW).reads guard guarded
            rw [guardWrite] at this
            cases this
      subst writerAsks
      obtain rfl : thread = writer := Option.some.inj (found.symm.trans there)
      refine ⟨u, reader, Ne.symm different, here, x, y, asks, heldRead ▸ member, requested,
        guardWrite ▸ guarded, ?_⟩
      by_contra straight
      simp only [not_or, Bool.not_eq_true] at straight
      obtain ⟨elsewhere, writerStraight, readerStraight⟩ := straight
      obtain ⟨apart, below⟩ := reads.high readerStraight
      have higher := above elsewhere writerStraight guard guarded
      rw [guardWrite] at higher
      have up := higher apart
      rw [heldRead] at member
      have notHeader : x ≠ header := by
        intro at_header
        have := inv.apart u w reader thread different here there _ member _ locked at_header
        simp [conflicts] at this
      have := below _ member notHeader
      simp only at this up
      omega

theorem not_deadlocked (inv : PoolInv header level pool) (uncrossed : Uncrossed pool) :
    ¬ Deadlocked pool := by
  rintro ⟨set, ⟨t, inside⟩, circle⟩
  -- a thread of the set that another one waits for holds something and asks for something
  obtain ⟨u, insideU, _, waits⟩ := circle t inside
  obtain ⟨_, holder, _, held, _, here, _, member, _⟩ := waits
  have holds : holder.held ≠ [] := List.ne_nil_of_mem member
  obtain ⟨w, insideW, _, waitsW⟩ := circle u insideU
  obtain ⟨waiter, writer, request, guard, lookup, there, requested, guarded, same, clash⟩ := waitsW
  obtain rfl : holder = waiter := Option.some.inj (here.symm.trans lookup)
  obtain ⟨y, kind⟩ := request
  cases kind with
  | write =>
      obtain ⟨v, reader, different, found, crossed⟩ :=
        writer_crosses inv circle insideU here requested holds
      exact uncrossed u v holder reader different here found crossed
  | read =>
      -- a reader waits for a writer, which waits as well
      obtain ⟨_, _, _, back⟩ := circle w insideW
      obtain ⟨waiterW, _, wanted, _, lookupW, _, wants, _⟩ := back
      obtain rfl : writer = waiterW := Option.some.inj (there.symm.trans lookupW)
      have holdsW : writer.held ≠ [] := List.ne_nil_of_mem guarded
      obtain ⟨z, kindW⟩ := wanted
      cases kindW with
      | write =>
          obtain ⟨v, reader, different, found, crossed⟩ :=
            writer_crosses inv circle insideW there wants holdsW
          exact uncrossed w v writer reader different there found crossed
      | read =>
          have := (reader_holds (inv.shaped w writer there) wants holdsW).reads guard guarded
          rw [this] at clash
          simp [conflicts] at clash

theorem crossed_deadlocked (different : t ≠ u) {remover reader : Thread}
    (found : pool.threads[t]? = some remover) (here : pool.threads[u]? = some reader)
    (crossed : Crossed remover reader) :
    Deadlocked pool := by
  obtain ⟨x, y, asks, holds, requests, guards, _⟩ := crossed
  refine ⟨{t, u}, ⟨t, Or.inl rfl⟩, fun one inside => ?_⟩
  rcases inside with rfl | rfl
  · exact ⟨u, Or.inr rfl, Ne.symm different, remover, reader, _, _, found, here, asks,
      holds, rfl, rfl⟩
  · exact ⟨t, Or.inl rfl, different, reader, remover, _, _, here, found, requests, guards, rfl, rfl⟩

/-- The acts that change pages or take a new one ask for no latch. -/
theorem quiet_act {op : TreeOp} (found : pool.threads[t]? = some thread)
    (quiet : thread.asks = none) (stepped : act header level pool t thread op = some after) :
    (∃ next, proceed header pool.rootPageId pool.pages thread op = some next ∧
        after.threads = pool.threads.set t next) ∨
      (proceed header pool.rootPageId pool.pages thread op = none ∧
        ∃ next, next.asks = none ∧ after.threads = pool.threads.set t next) := by
  have same : pool.threads = pool.threads.set t thread := by
    have inside := (List.getElem?_eq_some_iff.mp found).2
    rw [← inside, List.set_getElem_self]
  unfold act at stepped
  split at stepped
  · split at stepped
    · rename_i pid conditions
      obtain rfl := Option.some.inj stepped
      exact Or.inr
        ⟨by simp [proceed, conditions.1], { thread with
          held := (pid, .write) :: thread.held }, quiet, rfl⟩
    · cases stepped
  · split at stepped
    · rename_i conditions
      obtain rfl := Option.some.inj stepped
      refine Or.inr ⟨?_, thread, quiet, same⟩
      cases stage : thread.stage <;>
        simp [restructures, stage, proceed, removeStep, besideStep, shrinkStep] at conditions ⊢
    · cases stepped
  · split at stepped
    · rename_i conditions
      obtain rfl := Option.some.inj stepped
      refine Or.inr ⟨?_, thread, quiet, same⟩
      cases stage : thread.stage <;>
        simp [restructures, stage, proceed, removeStep, besideStep, shrinkStep] at conditions ⊢
    · cases stepped
  · split at stepped
    · rename_i pid conditions
      obtain rfl := Option.some.inj stepped
      refine Or.inr ⟨?_, { thread with doomed := thread.doomed ++ [pid] }, quiet, rfl⟩
      cases stage : thread.stage <;>
        simp [restructures, stage, proceed, removeStep, besideStep, shrinkStep] at conditions ⊢
    · cases stepped
  · split at stepped
    · rename_i pid rest stage _ _
      split at stepped
      · obtain rfl := Option.some.inj stepped
        exact Or.inr
          ⟨by simp [proceed, leaveStep, stage], { thread with doomed := rest }, quiet, rfl⟩
      · obtain rfl := Option.some.inj stepped
        exact Or.inr
          ⟨by simp [proceed, leaveStep, stage], { thread with doomed := rest }, quiet, rfl⟩
    · cases stepped
  · obtain ⟨next, proceeds, rfl⟩ := Option.map_eq_some_iff.mp stepped
    exact Or.inl ⟨next, proceeds, rfl⟩

theorem quiet_uncrossed (uncrossed : Uncrossed pool) (found : pool.threads[t]? = some thread)
    (quiet : next.asks = none)
    (moved : after.threads = pool.threads.set t next) : Uncrossed after := by
  intro v w one two different lookupOne lookupTwo crossed
  obtain ⟨x, y, asksOne, _, asksTwo, _⟩ := id crossed
  rw [moved] at lookupOne lookupTwo
  rcases set_found found lookupOne with ⟨_, rfl⟩ | ⟨_, old⟩
  · rw [quiet] at asksOne
    cases asksOne
  · rcases set_found found lookupTwo with ⟨_, rfl⟩ | ⟨_, older⟩
    · rw [quiet] at asksTwo
      cases asksTwo
    · exact uncrossed v w one two different old older crossed

/-- After a step no two threads cross exactly if the step has met the condition. -/
theorem step_uncrossed {label : Nat × TreeOp} (uncrossed : Uncrossed pool)
    (stepped : step header level pool label = some after) :
    Uncrossed after ↔ Meets header pool label := by
  obtain ⟨t, op⟩ := label
  obtain ⟨thread, found, ⟨latch, asked, _, rfl⟩ | ⟨quiet, acts⟩⟩ := step_cases stepped
  · refine ⟨fun _ other _ lookup idle => ?_, fun _ => quiet_uncrossed uncrossed found rfl rfl⟩
    obtain rfl : thread = other := Option.some.inj (found.symm.trans lookup)
    rw [asked] at idle
    cases idle
  rcases quiet_act found quiet acts with ⟨next, proceeds, moved⟩ | ⟨nothing, next, silent, moved⟩
  · have inside : t < pool.threads.length := (List.getElem?_eq_some_iff.mp found).1
    have here : after.threads[t]? = some next := by
      rw [moved, List.getElem?_set_self inside]
    constructor
    · intro apart mine moving lookup _ moves u other different lookupOther
      obtain rfl : thread = mine := Option.some.inj (found.symm.trans lookup)
      obtain rfl : next = moving := Option.some.inj (proceeds.symm.trans moves)
      have there : after.threads[u]? = some other := by
        rw [moved, List.getElem?_set_ne (Ne.symm different)]
        exact lookupOther
      exact ⟨apart t u next other (Ne.symm different) here there,
        apart u t other next different there here⟩
    · intro meets v w one two different lookupOne lookupTwo
      have apart := meets thread next found quiet proceeds
      rw [moved] at lookupOne lookupTwo
      rcases set_found found lookupOne with ⟨rfl, rfl⟩ | ⟨elsewhere, old⟩
      · rcases set_found found lookupTwo with ⟨rfl, _⟩ | ⟨other, older⟩
        · exact absurd rfl different
        · exact (apart w two other older).1
      · rcases set_found found lookupTwo with ⟨rfl, rfl⟩ | ⟨_, older⟩
        · exact (apart v one elsewhere old).2
        · exact uncrossed v w one two different old older
  · refine ⟨fun _ mine moving lookup _ moves => ?_, fun _ =>
      quiet_uncrossed uncrossed found silent moved⟩
    obtain rfl : thread = mine := Option.some.inj (found.symm.trans lookup)
    rw [nothing] at moves
    cases moves

/-- Any tree whose pages lie on their levels, and threads that have not begun. -/
def Start (header : PageId) (level : PageId → Nat) (pool : Pool) : Prop :=
  (∀ pid, pid ∉ pool.deleted → Fits header level pid (pool.pages pid)) ∧ pool.rootPageId ≠ header ∧
    ∀ thread ∈ pool.threads, thread = {}

theorem start_inv (start : Start header level pool) : PoolInv header level pool ∧
    Uncrossed pool := by
  obtain ⟨fits, root, idle⟩ := start
  have first : ∀ {t : Nat} {thread : Thread}, pool.threads[t]? = some thread →
      thread = {} := fun lookup =>
    idle _ (List.mem_of_getElem? lookup)
  refine ⟨⟨fits, root, ?_, ?_, ?_⟩, ?_⟩
  · intro t thread lookup
    rw [first lookup]
    exact ⟨rfl, rfl⟩
  · intro t thread lookup _ latch member
    rw [first lookup] at member
    cases member
  · intro t u one two _ lookup _ mine member
    rw [first lookup] at member
    cases member
  · intro t u one two _ lookup _ crossed
    obtain ⟨_, _, asks, _⟩ := crossed
    rw [first lookup] at asks
    cases asks

end Circles

/-- The operations of a tree never wait for each other in a circle while no step makes two of
them cross, and a step that makes two of them cross leaves them waiting for each other. -/
theorem uncrossed_operations_never_deadlock {header : PageId} {level : PageId → Nat} {pool : Pool}
    (reached : Reachable (Start header level)
      (guarded (Meets header) (graph (step header level))) pool) :
    ¬ Deadlocked pool ∧
      ∀ label after, step header level pool label = some after →
      (¬ Deadlocked after ↔ Meets header pool label) := by
  have inv : PoolInv header level pool ∧ Uncrossed pool := by
    apply TransitionSystem.reachable_preserves _ _ _ reached
    · exact fun _ start => start_inv start
    · rintro before label next ⟨holds, uncrossed⟩ ⟨meets, stepped⟩
      exact ⟨step_inv holds stepped, (step_uncrossed uncrossed stepped).mpr meets⟩
  refine ⟨not_deadlocked inv.1 inv.2, fun label after stepped => ?_⟩
  rw [← step_uncrossed inv.2 stepped]
  constructor
  · intro calm t u remover reader different found here crossed
    exact calm (crossed_deadlocked different found here crossed)
  · exact not_deadlocked (step_inv inv.1 stepped)

/-! A root with two leaves. One thread iterates and stands on the left leaf, the other
one removes a key of the right leaf, which is then too small. -/

def twoLeaves (pid : PageId) : Page :=
  if pid = 1 then .internal [2, 3] else if pid = 2 then .leaf 3 else .leaf INVALID_PAGE_ID

def twoLevels (pid : PageId) : Nat := if pid = 1 then 1 else 0

def twoThreads : Pool where
  rootPageId := 1
  pages := twoLeaves
  threads := [{}, {}]

theorem two_threads_start : Start 0 twoLevels twoThreads := by
  refine ⟨fun pid _ => ?_, by decide, by simp [twoThreads]⟩
  show Fits 0 twoLevels pid (twoLeaves pid)
  unfold twoLeaves
  split
  · rename_i root
    simp [Fits, twoLevels, root]
  split
  · rename_i left
    simp [Fits, twoLevels, left]
  · rename_i root _
    simp [Fits, twoLevels, root]

def iteratorBegins : List (Nat × TreeOp) :=
  [(1, .call .iterate), (1, .granted), (1, .enter), (1, .granted), (1, .down 0),
    (1, .granted), (1, .letGo), (1, .stay), (1, .granted), (1, .letGo), (1, .letGo)]

def removeDescends : List (Nat × TreeOp) :=
  [(0, .call .remove), (0, .granted), (0, .enter), (0, .granted), (0, .down 1),
    (0, .granted), (0, .giveUp), (0, .drop 0), (0, .drop 0), (0, .drop 0), (0, .next),
      (0, .granted), (0, .enter), (0, .granted), (0, .down 1), (0, .granted), (0, .stay)]

def runTree (allowed : Pool → Nat × TreeOp → Bool) (ops : List (Nat × TreeOp)) : Option Pool :=
  ops.foldlM (fun pool label => if allowed pool label then step 0 twoLevels pool label
    else none) twoThreads

def leavesCross : List (Nat × TreeOp) :=
  iteratorBegins ++ removeDescends ++ [(0, .underflow), (0, .left), (1, .along)]

theorem leaves_cross_returns : (runTree (fun _ _ => true) leavesCross).isSome = true := by decide

theorem iterator_and_remove_deadlock :
    ∃ pool, Reachable (Start 0 twoLevels) (graph (step 0 twoLevels)) pool ∧ Deadlocked pool := by
  refine ⟨(runTree (fun _ _ => true) leavesCross).get leaves_cross_returns,
      ⟨_, leavesCross, two_threads_start, ?_⟩, ?_⟩
  · apply TransitionSystem.run_of_fold
    exact (Option.some_get leaves_cross_returns).symm
  · refine ⟨{ t | t < 2 }, ⟨0, by decide⟩, ?_⟩
    rintro (_ | _ | t) few
    · exact ⟨1,
        by decide, by decide, _, _, (2, .write), (2, .read), rfl, rfl, rfl, by decide, rfl, rfl⟩
    · exact ⟨0,
        by decide, by decide, _, _, (3, .read), (3, .write), rfl, rfl, rfl, by decide, rfl, rfl⟩
    · exact absurd few (by simp)

def calm (pool : Pool) (label : Nat × TreeOp) : Bool :=
  (List.range pool.threads.length).all fun u =>
    u = label.1 || (pool.threads[u]?.bind Thread.asks).isNone

theorem calm_meets {header : PageId} {pool : Pool} {label : Nat × TreeOp}
    (quiet : calm pool label = true) :
    Meets header pool label := by
  intro thread next _ _ _ u other different lookup
  have silent : other.asks = none := by
    have inside : u < pool.threads.length := (List.getElem?_eq_some_iff.mp lookup).1
    have := List.all_eq_true.mp quiet u (List.mem_range.mpr inside)
    simpa [different, lookup] using this
  constructor
  · rintro ⟨_, _, _, _, asks, _⟩
    rw [silent] at asks
    cases asks
  · rintro ⟨_, _, asks, _⟩
    rw [silent] at asks
    cases asks

/-- The leaf stays big enough, and the iterator goes on when `Remove` has left it. -/
def leavesApart : List (Nat × TreeOp) :=
  iteratorBegins ++ removeDescends ++ [(0, .stay), (0, .drop 0), (0, .drop 0), (0, .drop 0),
    (0, .next), (1, .along)]

theorem leaves_apart_returns : (runTree calm leavesApart).isSome = true := by decide

theorem leaves_apart_never_deadlock :
    ¬ Deadlocked ((runTree calm leavesApart).get leaves_apart_returns) := by
  have reached : Reachable (Start 0 twoLevels) (guarded (Meets 0) (graph (step 0 twoLevels)))
    ((runTree calm leavesApart).get leaves_apart_returns) := by
    refine ⟨_, leavesApart, two_threads_start, ?_⟩
    apply TransitionSystem.run_mono _
      (TransitionSystem.run_of_guarded_fold (Option.some_get leaves_apart_returns).symm)
    rintro before label after ⟨quiet, stepped⟩
    exact ⟨calm_meets quiet, stepped⟩
  exact (uncrossed_operations_never_deadlock reached).1

end BusTub.TreeLatches
