import BusTub.PinnedFrames
import Mathlib.Data.Set.Finite.Lemmas

/-!
Who waits for whom in the buffer pool. Threads take the latches of frames in
the order of their pages and give `bpm_latch_` back before they wait for one, so
they never wait in a circle by themselves. `FlushPage` and `FlushAllPages` keep
`bpm_latch_` while they wait for a frame, and every circle goes through them.
-/

namespace BusTub.LatchOrder

open TransitionSystem (Reachable graph guarded)
open BufferBookkeeping (PoolInv)

def conflicts : GuardKind → GuardKind → Bool
  | .read, .read => false
  | _, _ => true

def Guards (holder : Thread) (kind : GuardKind) (fid : FrameId) : Prop :=
  ∃ guard ∈ holder.guards, guard.frameId = fid ∧ conflicts kind guard.kind = true

def WaitsGuard (threads : List Thread) (t u : Nat) : Prop :=
  ∃ waiter holder guard, threads[t]? = some waiter ∧ threads[u]? = some holder ∧
    waiter.pc = .acquiring guard ∧ Guards holder guard.kind guard.frameId

section Pool
variable {Data : Type}

/-- A thread waits for a lock that another one holds: `bpm_latch_`, or the latch of
a frame, for which it asks in a guard's constructor or in a flush, and which the
other holds by a guard or in a flush. -/
inductive Waits (pool : ThreadPool Data) (t u : Nat) : Prop where
  | pool (waiter : Thread) (task : PoolSection) (found : pool.threads[t]? = some waiter)
      (waits : waiter.pc = .waiting task) (held : pool.bpmLatch = some u)
  | guard (waits : WaitsGuard pool.threads t u)
  | guardFlush (waiter holder : Thread) (guard : PageGuard) (pid : PageId)
      (rest : List (PageId × FrameId))
      (found : pool.threads[t]? = some waiter) (here : pool.threads[u]? = some holder)
      (waits : waiter.pc = .acquiring guard) (held : holder.pc = .flushing pid guard.frameId rest)
  | flushGuard (waiter holder : Thread) (pid : PageId) (fid : FrameId)
      (rest : List (PageId × FrameId))
      (found : pool.threads[t]? = some waiter) (here : pool.threads[u]? = some holder)
      (waits : waiter.pc = .flushNext pid fid rest) (held : Guards holder .write fid)
  | flushFlush (waiter holder : Thread) (pid page : PageId) (fid : FrameId)
      (rest others : List (PageId × FrameId))
      (found : pool.threads[t]? = some waiter) (here : pool.threads[u]? = some holder)
      (waits : waiter.pc = .flushNext pid fid rest) (held : holder.pc = .flushing page fid others)

/-- A non-empty set of threads, each waiting for a lock that another thread of the set holds. -/
def Deadlocked (pool : ThreadPool Data) : Prop :=
  ∃ set : Set Nat, set.Nonempty ∧ ∀ t ∈ set, ∃ u ∈ set, u ≠ t ∧ Waits pool t u

/-- How the threads behave: guards are taken in increasing page order, and a flush
is called without a guard of a page that it flushes. -/
def ordered (pool : ThreadPool Data) (label : Nat × ThreadOp Data) : Bool :=
  match label.2, pool.threads[label.1]? with
  | .call (.checkedPage _ _ pid), some thread => thread.guards.all fun guard => guard.pageId < pid
  | .call (.flushPage pid), some thread => thread.guards.all fun guard => guard.pageId ≠ pid
  | .call .flushAllPages, some thread =>
      thread.guards.all fun guard => (pool.bpm.pageTable.lookup guard.pageId).isNone
  | _, _ => true

def Behind (threads : List Thread) (fid : FrameId) (w : Nat) : Prop :=
  ∃ h holder, threads[h]? = some holder ∧ Guards holder .write fid ∧
    Relation.ReflTransGen (WaitsGuard threads) h w

/-- No thread behind the frame waits for `bpm_latch_`, and the flushing one is not there itself. -/
def Clear (threads : List Thread) (flusher : Nat) (fid : FrameId) : Prop :=
  ∀ w, Behind threads fid w → w ≠ flusher ∧ ∀ waiter task, threads[w]? = some waiter →
    waiter.pc ≠ .waiting task

/-- The steps after which a thread waits for `bpm_latch_`: every call, and the second part of
`Drop`. -/
def asksPool : ThreadOp Data → Bool
  | .call _ | .unpin => true
  | _ => false

def flushList (pool : ThreadPool Data) (thread : Thread) (op : ThreadOp Data) :
    List (PageId × FrameId) :=
  match op, thread.pc with
  | .run, .latched (.flushPage pid) =>
      match pool.bpm.pageTable.lookup pid with
      | none => []
      | some fid => [(pid, fid)]
  | .run, .latched .flushAllPages => pool.bpm.pageTable.entries.map fun entry => (entry.1, entry.2)
  | .flushed, .flushing _ _ rest => rest
  | _, _ => []

/-- A thread comes to wait for `bpm_latch_` only if no flush waits for the thread,
and for the latch of a frame that it is to flush only if the frame is clear. -/
def Careful (pool : ThreadPool Data) (label : Nat × ThreadOp Data) : Prop :=
  ∀ thread, pool.threads[label.1]? = some thread →
    (asksPool label.2 = true → ∀ (u : Nat) (flusher : Thread) pid fid rest,
      pool.threads[u]? = some flusher → flusher.pc = .flushNext pid fid rest →
        ¬ Behind pool.threads fid label.1) ∧
    (∀ pid fid rest, flushList pool thread label.2 = (pid, fid) :: rest →
      Clear pool.threads label.1 fid)

end Pool

/-! Threads that wait for guards only, each for a page above those it holds. -/

theorem no_ascent {set : Set Nat} (finite : set.Finite) (rank : Nat → Int)
    (climbs : ∀ t ∈ set, ∃ u ∈ set, rank t < rank u) : set = ∅ := by
  by_contra some
  obtain ⟨top, member, highest⟩ :=
    Set.exists_max_image set rank finite (Set.nonempty_iff_ne_empty.mpr some)
  obtain ⟨u, inside, above⟩ := climbs top member
  exact absurd (highest u inside) (Int.not_le.mpr above)

def wanted (threads : List Thread) (t : Nat) : Int :=
  match threads[t]?.map Thread.pc with
  | some (.acquiring guard) => guard.pageId
  | _ => 0

def Climbs (thread : Thread) : Prop :=
  match thread.pc with
  | .waiting (.checkedPage _ _ pid) | .latched (.checkedPage _ _ pid) =>
      ∀ guard ∈ thread.guards, guard.pageId < pid
  | .acquiring wanted => ∀ guard ∈ thread.guards, guard.pageId < wanted.pageId
  | _ => True

section Rings
variable {Data : Type} {pool : ThreadPool Data} {set : Set Nat}

theorem same_page (inv : PoolInv pool) {one two : Thread} {t u : Nat}
    (found : pool.threads[t]? = some one) (here : pool.threads[u]? = some two)
    {left right : PageGuard} (inLeft : left ∈ one.pinned) (inRight : right ∈ two.pinned)
    (same : left.frameId = right.frameId) :
    left.pageId = right.pageId := by
  have first := inv.1.guarded left (List.mem_flatMap.mpr ⟨one, List.mem_of_getElem? found, inLeft⟩)
  have second :=
    inv.1.guarded right (List.mem_flatMap.mpr ⟨two, List.mem_of_getElem? here, inRight⟩)
  rw [same] at first
  exact Option.some.inj (first.symm.trans second)

theorem held_pinned {thread : Thread} {guard : PageGuard} (held : guard ∈ thread.guards) :
    guard ∈ thread.pinned := by
  unfold Thread.pinned
  split
  · exact List.mem_cons_of_mem _ held
  · exact List.mem_cons_of_mem _ held
  · exact held

theorem no_guard_ring (inv : PoolInv pool)
    (climbs : ∀ (t : Nat) thread, pool.threads[t]? = some thread → Climbs thread)
    (waits : ∀ t ∈ set, ∃ u ∈ set, WaitsGuard pool.threads t u) : set = ∅ := by
  have finite : set.Finite := by
    apply Set.Finite.subset (Set.finite_lt_nat pool.threads.length)
    intro t member
    obtain ⟨u, _, waiter, _, _, found, _⟩ := waits t member
    exact (List.getElem?_eq_some_iff.mp found).1
  apply no_ascent finite (wanted pool.threads)
  intro t member
  obtain ⟨u, inside, waiter, holder, guard, found, here, acquires, held, owned, same, _⟩ :=
    waits t member
  refine ⟨u, inside, ?_⟩
  -- the holder waits too, for a page above the one it holds
  obtain ⟨_, _, waiter', _, next, found', _, acquires', _⟩ := waits u inside
  obtain rfl : holder = waiter' := Option.some.inj (here.symm.trans found')
  have climb := climbs u holder here
  unfold Climbs at climb
  rw [acquires'] at climb
  have above := climb held owned
  have pinned : guard ∈ waiter.pinned := by
    unfold Thread.pinned
    rw [acquires]
    exact List.mem_cons_self
  have page := same_page inv found here pinned (held_pinned owned) same.symm
  simp only [wanted, found, here, Option.map_some, acquires, acquires']
  rw [page]
  exact above

end Rings

structure LatchInv {Data : Type} (pool : ThreadPool Data) : Prop where
  climbs : ∀ (t : Nat) thread, pool.threads[t]? = some thread → Climbs thread
  holder : ∀ u, pool.bpmLatch = some u → ∃ thread, pool.threads[u]? = some thread ∧
    thread.inside = true
  clear : ∀ (u : Nat) flusher pid fid rest, pool.threads[u]? = some flusher →
    flusher.pc = .flushNext pid fid rest → Clear pool.threads u fid

section Deadlocks
variable {Data : Type} {pool : ThreadPool Data} {set : Set Nat} {t u w : Nat} {fid : FrameId}
  {flusher : Thread} {pid : PageId} {rest : List (PageId × FrameId)}

theorem one_inside (inv : PoolInv pool) {one two : Thread} (found : pool.threads[t]? = some one)
    (here : pool.threads[u]? = some two) (first : one.inside = true)
    (second : two.inside = true) : t = u :=
  Option.some.inj ((inv.2 t one found first).symm.trans (inv.2 u two here second))

theorem flushing_waits_not (found : pool.threads[t]? = some flusher)
    (flushes : flusher.pc = .flushing pid fid rest) :
    ¬ Waits pool t u := by
  rintro (⟨_, _, same, waits, _⟩ | ⟨_, _, _, same, _, waits, _⟩ |
    ⟨_, _, _, _, _, same, _, waits, _⟩ |
    ⟨_, _, _, _, _, same, _, waits, _⟩ | ⟨_, _, _, _, _, _, _, same, _, waits, _⟩)
  all_goals
    obtain rfl := Option.some.inj (found.symm.trans same)
    cases flushes.symm.trans waits

theorem latched_waits_not {thread : Thread} {task : PoolSection}
    (found : pool.threads[t]? = some thread)
    (latched : thread.pc = .latched task) : ¬ Waits pool t u := by
  rintro (⟨_, _, same, waits, _⟩ | ⟨_, _, _, same, _, waits, _⟩ |
    ⟨_, _, _, _, _, same, _, waits, _⟩ |
    ⟨_, _, _, _, _, same, _, waits, _⟩ | ⟨_, _, _, _, _, _, _, same, _, waits, _⟩)
  all_goals
    obtain rfl := Option.some.inj (found.symm.trans same)
    cases latched.symm.trans waits

/-- With a flush in the set: everybody behind its frame waits for a guard. -/
theorem no_ring_with_flush (inv : PoolInv pool) (latches : LatchInv pool)
    (waits : ∀ t ∈ set, ∃ u ∈ set, u ≠ t ∧ Waits pool t u) (member : t ∈ set)
    (found : pool.threads[t]? = some flusher)
    (asks : flusher.pc = .flushNext pid fid rest) : False := by
  have clear := latches.clear t flusher pid fid rest found asks
  have inside : flusher.inside = true := by simp [Thread.inside, asks]
  have ring : ∀ w ∈ set ∩ { w | Behind pool.threads fid w },
      ∃ v ∈ set ∩ { w | Behind pool.threads fid w }, WaitsGuard pool.threads w v := by
    rintro w ⟨present, behind⟩
    obtain ⟨v, there, _, waits'⟩ := waits w present
    obtain ⟨elsewhere, free⟩ := clear w behind
    cases waits' with
    | pool waiter task here waits' _ => exact absurd waits' (free waiter task here)
    | guard waits' =>
        obtain ⟨h, holder, first, held, path⟩ := behind
        exact ⟨v, ⟨there, h, holder, first, held, path.tail waits'⟩, waits'⟩
    | guardFlush waiter holder guard pid rest here there' _ flushes =>
        -- the flushing thread has `bpm_latch_` and would be the one that asks
        have same := one_inside inv found there' inside (by simp [Thread.inside, flushes])
        rw [← same] at there'
        obtain rfl := Option.some.inj (found.symm.trans there')
        cases asks.symm.trans flushes
    | flushGuard waiter holder pid fid rest here _ asks' _ =>
        exact absurd (one_inside inv here found (by simp [Thread.inside, asks']) inside) elsewhere
    | flushFlush waiter holder pid page fid rest others here _ asks' _ =>
        exact absurd (one_inside inv here found (by simp [Thread.inside, asks']) inside) elsewhere
  have empty := no_guard_ring inv latches.climbs ring
  obtain ⟨u, there, different, waits'⟩ := waits t member
  have behind : Behind pool.threads fid u := by
    cases waits' with
    | pool waiter task here waits' _ =>
        obtain rfl := Option.some.inj (found.symm.trans here)
        cases asks.symm.trans waits'
    | guard waits' =>
        obtain ⟨waiter, _, _, here, _, acquires, _⟩ := waits'
        obtain rfl := Option.some.inj (found.symm.trans here)
        cases asks.symm.trans acquires
    | guardFlush waiter _ _ _ _ here _ acquires _ =>
        obtain rfl := Option.some.inj (found.symm.trans here)
        cases asks.symm.trans acquires
    | flushGuard waiter holder _ _ _ here there' asks' held =>
        obtain rfl := Option.some.inj (found.symm.trans here)
        cases asks.symm.trans asks'
        exact ⟨u, holder, there', held, Relation.ReflTransGen.refl⟩
    | flushFlush waiter holder _ _ _ _ _ here there' _ flushes =>
        exact absurd (one_inside inv there' found (by simp [Thread.inside, flushes]) inside)
          different
  exact Set.notMem_empty u (empty ▸ ⟨there, behind⟩)

theorem not_deadlocked (inv : PoolInv pool) (latches : LatchInv pool) : ¬ Deadlocked pool := by
  rintro ⟨set, nonempty, waits⟩
  have noFlush (t : Nat) (member : t ∈ set) (flusher : Thread) (pid : PageId) (fid : FrameId)
    (rest : List (PageId × FrameId)) (found : pool.threads[t]? = some flusher) :
    flusher.pc ≠ .flushNext pid fid rest :=
    fun asks => no_ring_with_flush inv latches waits member found asks
  have ring : ∀ t ∈ set, ∃ u ∈ set, WaitsGuard pool.threads t u := by
    intro t member
    obtain ⟨u, there, _, waits'⟩ := waits t member
    cases waits' with
    | pool waiter task here _ held =>
        -- whoever has `bpm_latch_` and does not ask for a frame waits for nobody
        obtain ⟨holder, there', inside⟩ := latches.holder u held
        obtain ⟨_, _, _, waits'⟩ := waits u there
        unfold Thread.inside at inside
        split at inside
        · rename_i latched
          exact absurd waits' (latched_waits_not there' latched)
        · rename_i asks
          exact absurd asks (noFlush u there holder _ _ _ there')
        · rename_i flushes
          exact absurd waits' (flushing_waits_not there' flushes)
        · cases inside
    | guard waits' => exact ⟨u, there, waits'⟩
    | guardFlush _ holder _ _ _ _ there' _ flushes =>
        obtain ⟨_, _, _, waits'⟩ := waits u there
        exact absurd waits' (flushing_waits_not there' flushes)
    | flushGuard waiter _ _ _ _ here _ asks _ =>
        exact absurd asks (noFlush t member waiter _ _ _ here)
    | flushFlush waiter _ _ _ _ _ _ here _ asks _ =>
        exact absurd asks (noFlush t member waiter _ _ _ here)
  exact nonempty.ne_empty (no_guard_ring inv latches.climbs ring)

end Deadlocks

section Steps
variable {Data : Type} {pool after : ThreadPool Data} {threads : List Thread} {t u w : Nat}
  {thread next : Thread} {fid : FrameId} {label : Nat × ThreadOp Data} {op : ThreadOp Data}
  {rest : List (PageId × FrameId)} {bpm : BufferPoolManager Data} {pid : PageId}

theorem set_lookup (found : threads[t]? = some thread) (next : Thread) (u : Nat) :
    (threads.set t next)[u]? = if u = t then some next else threads[u]? := by
  have inside := (List.getElem?_eq_some_iff.mp found).1
  rw [List.getElem?_set]
  by_cases same : u = t
  · simp [same, inside]
  · simp [same, Ne.symm same]

/-- Who stands behind a frame after a thread has moved that waits for no guard then:
nobody else, but for the thread itself if it has got a new guard. -/
theorem behind_moved (found : threads[t]? = some thread)
    (quiet : ∀ guard, next.pc ≠ .acquiring guard) (behind : Behind (threads.set t next) fid w) :
    Behind threads fid w ∨ (w = t ∧ ¬ next.guards ⊆ thread.guards) := by
  -- a guard in the way was there before, or it is a new one of the thread that has moved
  have before {u : Nat} {kind : GuardKind} {frame : FrameId} {holder : Thread}
    (here : (threads.set t next)[u]? = some holder) (held : Guards holder kind frame) :
    (∃ holder, threads[u]? = some holder ∧ Guards holder kind frame) ∨
      (u = t ∧ ¬ next.guards ⊆ thread.guards) := by
    rw [set_lookup found] at here
    split at here
    · rename_i same
      obtain rfl := Option.some.inj here
      obtain ⟨guard, owned, rest⟩ := held
      by_cases old : guard ∈ thread.guards
      · exact Or.inl ⟨thread, same ▸ found, guard, old, rest⟩
      · exact Or.inr ⟨same, fun fewer => old (fewer owned)⟩
    · exact Or.inl ⟨holder, here, held⟩
  obtain ⟨h, holder, here, held, path⟩ := behind
  induction path with
  | refl =>
      rcases before here held with ⟨old, here', held'⟩ | new
      · exact Or.inl ⟨h, old, here', held', Relation.ReflTransGen.refl⟩
      · exact Or.inr new
  | @tail x y _ edge ih =>
      obtain ⟨waiter, holder', guard, waits, owns, acquires, held'⟩ := edge
      -- the thread that has moved waits for no guard, so the edge starts elsewhere
      have elsewhere : x ≠ t := by
        rintro rfl
        rw [set_lookup found, if_pos rfl] at waits
        obtain rfl := Option.some.inj waits
        exact quiet guard acquires
      rw [set_lookup found, if_neg elsewhere] at waits
      rcases before owns held' with ⟨old, owns', held''⟩ | new
      · rcases ih with ⟨first, record, found', held₀, path⟩ | ⟨same, _⟩
        · exact Or.inl ⟨first, record, found', held₀,
            path.tail ⟨waiter, old, guard, waits, owns', acquires, held''⟩⟩
        · exact absurd same elsewhere
      · exact Or.inr new

theorem clear_moved {flusher : Nat} (found : threads[t]? = some thread)
    (clear : Clear threads flusher fid) (quiet : ∀ guard, next.pc ≠ .acquiring guard)
    (apart : next.guards ⊆ thread.guards ∨ t ≠ flusher) (free : (∀ task, next.pc ≠ .waiting task) ∨
      (next.guards ⊆ thread.guards ∧ ¬ Behind threads fid t)) :
    Clear (threads.set t next) flusher fid := by
  intro w behind
  have moved := behind_moved found quiet behind
  constructor
  · rcases moved with before | ⟨rfl, more⟩
    · exact (clear w before).1
    · exact apart.resolve_left more
  · intro waiter task here
    rw [set_lookup found] at here
    split at here
    · rename_i same
      obtain rfl := Option.some.inj here
      rcases free with never | ⟨fewer, nobody⟩
      · exact never task
      · rcases moved with before | ⟨_, more⟩
        · exact absurd (same ▸ before) nobody
        · exact absurd fewer more
    · rename_i different
      rcases moved with before | ⟨same, _⟩
      · exact (clear w before).2 waiter task here
      · exact absurd same different

theorem climbs_moved (found : threads[t]? = some thread)
    (climbs : ∀ (u : Nat) thread, threads[u]? = some thread → Climbs thread) (climb : Climbs next)
    (u : Nat)
    (record : Thread) (here : (threads.set t next)[u]? = some record) : Climbs record := by
  rw [set_lookup found] at here
  split at here
  · exact Option.some.inj here ▸ climb
  · exact climbs u record here

theorem moved_latches (inv : PoolInv after) (latches : LatchInv pool)
    (found : pool.threads[t]? = some thread) (threads : after.threads = pool.threads.set t next)
    (climb : Climbs next) (holder : ∀ u, after.bpmLatch = some u → (u = t ∧ next.inside = true) ∨
      (u ≠ t ∧ pool.bpmLatch = some u))
    (quiet : (∃ guard, next.pc = .acquiring guard) → after.bpmLatch = none)
    (own : ∀ pid fid rest, next.pc = .flushNext pid fid rest → next.guards ⊆ thread.guards ∧
      Clear pool.threads t fid)
    (others : ∀ (u : Nat) flusher pid fid rest, pool.threads[u]? = some flusher →
      flusher.pc = .flushNext pid fid rest → u ≠ t →
      (∀ task, next.pc ≠ .waiting task) ∨
      (next.guards ⊆ thread.guards ∧ ¬ Behind pool.threads fid t)) :
    LatchInv after := by
  refine ⟨?_, ?_, ?_⟩
  · rw [threads]
    exact climbs_moved found latches.climbs climb
  · intro u held
    rw [threads]
    rcases holder u held with ⟨rfl, inside⟩ | ⟨different, held'⟩
    · exact ⟨next, by rw [set_lookup found, if_pos rfl], inside⟩
    · obtain ⟨record, here, inside⟩ := latches.holder u held'
      exact ⟨record, by rw [set_lookup found, if_neg different, here], inside⟩
  · intro u flusher pid fid rest here asks
    have held := inv.2 u flusher here (by simp [Thread.inside, asks])
    have noGuard (guard : PageGuard) : next.pc ≠ .acquiring guard := by
      intro acquires
      cases (quiet ⟨guard, acquires⟩).symm.trans held
    rw [threads] at here ⊢
    rw [set_lookup found] at here
    split at here
    · rename_i same
      subst same
      obtain rfl := Option.some.inj here
      obtain ⟨fewer, clear⟩ := own pid fid rest asks
      exact clear_moved found clear noGuard (Or.inl fewer)
        (Or.inl fun task waits => by cases asks.symm.trans waits)
    · rename_i different
      exact clear_moved found (latches.clear u flusher pid fid rest here asks) noGuard
        (Or.inr (Ne.symm different))
        (others u flusher pid fid rest here asks different)

/-- A section ends or goes on to the next page that is to be flushed. -/
theorem flush_rest_latches (inv : PoolInv (pool.flushRest t thread bpm rest))
    (latches : LatchInv pool) (found : pool.threads[t]? = some thread)
    (mine : pool.bpmLatch = some t)
    (clear : ∀ pid fid others, rest = (pid, fid) :: others → Clear pool.threads t fid) :
    LatchInv (pool.flushRest t thread bpm rest) := by
  cases rest with
  | nil =>
      refine moved_latches inv latches found rfl trivial (by rintro u ⟨⟩) (fun _ => rfl) ?_ ?_
      · rintro pid fid rest ⟨⟩
      · exact fun _ _ _ _ _ _ _ _ => Or.inl fun task => by rintro ⟨⟩
  | cons first rest =>
      obtain ⟨pid, fid⟩ := first
      refine moved_latches inv latches found rfl trivial ?_ (by rintro ⟨guard, ⟨⟩⟩) ?_ ?_
      · intro u held
        exact Or.inl ⟨Option.some.inj (held.symm.trans mine), rfl⟩
      · rintro page frame others ⟨⟩
        exact ⟨List.Subset.refl _, clear pid fid rest rfl⟩
      · exact fun _ _ _ _ _ _ _ _ => Or.inl fun task => by rintro ⟨⟩

def Foreign (thread : Thread) : Prop :=
  match thread.pc with
  | .waiting (.flushPage pid) | .latched (.flushPage pid) =>
      ∀ guard ∈ thread.guards, guard.pageId ≠ pid
  | .waiting .flushAllPages | .latched .flushAllPages => thread.guards = []
  | .flushNext _ fid rest | .flushing _ fid rest => ∀ guard ∈ thread.guards,
      guard.frameId ≠ fid ∧ ∀ next ∈ rest, guard.frameId ≠ next.2
  | _ => True

/-- The next page of a flush is as foreign as the pages before it. -/
theorem foreign_rest (bpm : BufferPoolManager Data) (rest : List (PageId × FrameId))
    (foreign : ∀ guard ∈ thread.guards, ∀ next ∈ rest, guard.frameId ≠ next.2) :
    ∃ next, (pool.flushRest t thread bpm rest).threads = pool.threads.set t next ∧
      Foreign next := by
  cases rest with
  | nil => exact ⟨_, rfl, trivial⟩
  | cons first rest =>
      refine ⟨_, rfl, fun guard held =>
        ⟨foreign guard held first List.mem_cons_self, fun next member => ?_⟩⟩
      exact foreign guard held next (List.mem_cons_of_mem _ member)

theorem waits_other (inv : PoolInv pool) (latches : LatchInv pool)
    (waits : WaitsGuard pool.threads t u) : u ≠ t := by
  rintro rfl
  obtain ⟨waiter, holder, guard, found, here, acquires, held, owned, same, _⟩ := waits
  obtain rfl := Option.some.inj (found.symm.trans here)
  have climb := latches.climbs u waiter found
  unfold Climbs at climb
  rw [acquires] at climb
  have pinned : guard ∈ waiter.pinned := by
    unfold Thread.pinned
    rw [acquires]
    exact List.mem_cons_self
  exact absurd (same_page inv found found (held_pinned owned) pinned same)
    (Int.ne_of_lt (climb held owned))

/-- A flush that waits for a frame is in a deadlock with the threads behind it as
soon as one of them waits for `bpm_latch_` or is the flushing one. -/
theorem flush_deadlocks (inv : PoolInv pool) (latches : ∀ x y, WaitsGuard pool.threads x y → y ≠ x)
    {flusher : Thread} (found : pool.threads[u]? = some flusher)
    (asks : flusher.pc = .flushNext pid fid rest) (foreign : Foreign flusher)
    (behind : Behind pool.threads fid w)
    (closes : w = u ∨ ∃ waiter task, pool.threads[w]? = some waiter ∧ waiter.pc = .waiting task) :
    Deadlocked pool := by
  have held := inv.2 u flusher found (by simp [Thread.inside, asks])
  obtain ⟨h, holder, here, inWay, path⟩ := behind
  refine ⟨{ x | x = u ∨ Relation.ReflTransGen (WaitsGuard pool.threads) x w }, ⟨u, Or.inl rfl⟩, ?_⟩
  have first : ∃ v, (v = u ∨ Relation.ReflTransGen (WaitsGuard pool.threads) v w) ∧ v ≠ u ∧
      Waits pool u v := by
    refine ⟨h, Or.inr path, ?_, Waits.flushGuard flusher holder pid fid rest found here asks inWay⟩
    rintro rfl
    obtain rfl := Option.some.inj (found.symm.trans here)
    obtain ⟨guard, owned, same, _⟩ := inWay
    unfold Foreign at foreign
    rw [asks] at foreign
    exact (foreign guard owned).1 same
  rintro x (rfl | towards)
  · exact first
  · by_cases same : x = u
    · exact same ▸ first
    · rcases towards.cases_head with rfl | ⟨y, edge, onward⟩
      · obtain ⟨waiter, task, there, waits⟩ := closes.resolve_left same
        exact ⟨u, Or.inl rfl, Ne.symm same, Waits.pool waiter task there waits held⟩
      · exact ⟨y, Or.inr onward, latches x y edge, Waits.guard edge⟩

/-- The waits for guards stay when a thread that has no part in them moves. -/
theorem waits_guard_kept {x y : Nat} (found : threads[t]? = some thread)
    (guards : next.guards = thread.guards) (calm : ∀ guard, thread.pc ≠ .acquiring guard)
    (waits : WaitsGuard threads x y) :
    WaitsGuard (threads.set t next) x y := by
  obtain ⟨waiter, holder, guard, here, there, acquires, owns⟩ := waits
  have elsewhere : x ≠ t := by
    rintro rfl
    obtain rfl := Option.some.inj (found.symm.trans here)
    exact calm guard acquires
  have waiter' : (threads.set t next)[x]? = some waiter := by
    rw [set_lookup found, if_neg elsewhere, here]
  by_cases same : y = t
  · subst same
    obtain rfl := Option.some.inj (found.symm.trans there)
    have holder' : (threads.set y next)[y]? = some next := by rw [set_lookup found, if_pos rfl]
    obtain ⟨other, owned, rest⟩ := owns
    exact ⟨waiter, next, guard, waiter', holder', acquires, other, guards ▸ owned, rest⟩
  · have holder' : (threads.set t next)[y]? = some holder := by
      rw [set_lookup found, if_neg same, there]
    exact ⟨waiter, holder, guard, waiter', holder', acquires, owns⟩

theorem behind_kept (found : threads[t]? = some thread) (guards : next.guards = thread.guards)
    (calm : ∀ guard, thread.pc ≠ .acquiring guard) (behind : Behind threads fid w) :
    Behind (threads.set t next) fid w := by
  obtain ⟨h, holder, here, owns, path⟩ := behind
  have path' : Relation.ReflTransGen (WaitsGuard (threads.set t next)) h w := by
    apply path.lift id
    intro x y waits
    exact waits_guard_kept found guards calm waits
  by_cases same : h = t
  · subst same
    obtain rfl := Option.some.inj (found.symm.trans here)
    obtain ⟨guard, owned, rest⟩ := owns
    exact ⟨h, next, by rw [set_lookup found, if_pos rfl], ⟨guard, guards ▸ owned, rest⟩, path'⟩
  · exact ⟨h, holder, by rw [set_lookup found, if_neg same, here], owns, path'⟩

/-- Where a step that is not careful has taken its thread there is a deadlock. -/
theorem moved_deadlocks (inv : PoolInv after)
    (foreign : ∀ (u : Nat) thread, after.threads[u]? = some thread → Foreign thread)
    (others : ∀ x y, WaitsGuard pool.threads x y → y ≠ x) (found : pool.threads[t]? = some thread)
    (same : after.threads = pool.threads.set t next) (guards : next.guards = thread.guards)
    (calm : ∀ guard, thread.pc ≠ .acquiring guard ∧ next.pc ≠ .acquiring guard) :
    (∀ task flusher, next.pc = .waiting task → u ≠ t → pool.threads[u]? = some flusher →
      flusher.pc = .flushNext pid fid rest → Behind pool.threads fid t → Deadlocked after) ∧
    (next.pc = .flushNext pid fid rest → ¬ Clear pool.threads t fid → Deadlocked after) := by
  have moved : after.threads[t]? = some next := by rw [same, set_lookup found, if_pos rfl]
  have apart (x y : Nat) (waits : WaitsGuard after.threads x y) : y ≠ x := by
    rintro rfl
    obtain ⟨waiter, holder, guard, here, there, acquires, owns⟩ := waits
    obtain rfl := Option.some.inj (here.symm.trans there)
    by_cases hit : y = t
    · subst hit
      obtain rfl := Option.some.inj (moved.symm.trans here)
      exact (calm guard).2 acquires
    · rw [same, set_lookup found, if_neg hit] at here
      exact others y y ⟨waiter, waiter, guard, here, here, acquires, owns⟩ rfl
  have kept {w : Nat} (behind : Behind pool.threads fid w) : Behind after.threads fid w := by
    rw [same]
    exact behind_kept found guards (fun guard => (calm guard).1) behind
  constructor
  · intro task flusher waits different here asks behind
    have here' : after.threads[u]? = some flusher := by
      rw [same, set_lookup found, if_neg different, here]
    exact flush_deadlocks inv apart here' asks (foreign u flusher here') (kept behind)
      (Or.inr ⟨next, task, moved, waits⟩)
  · intro asks unclear
    unfold Clear at unclear
    push Not at unclear
    obtain ⟨w, behind, closes⟩ := unclear
    refine flush_deadlocks inv apart moved asks (foreign t next moved) (kept behind) ?_
    by_cases own : w = t
    · exact Or.inl own
    · obtain ⟨waiter, task, here, waits⟩ := closes own
      exact Or.inr ⟨waiter, task, by rw [same, set_lookup found, if_neg own, here], waits⟩

variable [Zero Data]

theorem step_latches (inv : PoolInv pool) (latches : LatchInv pool)
    (orderly : ordered pool label = true) (careful : Careful pool label)
    (stepped : pool.step label = some after) : LatchInv after := by
  have inv' := BufferBookkeeping.step_inv inv stepped
  obtain ⟨t, op⟩ := label
  obtain ⟨thread, found, move⟩ := ThreadPool.step_moves stepped
  -- a thread that has not got `bpm_latch_` leaves it with whoever has
  have elsewhere (outside : thread.inside = false) (u : Nat) (held : pool.bpmLatch = some u) :
      u ≠ t ∧ pool.bpmLatch = some u := by
    refine ⟨?_, held⟩
    rintro rfl
    obtain ⟨record, here, inside⟩ := latches.holder u held
    obtain rfl := Option.some.inj (found.symm.trans here)
    cases outside.symm.trans inside
  cases move with
  | call task idle may =>
      have climb : Climbs { thread with pc := .waiting task } := by
        cases task with
        | checkedPage kind name pid =>
            intro guard held
            simp only [ordered, found] at orderly
            simpa using List.all_eq_true.mp orderly guard held
        | _ => trivial
      refine moved_latches inv' latches found rfl climb ?_ (by rintro ⟨guard, ⟨⟩⟩)
        (by rintro pid fid rest ⟨⟩) ?_
      · exact fun u held => Or.inr (elsewhere (by simp [Thread.inside, idle]) u held)
      · intro u flusher pid fid rest here asks _
        exact Or.inr ⟨List.Subset.refl _,
          (careful thread found).1 rfl u flusher pid fid rest here asks⟩
  | enter task waits free =>
      have climb : Climbs { thread with pc := .latched task } := by
        have before := latches.climbs t thread found
        unfold Climbs at before ⊢
        rw [waits] at before
        cases task <;> exact before
      refine moved_latches inv' latches found rfl climb ?_ (by rintro ⟨guard, ⟨⟩⟩)
        (by rintro pid fid rest ⟨⟩) ?_
      · exact fun u held => Or.inl ⟨(Option.some.inj held).symm, rfl⟩
      · exact fun _ _ _ _ _ _ _ _ => Or.inl fun task => by rintro ⟨⟩
  | run task after latched ran =>
      have mine := inv.2 t thread found (by simp [Thread.inside, latched])
      have left {bpm : BufferPoolManager Data} {pc : ThreadPc}
        (inv' : PoolInv (pool.leave t thread bpm pc))
        (climb : Climbs { thread with pc := pc })
        (stops : (∀ task, pc ≠ .waiting task) ∧ ∀ pid fid rest, pc ≠ .flushNext pid fid rest) :
        LatchInv (pool.leave t thread bpm pc) := by
        refine moved_latches inv' latches found rfl climb (by rintro u ⟨⟩) (fun _ => rfl) ?_ ?_
        · exact fun pid fid rest asks => absurd asks (stops.2 pid fid rest)
        · exact fun _ _ _ _ _ _ _ _ => Or.inl stops.1
      cases task with
      | newPage =>
          obtain rfl := Option.some.inj ran
          exact left inv' trivial ⟨fun _ => by rintro ⟨⟩, fun _ _ _ => by rintro ⟨⟩⟩
      | deletePage pid =>
          obtain ⟨result, _, rfl⟩ := Option.map_eq_some_iff.mp ran
          exact left inv' trivial ⟨fun _ => by rintro ⟨⟩, fun _ _ _ => by rintro ⟨⟩⟩
      | checkedPage kind name pid =>
          obtain ⟨answer, bpm, pinned⟩ : ∃ answer bpm, pool.bpm.pinPage pid = (answer, bpm) :=
            ⟨_, _, rfl⟩
          simp only [ThreadPool.runSection, pinned] at ran
          have before := latches.climbs t thread found
          unfold Climbs at before
          rw [latched] at before
          cases answer with
          | none =>
              obtain rfl := Option.some.inj ran
              exact left inv' trivial ⟨fun _ => by rintro ⟨⟩, fun _ _ _ => by rintro ⟨⟩⟩
          | some fid =>
              obtain rfl := Option.some.inj ran
              exact left inv' before ⟨fun _ => by rintro ⟨⟩, fun _ _ _ => by rintro ⟨⟩⟩
      | flushPage pid =>
          obtain rfl := Option.some.inj ran
          apply flush_rest_latches inv' latches found mine
          intro page frame others same
          exact (careful thread found).2 page frame others
            (by simp only [flushList, latched]; exact same)
      | flushAllPages =>
          obtain rfl := Option.some.inj ran
          apply flush_rest_latches inv' latches found mine
          intro page frame others same
          exact (careful thread found).2 page frame others
            (by simp only [flushList, latched]; exact same)
      | settle fid =>
          obtain rfl := Option.some.inj ran
          exact left inv' trivial ⟨fun _ => by rintro ⟨⟩, fun _ _ _ => by rintro ⟨⟩⟩
  | latch guard bpm acquires locked =>
      refine moved_latches inv' latches found rfl trivial ?_ (by rintro ⟨guard, ⟨⟩⟩)
        (by rintro pid fid rest ⟨⟩) ?_
      · exact fun u held => Or.inr (elsewhere (by simp [Thread.inside, acquires]) u held)
      · exact fun _ _ _ _ _ _ _ _ => Or.inl fun task => by rintro ⟨⟩
  | latchFlush pid fid rest latch asks locked =>
      refine moved_latches inv' latches found rfl trivial ?_ (by rintro ⟨guard, ⟨⟩⟩)
        (by rintro pid fid rest ⟨⟩) ?_
      · intro u held
        exact Or.inl
          ⟨Option.some.inj (held.symm.trans (inv.2 t thread found (by simp [Thread.inside, asks]))),
          rfl⟩
      · exact fun _ _ _ _ _ _ _ _ => Or.inl fun task => by rintro ⟨⟩
  | flushed pid fid rest flushes =>
      have mine := inv.2 t thread found (by simp [Thread.inside, flushes])
      apply flush_rest_latches inv' latches found mine
      intro page frame others same
      exact (careful thread found).2 page frame others
        (by simp only [flushList, flushes]; exact same)
  | write name data guard idle owned => exact ⟨latches.climbs, latches.holder, latches.clear⟩
  | guardFlush name guard idle owned => exact ⟨latches.climbs, latches.holder, latches.clear⟩
  | drop name guard idle owned =>
      refine moved_latches inv' latches found rfl trivial ?_ (by rintro ⟨guard, ⟨⟩⟩)
        (by rintro pid fid rest ⟨⟩) ?_
      · exact fun u held => Or.inr (elsewhere (by simp [Thread.inside, idle]) u held)
      · exact fun _ _ _ _ _ _ _ _ => Or.inl fun task => by rintro ⟨⟩
  | unpin guard unpins =>
      refine moved_latches inv' latches found rfl trivial ?_ (by rintro ⟨guard, ⟨⟩⟩)
        (by rintro pid fid rest ⟨⟩) ?_
      · exact fun u held => Or.inr (elsewhere (by simp [Thread.inside, unpins]) u held)
      · intro u flusher pid fid rest here asks _
        exact Or.inr ⟨List.Subset.refl _,
          (careful thread found).1 rfl u flusher pid fid rest here asks⟩

theorem start_latches (numFrames : Nat) (disk : DiskManager Data) (threads : Nat) :
    LatchInv (ThreadPool.start numFrames disk threads) := by
  have idle (t : Nat) (thread : Thread)
    (found : (ThreadPool.start numFrames disk threads).threads[t]? = some thread) : thread = {} :=
    (List.mem_replicate.mp (List.mem_of_getElem? found)).2
  refine ⟨?_, by rintro u ⟨⟩, ?_⟩
  · intro t thread found
    rw [idle t thread found]
    trivial
  · intro t thread pid fid rest found asks
    rw [idle t thread found] at asks
    cases asks

/-- The states that threads reach that keep to the order of the pages, each step
of which meets a further condition. -/
def OrderlyReached (Condition : ThreadPool Data → Nat × ThreadOp Data → Prop) (numFrames : Nat)
    (disk : DiskManager Data) (threads : Nat) : ThreadPool Data → Prop :=
  Reachable (· = ThreadPool.start numFrames disk threads)
    (guarded (fun pool label => ordered pool label = true ∧ Condition pool label)
      (graph ThreadPool.step))

theorem step_foreign (inv : PoolInv pool)
    (foreign : ∀ (t : Nat) thread, pool.threads[t]? = some thread → Foreign thread)
    (orderly : ordered pool label = true) (stepped : pool.step label = some after) :
    ∀ (t : Nat) thread, after.threads[t]? = some thread → Foreign thread := by
  obtain ⟨t, op⟩ := label
  obtain ⟨thread, found, move⟩ := ThreadPool.step_moves stepped
  have mine := foreign t thread found
  have mapped (guard : PageGuard) (held : guard ∈ thread.guards) :
      pool.bpm.frameToPage.lookup guard.frameId = some guard.pageId :=
    inv.1.guarded guard
      (List.mem_flatMap.mpr ⟨thread, List.mem_of_getElem? found, held_pinned held⟩)
  have suffices' {next : Thread} (same : after.threads = pool.threads.set t next)
    (now : Foreign next) (u : Nat)
    (record : Thread) (here : after.threads[u]? = some record) : Foreign record := by
    rw [same, set_lookup found] at here
    split at here
    · exact Option.some.inj here ▸ now
    · exact foreign u record here
  cases move with
  | call task idle may =>
      refine suffices' rfl ?_
      cases task with
      | flushPage pid =>
          intro guard held
          simp only [ordered, found] at orderly
          simpa using List.all_eq_true.mp orderly guard held
      | flushAllPages =>
          simp only [ordered, found] at orderly
          -- a guard's page is in the table, so there is no guard
          refine List.eq_nil_iff_forall_not_mem.mpr fun guard held => ?_
          have unmapped := List.all_eq_true.mp orderly guard held
          rw [(inv.1.inverse _ _).mpr (mapped guard held)] at unmapped
          cases unmapped
      | _ => trivial
  | enter task waits free =>
      refine suffices' rfl ?_
      unfold Foreign at mine ⊢
      rw [waits] at mine
      cases task <;> exact mine
  | run task after latched ran =>
      unfold Foreign at mine
      rw [latched] at mine
      cases task with
      | newPage =>
          obtain rfl := Option.some.inj ran
          exact suffices' rfl trivial
      | deletePage pid =>
          obtain ⟨result, _, rfl⟩ := Option.map_eq_some_iff.mp ran
          exact suffices' rfl trivial
      | checkedPage kind name pid =>
          obtain ⟨answer, bpm, pinned⟩ : ∃ answer bpm, pool.bpm.pinPage pid = (answer, bpm) :=
            ⟨_, _, rfl⟩
          simp only [ThreadPool.runSection, pinned] at ran
          cases answer with
          | none =>
              obtain rfl := Option.some.inj ran
              exact suffices' rfl trivial
          | some fid =>
              obtain rfl := Option.some.inj ran
              exact suffices' rfl trivial
      | flushPage pid =>
          obtain rfl := Option.some.inj ran
          obtain ⟨next, same, now⟩ :=
            foreign_rest pool.bpm (match pool.bpm.pageTable.lookup pid with
              | none => []
              | some fid => [(pid, fid)]) (by
                intro guard held next member here
                cases table : pool.bpm.pageTable.lookup pid with
                | none => simp [table] at member
                | some fid =>
                    simp only [table, List.mem_singleton] at member
                    subst member
                    have page := mapped guard held
                    rw [here, (inv.1.inverse _ _).mp table] at page
                    exact mine guard held (Option.some.inj page).symm)
          exact suffices' same now
      | flushAllPages =>
          obtain rfl := Option.some.inj ran
          have bare : thread.guards = [] := mine
          obtain ⟨next, same, now⟩ := foreign_rest pool.bpm
            (pool.bpm.pageTable.entries.map fun entry => (entry.1, entry.2)) fun guard held => by
              rw [bare] at held
              cases held
          exact suffices' same now
      | settle fid =>
          obtain rfl := Option.some.inj ran
          exact suffices' rfl trivial
  | flushed pid fid rest flushes =>
      unfold Foreign at mine
      rw [flushes] at mine
      obtain ⟨next, same, now⟩ := foreign_rest _ rest fun guard held => (mine guard held).2
      exact suffices' same now
  | latchFlush pid fid rest latch asks locked =>
      refine suffices' rfl ?_
      unfold Foreign at mine ⊢
      rw [asks] at mine
      exact mine
  | latch guard bpm acquires locked => exact suffices' rfl trivial
  | write name data guard idle owned => exact foreign
  | guardFlush name guard idle owned => exact foreign
  | drop name guard idle owned => exact suffices' rfl trivial
  | unpin guard unpins => exact suffices' rfl trivial

theorem careless_wait (inv : PoolInv pool) (latches : LatchInv pool)
    (foreign : ∀ (u : Nat) thread, after.threads[u]? = some thread → Foreign thread)
    (found : pool.threads[t]? = some thread) (stepped : pool.step (t, op) = some after)
    (task : PoolSection)
    (same : after.threads = pool.threads.set t { thread with pc := .waiting task })
    (calm : ∀ guard, thread.pc ≠ .acquiring guard) (elsewhere : ∀ pid fid rest,
      thread.pc ≠ .flushNext pid fid rest)
    (nothing : flushList pool thread op = []) (careless : ¬ Careful pool (t, op)) :
    Deadlocked after := by
  have inv' := BufferBookkeeping.step_inv inv stepped
  by_contra free
  apply careless
  intro record here
  obtain rfl := Option.some.inj (found.symm.trans here)
  constructor
  · intro _ u flusher pid fid rest there asks behind
    have different : u ≠ t := by
      rintro rfl
      obtain rfl := Option.some.inj (found.symm.trans there)
      exact elsewhere pid fid rest asks
    have quiet (guard : PageGuard) : thread.pc ≠ .acquiring guard ∧
        ThreadPc.waiting task ≠ .acquiring guard :=
      ⟨calm guard, by rintro ⟨⟩⟩
    have others (x y : Nat) (waits : WaitsGuard pool.threads x y) : y ≠ x :=
      waits_other inv latches waits
    exact free
      ((moved_deadlocks inv' foreign others found same rfl quiet).1 task flusher rfl
      different there asks
      behind)
  · intro pid fid rest more
    cases nothing.symm.trans more

theorem careless_rest (inv : PoolInv pool) (latches : LatchInv pool)
    (foreign : ∀ (u : Nat) record, (pool.flushRest t thread bpm rest).threads[u]? = some record →
      Foreign record)
    (found : pool.threads[t]? = some thread) (calm : ∀ guard, thread.pc ≠ .acquiring guard)
    (stepped : pool.step (t, op) = some (pool.flushRest t thread bpm rest))
    (asksNot : asksPool op = false)
    (pages : flushList pool thread op = rest) (careless : ¬ Careful pool (t, op)) :
    Deadlocked (pool.flushRest t thread bpm rest) := by
  have inv' := BufferBookkeeping.step_inv inv stepped
  by_contra free
  apply careless
  intro record here
  obtain rfl := Option.some.inj (found.symm.trans here)
  constructor
  · intro asks
    cases asksNot.symm.trans asks
  · intro pid fid others more
    obtain rfl := pages.symm.trans more
    by_contra unclear
    have quiet (guard : PageGuard) :
        thread.pc ≠ .acquiring guard ∧ ThreadPc.flushNext pid fid others ≠ .acquiring guard :=
      ⟨calm guard, by rintro ⟨⟩⟩
    have others (x y : Nat) (waits : WaitsGuard pool.threads x y) : y ≠ x :=
      waits_other inv latches waits
    exact free ((moved_deadlocks (u := t) inv' foreign others found rfl rfl quiet).2 rfl unclear)

/-- The care is needed: a step without it leads into a deadlock. -/
theorem careless_step_deadlocks (inv : PoolInv pool) (latches : LatchInv pool)
    (foreign : ∀ (u : Nat) thread, pool.threads[u]? = some thread → Foreign thread)
    (orderly : ordered pool label = true) (stepped : pool.step label = some after)
    (careless : ¬ Careful pool label) : Deadlocked after := by
  have foreign' := step_foreign inv foreign orderly stepped
  obtain ⟨t, op⟩ := label
  obtain ⟨thread, found, move⟩ := ThreadPool.step_moves stepped
  -- any other step is careful
  have harmless (asksNot : asksPool op = false) (nothing : flushList pool thread op = []) :
      Deadlocked after := by
    refine absurd (fun record here => ?_) careless
    obtain rfl := Option.some.inj (found.symm.trans here)
    refine ⟨fun asks => ?_, fun _ _ _ more => ?_⟩
    · cases asksNot.symm.trans asks
    · cases nothing.symm.trans more
  cases move with
  | call task idle may =>
      exact careless_wait inv latches foreign' found stepped task rfl (by simp [idle])
        (by simp [idle]) rfl careless
  | unpin guard unpins =>
      exact careless_wait inv latches foreign' found stepped _ rfl (by simp [unpins])
        (by simp [unpins]) rfl careless
  | flushed pid fid rest flushes =>
      apply careless_rest inv latches foreign' found (by simp [flushes]) stepped rfl _ careless
      simp only [flushList, flushes]
  | run task after latched ran =>
      cases task with
      | flushPage pid =>
          obtain rfl := Option.some.inj ran
          apply careless_rest inv latches foreign' found (by simp [latched]) stepped rfl _ careless
          cases table : pool.bpm.pageTable.lookup pid <;> simp [flushList, latched, table]
      | flushAllPages =>
          obtain rfl := Option.some.inj ran
          apply careless_rest inv latches foreign' found (by simp [latched]) stepped rfl _ careless
          simp only [flushList, latched]
      | _ => exact harmless rfl (by simp only [flushList, latched])
  | enter task waits free => exact harmless rfl rfl
  | latch guard bpm acquires locked => exact harmless rfl rfl
  | latchFlush pid fid rest latch asks locked => exact harmless rfl rfl
  | drop name guard idle owned => exact harmless rfl rfl
  | write name data guard idle owned => exact harmless rfl rfl
  | guardFlush name guard idle owned => exact harmless rfl rfl

theorem orderly_inv {numFrames number : Nat} {disk : DiskManager Data}
    (reached : OrderlyReached Careful numFrames disk number pool) :
    (PoolInv pool ∧ LatchInv pool) ∧ ∀ (u : Nat) thread, pool.threads[u]? = some thread →
      Foreign thread := by
  apply TransitionSystem.reachable_preserves (fun pool => (PoolInv pool ∧ LatchInv pool) ∧
    ∀ (u : Nat) thread, pool.threads[u]? = some thread → Foreign thread) _ _ reached
  · rintro _ rfl
    refine ⟨⟨BufferBookkeeping.start_inv numFrames disk number,
      start_latches numFrames disk number⟩, ?_⟩
    intro u thread found
    obtain rfl : thread = {} := (List.mem_replicate.mp (List.mem_of_getElem? found)).2
    trivial
  · rintro before label after ⟨⟨inv, latches⟩, foreign⟩ ⟨⟨orderly, careful⟩, stepped⟩
    exact ⟨⟨BufferBookkeeping.step_inv inv stepped,
        step_latches inv latches orderly careful stepped⟩, step_foreign inv foreign orderly stepped⟩

/-- Threads that take their pages in order never deadlock as long as every step is
careful, and they do with the first step that is not. -/
theorem careful_threads_never_deadlock {numFrames number : Nat} {disk : DiskManager Data}
    (reached : OrderlyReached Careful numFrames disk number pool) :
    ¬ Deadlocked pool ∧ ∀ label after, ordered pool label = true → pool.step label = some after →
      (Deadlocked after ↔ ¬ Careful pool label) := by
  obtain ⟨⟨inv, latches⟩, foreign⟩ := orderly_inv reached
  refine ⟨not_deadlocked inv latches, ?_⟩
  intro label after orderly stepped
  constructor
  · intro deadlocked careful
    have inv' := BufferBookkeeping.step_inv inv stepped
    exact not_deadlocked inv' (step_latches inv latches orderly careful stepped) deadlocked
  · exact careless_step_deadlocks inv latches foreign orderly stepped

end Steps

/-! One frame and two threads: the first has the write guard of page 0, the second
flushes page 0 and waits for it, and then the first asks for page 1. -/

/-- A run of two threads, or none when a step is not one of those allowed. -/
def twoThreads (allowed : ThreadPool Nat → Nat × ThreadOp Nat → Bool)
    (ops : List (Nat × ThreadOp Nat)) :
    Option (ThreadPool Nat) :=
  ops.foldlM (fun pool label => if allowed pool label then pool.step label else none)
    (ThreadPool.start 1 (DiskManager.new fun _ => 0) 2)

def flushWaits : List (Nat × ThreadOp Nat) :=
  [(0, .call (.checkedPage .write 0 0)), (0, .enter), (0, .run), (0, .latch),
    (1, .call (.flushPage 0)), (1, .enter), (1, .run), (0, .call (.checkedPage .read 1 1))]

theorem flush_waits_returns : (twoThreads ordered flushWaits).isSome = true := by decide

/-- The thread with the guard waits for `bpm_latch_`, and whoever flushes waits for the guard. -/
theorem flush_deadlock_reached :
    ∃ pool, OrderlyReached (fun _ _ => True) 1 (DiskManager.new fun _ => (0 : Nat)) 2 pool ∧
      Deadlocked pool := by
  refine ⟨(twoThreads ordered flushWaits).get flush_waits_returns, ?_, { t | t < 2 },
    ⟨0, by decide⟩, ?_⟩
  · refine ⟨_, flushWaits, rfl, ?_⟩
    apply TransitionSystem.run_mono _
      (TransitionSystem.run_of_guarded_fold (Option.some_get flush_waits_returns).symm)
    rintro before label after ⟨orderly, stepped⟩
    exact ⟨⟨orderly, trivial⟩, stepped⟩
  · rintro (_ | _ | t) few
    · exact ⟨1, by decide, by decide, Waits.pool _ _ rfl rfl rfl⟩
    · refine ⟨0, by decide, by decide, Waits.flushGuard _ _ _ _ _ rfl rfl rfl ?_⟩
      exact ⟨_, List.mem_cons_self, rfl, rfl⟩
    · exact absurd few (by simp)

/-- No thread has a guard, or none waits for a frame to flush or is about to. -/
def calm (pool : ThreadPool Nat) (label : Nat × ThreadOp Nat) : Bool :=
  (pool.threads.all fun thread => thread.guards.isEmpty) ||
    ((pool.threads.all fun thread => match thread.pc with
      | .flushNext _ _ _ => false
      | _ => true) &&
    pool.threads.all fun thread => (flushList pool thread label.2).isEmpty)

theorem calm_careful {pool : ThreadPool Nat} {label : Nat × ThreadOp Nat}
    (quiet : calm pool label = true) :
    Careful pool label := by
  intro thread found
  unfold calm at quiet
  rw [Bool.or_eq_true] at quiet
  rcases quiet with bare | still
  · have alone (fid : FrameId) (w : Nat) : ¬ Behind pool.threads fid w := by
      rintro ⟨h, holder, here, ⟨guard, owned, _⟩, _⟩
      have none := List.all_eq_true.mp bare holder (List.mem_of_getElem? here)
      rw [List.isEmpty_iff.mp none] at owned
      cases owned
    exact ⟨fun _ _ _ _ fid _ _ _ => alone fid _, fun _ fid _ _ w behind =>
      absurd behind (alone fid w)⟩
  · obtain ⟨waiting, pages⟩ := Bool.and_eq_true_iff.mp still
    constructor
    · intro _ u flusher pid fid rest here asks _
      have none := List.all_eq_true.mp waiting flusher (List.mem_of_getElem? here)
      rw [asks] at none
      cases none
    · intro pid fid rest more
      have none := List.all_eq_true.mp pages thread (List.mem_of_getElem? found)
      rw [more] at none
      cases none

def dropFirst : List (Nat × ThreadOp Nat) :=
  [(0, .call (.checkedPage .write 0 0)), (0, .enter), (0, .run), (0, .latch),
    (0, .drop 0), (0, .unpin), (0, .enter), (0, .run), (1, .call (.flushPage 0)),
      (1, .enter), (1, .run), (0, .call (.checkedPage .read 1 1)), (1, .latchFlush)]

theorem drop_first_returns :
    (twoThreads (fun pool label => ordered pool label && calm pool label) dropFirst).isSome =
      true := by decide

theorem drop_first_never_deadlocks :
    ¬ Deadlocked ((twoThreads _ dropFirst).get drop_first_returns) := by
  have reached : OrderlyReached Careful 1 (DiskManager.new fun _ => (0 : Nat)) 2
    ((twoThreads _ dropFirst).get drop_first_returns) := by
    refine ⟨_, dropFirst, rfl, ?_⟩
    apply TransitionSystem.run_mono _
      (TransitionSystem.run_of_guarded_fold (Option.some_get drop_first_returns).symm)
    rintro before label after ⟨allowed, stepped⟩
    obtain ⟨orderly, quiet⟩ := Bool.and_eq_true_iff.mp allowed
    exact ⟨⟨orderly, calm_careful quiet⟩, stepped⟩
  exact (careful_threads_never_deadlock reached).1

end BusTub.LatchOrder
