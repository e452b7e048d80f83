import BusTub.BufferThreads

/-!
A pin keeps a frame where it is, whatever the threads of a buffer pool do
between two latches. What a late drop can still spoil is the assertion of
`ArcReplacer::Remove`.
-/

namespace BusTub.BufferBookkeeping

open TransitionSystem (Reachable graph)
open Function (update)

variable {Data : Type}

section Threads
variable {threads others : List Thread} {t : Nat} {thread : Thread} {bpm : BufferPoolManager Data}

theorem set_split (found : threads[t]? = some thread) :
    ∃ others, threads.Perm (thread :: others) ∧
      ∀ new, (threads.set t new).Perm (new :: others) := by
  obtain ⟨inside, here⟩ := List.getElem?_eq_some_iff.mp found
  have split (new : Thread) : threads.set t new = threads.take t ++ new :: threads.drop (t + 1) :=
    List.set_eq_take_append_cons_drop.trans (if_pos inside)
  refine ⟨threads.take t ++ threads.drop (t + 1), ?_, fun new => ?_⟩
  · have same := split thread
    rw [← here, List.set_getElem_self, here] at same
    exact (List.Perm.of_eq same).trans List.perm_middle
  · rw [split]
    exact List.perm_middle

def PoolInv (pool : ThreadPool Data) : Prop :=
  Records none pool.bpm (pool.threads.flatMap Thread.pinned) (fun fid =>
    fid ∈ pool.threads.flatMap Thread.late) ∧ ∀ t thread, pool.threads[t]? = some thread →
      thread.inside = true → pool.bpmLatch = some t

def Apart (bpm : BufferPoolManager Data) (thread : Thread) (others : List Thread) : Prop :=
  Records none bpm (thread.pinned ++ others.flatMap Thread.pinned)
    (fun fid => fid ∈ thread.late ∨ fid ∈ others.flatMap Thread.late)

theorem apart_iff (same : threads.Perm (thread :: others)) :
    Records none bpm (threads.flatMap Thread.pinned)
      (fun fid => fid ∈ threads.flatMap Thread.late) ↔ Apart bpm thread others := by
  have pinned := same.flatMap_right Thread.pinned
  have late (fid : FrameId) : fid ∈ threads.flatMap Thread.late ↔
      fid ∈ thread.late ∨ fid ∈ others.flatMap Thread.late := by
    rw [(same.flatMap_right Thread.late).mem_iff, List.flatMap_cons, List.mem_append]
  constructor
  · intro records
    exact records_late (records_perm records pinned) fun fid => (late fid).mp
  · intro records
    exact records_late (records_perm records pinned.symm) fun fid => (late fid).mpr

/-- A thread moves on without a change to its pins, and is no later than before. -/
theorem apart_moves {next : Thread} (apart : Apart bpm thread others)
    (pinned : next.pinned = thread.pinned) (late : ∀ fid ∈ thread.late, fid ∈ next.late) :
    Apart bpm next others := by
  unfold Apart
  rw [pinned]
  exact records_late apart fun fid => Or.imp_left (late fid)

end Threads

section Steps
variable {pool after : ThreadPool Data} {t : Nat} {thread next : Thread} {others : List Thread}
  {fid : FrameId} {bpm : BufferPoolManager Data} {label : Nat × ThreadOp Data}

structure Stepped (pool after : ThreadPool Data) (t : Nat) (thread next : Thread) : Prop where
  found : pool.threads[t]? = some thread
  threads : after.threads = pool.threads.set t next
  latch : (next.inside = true → after.bpmLatch = some t) ∧
    (after.bpmLatch = pool.bpmLatch ∨ (pool.bpmLatch = none ∨ pool.bpmLatch = some t))

theorem stepped_inv (inv : PoolInv pool) (stepped : Stepped pool after t thread next)
    (apart : ∀ others, Apart pool.bpm thread others → Apart after.bpm next others) :
    PoolInv after := by
  obtain ⟨records, latch⟩ := inv
  obtain ⟨found, threads, own, elsewhere⟩ := stepped
  obtain ⟨others, same, replaced⟩ := set_split found
  constructor
  · rw [threads]
    exact (apart_iff (replaced next)).mpr (apart others ((apart_iff same).mp records))
  · intro other record here within
    rw [threads, List.getElem?_set] at here
    split at here
    · rename_i hit
      subst hit
      split at here
      · rw [Option.some.injEq] at here
        exact own (here ▸ within)
      · cases here
    · rename_i different
      have holds := latch other record here within
      rcases elsewhere with unchanged | free | mine
      · exact unchanged.trans holds
      · cases free.symm.trans holds
      · exact absurd (Option.some.inj (mine.symm.trans holds)) different

/-- A thread that gives `bpm_latch_` back, with the pool as its section left it. -/
theorem leave_inv [Zero Data] {pc : ThreadPc} (inv : PoolInv pool)
    (found : pool.threads[t]? = some thread) (within : thread.inside = true)
    (outside : Thread.inside { thread with pc := pc } = false)
    (apart : ∀ others, Apart pool.bpm thread others → Apart bpm { thread with pc := pc } others) :
    PoolInv (pool.leave t thread bpm pc) := by
  refine stepped_inv inv ⟨found, rfl, ?_, Or.inr (Or.inr (inv.2 t thread found within))⟩ apart
  rw [outside]
  rintro ⟨⟩

/-- A flush keeps `bpm_latch_` as long as there are pages left. -/
theorem flush_rest_inv [Zero Data] {rest : List (PageId × FrameId)} (inv : PoolInv pool)
    (found : pool.threads[t]? = some thread) (within : thread.inside = true)
    (plain : thread.pinned = thread.guards) (early : thread.late = [])
    (records : ∀ guards late, Records none pool.bpm guards late → Records none bpm guards late) :
    PoolInv (pool.flushRest t thread bpm rest) := by
  have apart (pc : ThreadPc) (others : List Thread)
    (unpinned : Thread.pinned { thread with pc := pc } = thread.guards)
      (before : Apart pool.bpm thread others) : Apart bpm { thread with pc := pc } others := by
    have moved : Apart bpm thread others := records _ _ before
    refine apart_moves moved (unpinned.trans plain.symm) ?_
    rw [early]
    simp
  cases rest with
  | nil => exact leave_inv inv found within rfl fun others => apart _ others rfl
  | cons first rest =>
      refine stepped_inv inv ⟨found, rfl, fun _ => inv.2 t thread found within, Or.inl rfl⟩ ?_
      exact fun others => apart _ others rfl

theorem run_section_inv [Zero Data] {task : PoolSection} (inv : PoolInv pool)
    (found : pool.threads[t]? = some thread) (at' : thread.pc = .latched task)
    (ran : pool.runSection t thread task = some after) :
    PoolInv after := by
  obtain ⟨guards, pc⟩ := thread
  obtain rfl : pc = .latched task := at'
  cases task with
  | newPage =>
      obtain rfl := Option.some.inj ran
      apply leave_inv inv found rfl rfl
      exact fun others apart => records_congr apart rfl rfl rfl rfl rfl fun _ => rfl
  | deletePage pid =>
      obtain ⟨⟨answer, bpm⟩, deleted, rfl⟩ := Option.map_eq_some_iff.mp ran
      apply leave_inv inv found rfl rfl
      exact fun others apart => delete_page_records apart deleted
  | checkedPage kind name pid =>
      obtain ⟨answer, bpm, pinned⟩ : ∃ answer bpm, pool.bpm.pinPage pid = (answer, bpm) :=
        ⟨_, _, rfl⟩
      simp only [ThreadPool.runSection, pinned] at ran
      cases answer with
      | none =>
          obtain rfl := Option.some.inj ran
          apply leave_inv inv found rfl rfl
          intro others apart
          rw [pin_page_refused apart.replacer pinned]
          exact apart
      | some fid =>
          obtain rfl := Option.some.inj ran
          apply leave_inv inv found rfl rfl
          intro others apart
          have pinned' : Records none bpm
            ({ name := name, kind := kind, pageId := pid, frameId := fid } ::
              (guards ++ others.flatMap Thread.pinned))
            (fun fid => fid ∈ ([] : List FrameId) ∨ fid ∈ others.flatMap Thread.late) :=
            pin_page_records apart pinned rfl rfl
          exact pinned'
  | flushPage pid =>
      obtain rfl := Option.some.inj ran
      exact flush_rest_inv inv found rfl rfl rfl fun _ _ records => records
  | flushAllPages =>
      obtain rfl := Option.some.inj ran
      exact flush_rest_inv inv found rfl rfl rfl fun _ _ records => records
  | settle fid =>
      obtain rfl := Option.some.inj ran
      apply leave_inv inv found rfl rfl
      intro others apart
      apply settle_frame_records
      apply records_late apart
      intro other
      simp [Thread.late]

theorem step_inv [Zero Data] (inv : PoolInv pool) (stepped : pool.step label = some after) :
    PoolInv after := by
  obtain ⟨t, op⟩ := label
  obtain ⟨⟨guards, pc⟩, found, move⟩ := ThreadPool.step_moves stepped
  have kept (bpm : BufferPoolManager Data)
      (records : ∀ guards late, Records none pool.bpm guards late → Records none bpm guards late) :
      PoolInv { pool with bpm := bpm } := ⟨records _ _ inv.1, inv.2⟩
  cases move with
  | call task idle may =>
      subst idle
      refine stepped_inv inv ⟨found, rfl, by rintro ⟨⟩, Or.inl rfl⟩ fun others apart => ?_
      exact apart_moves apart rfl (by simp [Thread.late])
  | enter task waits free =>
      subst waits
      refine stepped_inv inv ⟨found, rfl, fun _ => rfl, Or.inr (Or.inl free)⟩ fun others apart => ?_
      exact apart_moves apart rfl (by cases task <;> exact fun fid late => late)
  | run task after latched ran => exact run_section_inv inv found latched ran
  | latch guard bpm acquires locked =>
      subst acquires
      refine stepped_inv inv ⟨found, rfl, by rintro ⟨⟩, Or.inl rfl⟩ fun others apart => ?_
      exact apart_moves (latch_frame_records apart locked) rfl (by simp [Thread.late])
  | latchFlush pid fid rest latch asks locked =>
      subst asks
      refine stepped_inv inv ⟨found, rfl, fun _ => inv.2 t _ found rfl, Or.inl rfl⟩
        fun others apart => ?_
      have marked : Apart
        { pool.bpm with
          frames := update pool.bpm.frames fid { pool.bpm.frames fid with rwlatch := latch } }
        { guards := guards, pc := .flushNext pid fid rest } others :=
        records_congr apart rfl rfl rfl rfl rfl (update_same FrameHeader.pinCount (by rfl))
      exact apart_moves marked rfl (by simp [Thread.late])
  | flushed pid fid rest flushes =>
      subst flushes
      refine flush_rest_inv inv found rfl rfl rfl fun _ _ records => ?_
      apply unlatch_frame_records
      unfold BufferPoolManager.flushPageUnsafe
      split
      · exact records
      · exact flush_frame_records records
  | write name data guard idle owned =>
      exact kept _ fun _ _ records =>
        records_congr records rfl rfl rfl rfl rfl (update_same FrameHeader.pinCount (by rfl))
  | guardFlush name guard idle owned => exact kept _ fun _ _ records => flush_frame_records records
  | drop name guard idle owned =>
      subst idle
      refine stepped_inv inv ⟨found, rfl, by rintro ⟨⟩, Or.inl rfl⟩ fun others apart => ?_
      have dropped : guards.Perm (guard :: guards.eraseP fun guard => guard.name = name) :=
        guards_perm owned
      have moved := records_perm (unlatch_frame_records apart guard.kind guard.frameId)
        (dropped.append_right (others.flatMap Thread.pinned))
      exact records_late moved (by simp [Thread.late])
  | unpin guard unpins =>
      subst unpins
      refine stepped_inv inv ⟨found, rfl, by rintro ⟨⟩, Or.inl rfl⟩ fun others apart => ?_
      have before : Records none pool.bpm (guard :: (guards ++ others.flatMap Thread.pinned))
          (fun fid => fid ∈ ([] : List FrameId) ∨ fid ∈ others.flatMap Thread.late) := apart
      exact records_late (unpin_frame_records before) (by simp [Thread.late])

theorem start_inv [Zero Data] (numFrames : Nat) (disk : DiskManager Data) (threads : Nat) :
    PoolInv (ThreadPool.start numFrames disk threads) := by
  have empty : (List.replicate threads ({} : Thread)).flatMap Thread.pinned = [] := by
    simp [List.flatMap_eq_nil_iff, Thread.pinned]
  constructor
  · simp only [ThreadPool.start, empty]
    exact new_records numFrames disk _
  · intro t thread found within
    obtain rfl := (List.mem_replicate.mp (List.mem_of_getElem? found)).2
    cases within

theorem reached_inv [Zero Data] {numFrames threads : Nat} {disk : DiskManager Data}
    (reached : ThreadPool.Reached numFrames disk threads pool) : PoolInv pool := by
  apply TransitionSystem.reachable_preserves PoolInv _ _ reached
  · rintro _ rfl
    exact start_inv numFrames disk threads
  · exact fun _ _ _ inv stepped => step_inv inv stepped

end Steps

def InUse (pool : ThreadPool Data) (fid : FrameId) : Prop :=
  0 < (pool.bpm.frames fid).pinCount ∨
    ∃ thread ∈ pool.threads, ∃ guard ∈ thread.guards, guard.frameId = fid

/-- The frame is on no way to another page: not as a victim of the replacer, not
over the free list, and no step maps it anew. -/
structure StaysPut [Zero Data] (pool : ThreadPool Data) (fid : FrameId) : Prop where
  noVictim : pool.bpm.replacer.evict.1 ≠ some fid
  notFree : fid ∉ pool.bpm.freeFrames
  mapped : ∃ pid, pool.bpm.frameToPage.lookup fid = some pid ∧
    ∀ label after, pool.step label = some after →
      after.bpm.frameToPage.lookup fid = some pid ∧ fid ∉ after.bpm.freeFrames

section Pins
variable {pool after : ThreadPool Data} {fid : FrameId} {t : Nat} {thread : Thread}
  {bpm result : BufferPoolManager Data} {guards : List PageGuard} {late : FrameId → Prop}
  {label : Nat × ThreadOp Data} {pid : PageId}

theorem in_use_pinned (inv : PoolInv pool) (use : InUse pool fid) :
    (pool.bpm.frames fid).pinCount ≠ 0 := by
  rcases use with pins | ⟨thread, member, guard, held, here⟩
  · omega
  · rw [inv.1.pins]
    intro none
    have inside : guard ∈ pool.threads.flatMap Thread.pinned := by
      refine List.mem_flatMap.mpr ⟨thread, member, ?_⟩
      unfold Thread.pinned
      split
      · exact List.mem_cons_of_mem _ held
      · exact List.mem_cons_of_mem _ held
      · exact held
    exact pins_on_zero none inside here

theorem pinned_mapped (records : Records none bpm guards late)
    (pinned : (bpm.frames fid).pinCount ≠ 0) :
    ∃ pid, bpm.frameToPage.lookup fid = some pid := by
  rw [records.pins, pinsOn] at pinned
  obtain ⟨guard, member, here⟩ := List.countP_pos_iff.mp (Nat.pos_of_ne_zero pinned)
  exact ⟨guard.pageId, of_decide_eq_true here ▸ records.guarded guard member⟩

theorem pinned_not_free (records : Records none bpm guards late)
    (pinned : (bpm.frames fid).pinCount ≠ 0) :
    fid ∉ bpm.freeFrames := by
  obtain ⟨pid, mapped⟩ := pinned_mapped records pinned
  rw [records.freeExact, mapped]
  rintro ⟨_, ⟨⟩, _⟩

theorem pinned_no_victim (records : Records none bpm guards late)
    (pinned : (bpm.frames fid).pinCount ≠ 0) :
    bpm.replacer.evict.1 ≠ some fid := by
  intro chosen
  obtain ⟨⟨pid, entry⟩, _⟩ := ArcReplacer.evict_some records.replacer
    (Prod.ext chosen rfl : bpm.replacer.evict = (some fid, bpm.replacer.evict.2))
  exact pinned (records.evictable fid pid entry)

/-- A section keeps every pinned frame mapped as it is: whatever pins the frame
pins it still. -/
theorem guarded_stays {others : List PageGuard} {later : FrameId → Prop}
    (records : Records none bpm guards late) (records' : Records none result others later)
    (more : guards ⊆ others) (pinned : (bpm.frames fid).pinCount ≠ 0) :
    result.frameToPage.lookup fid = bpm.frameToPage.lookup fid := by
  rw [records.pins, pinsOn] at pinned
  obtain ⟨guard, member, here⟩ := List.countP_pos_iff.mp (Nat.pos_of_ne_zero pinned)
  obtain rfl := of_decide_eq_true here
  rw [records.guarded guard member, records'.guarded guard (more member)]

theorem flush_rest_table [Zero Data] (rest : List (PageId × FrameId)) :
    (pool.flushRest t thread bpm rest).bpm = bpm := by
  cases rest <;> rfl

theorem flush_frame_table : (bpm.flushFrame pid fid).frameToPage = bpm.frameToPage := by
  unfold BufferPoolManager.flushFrame
  dsimp only
  split <;> rfl

theorem section_stays [Zero Data] {task : PoolSection} (records : Records none pool.bpm guards late)
    (pinned : (pool.bpm.frames fid).pinCount ≠ 0)
    (ran : pool.runSection t thread task = some after) :
    after.bpm.frameToPage.lookup fid = pool.bpm.frameToPage.lookup fid := by
  cases task with
  | newPage =>
      obtain rfl := Option.some.inj ran
      rfl
  | deletePage pid =>
      obtain ⟨⟨answer, bpm⟩, deleted, rfl⟩ := Option.map_eq_some_iff.mp ran
      exact guarded_stays records (delete_page_records records deleted) (List.Subset.refl _) pinned
  | checkedPage kind name pid =>
      obtain ⟨answer, bpm, taken⟩ : ∃ answer bpm, pool.bpm.pinPage pid = (answer, bpm) :=
        ⟨_, _, rfl⟩
      simp only [ThreadPool.runSection, taken] at ran
      cases answer with
      | none =>
          obtain rfl := Option.some.inj ran
          exact congrArg (fun bpm => bpm.frameToPage.lookup fid)
            (pin_page_refused records.replacer taken)
      | some frame =>
          obtain rfl := Option.some.inj ran
          have records' :
            Records none bpm ({ name := name, kind := kind, pageId := pid, frameId := frame } ::
              guards) late :=
            pin_page_records records taken rfl rfl
          exact guarded_stays records records' (List.subset_cons_self ..) pinned
  | flushPage pid =>
      obtain rfl := Option.some.inj ran
      rw [flush_rest_table]
  | flushAllPages =>
      obtain rfl := Option.some.inj ran
      rw [flush_rest_table]
  | settle frame =>
      obtain rfl := Option.some.inj ran
      change (pool.bpm.settleFrame frame).frameToPage.lookup fid = _
      unfold BufferPoolManager.settleFrame
      split <;> rfl

theorem step_stays [Zero Data] (records : Records none pool.bpm guards late)
    (pinned : (pool.bpm.frames fid).pinCount ≠ 0) (stepped : pool.step label = some after) :
    after.bpm.frameToPage.lookup fid = pool.bpm.frameToPage.lookup fid := by
  obtain ⟨t, op⟩ := label
  obtain ⟨thread, found, move⟩ := ThreadPool.step_moves stepped
  cases move with
  | run task after latched ran => exact section_stays records pinned ran
  | latch guard bpm acquires locked =>
      exact guarded_stays records (latch_frame_records records locked) (List.Subset.refl _) pinned
  | flushed page frame rest flushes =>
      rw [flush_rest_table]
      unfold BufferPoolManager.flushPageUnsafe
      split
      · rfl
      · exact congrArg (fun table => table.lookup fid) flush_frame_table
  | guardFlush name guard idle owned =>
      exact congrArg (fun table => table.lookup fid) flush_frame_table
  | _ => rfl

/-- Whatever the threads do, a frame in use stays with its page. -/
theorem pinned_frames_stay [Zero Data] {numFrames threads : Nat} {disk : DiskManager Data}
    (reached : ThreadPool.Reached numFrames disk threads pool) (use : InUse pool fid) :
    StaysPut pool fid := by
  have inv := reached_inv reached
  have pinned := in_use_pinned inv use
  obtain ⟨pid, mapped⟩ := pinned_mapped inv.1 pinned
  refine ⟨pinned_no_victim inv.1 pinned, pinned_not_free inv.1 pinned, pid, mapped,
    fun label after stepped => ?_⟩
  have still := (step_stays inv.1 pinned stepped).trans mapped
  refine ⟨still, ?_⟩
  rw [(step_inv inv stepped).1.freeExact, still]
  rintro ⟨_, ⟨⟩, _⟩

/-- Every call of `Remove` that `DeletePage` makes in this state is on a frame
that the replacer holds as evictable. -/
def RemovesEvictable (pool : ThreadPool Data) : Prop :=
  ∀ (t : Nat) (thread : Thread) (pid : PageId) (fid : FrameId), pool.threads[t]? = some thread →
    thread.pc = .latched (.deletePage pid) → pool.bpm.pageTable.lookup pid = some fid →
    (pool.bpm.frames fid).pinCount = 0 → ∃ page, pool.bpm.replacer.entry fid = some (page, true)

/-- When `DeletePage` finds the pin count of its frame zero, no drop of a guard of
the frame stands between its decrement and its section under `bpm_latch_`. -/
def NoLateDrop (pool : ThreadPool Data) : Prop :=
  ∀ (t : Nat) (thread : Thread) (pid : PageId) (fid : FrameId), pool.threads[t]? = some thread →
    thread.pc = .latched (.deletePage pid) → pool.bpm.pageTable.lookup pid = some fid →
    (pool.bpm.frames fid).pinCount = 0 → ∀ other ∈ pool.threads, other.pc ≠ .waiting (.settle fid)

/-- Without a late drop `DeletePage` keeps the assertion of `Remove`. -/
theorem delete_removes_evictable [Zero Data] {numFrames threads : Nat} {disk : DiskManager Data}
    (reached : ThreadPool.Reached numFrames disk threads pool) (onTime : NoLateDrop pool) :
    RemovesEvictable pool := by
  intro t thread pid fid found deletes mapped unpinned
  have inv := reached_inv reached
  obtain ⟨flag, entry⟩ := records_mapped inv.1 ((inv.1.inverse _ _).mp mapped)
  cases flag with
  | true => exact ⟨pid, entry⟩
  | false =>
      exfalso
      rcases inv.1.kept fid pid entry with pinned | late
      · exact pinned unpinned
      · obtain ⟨other, member, here⟩ := List.mem_flatMap.mp late
        obtain ⟨u, inside⟩ := List.mem_iff_getElem?.mp member
        unfold Thread.late at here
        split at here
        · rename_i frame waits
          obtain rfl := List.mem_singleton.mp here
          exact onTime t thread pid _ found deletes mapped unpinned other member waits
        · rename_i frame latched
          -- the latch has one holder, and that is the thread that deletes
          have first := inv.2 t thread found (by simp [Thread.inside, deletes])
          have second := inv.2 u other inside (by simp [Thread.inside, latched])
          obtain rfl := Option.some.inj (first.symm.trans second)
          obtain rfl := Option.some.inj (found.symm.trans inside)
          cases deletes.symm.trans latched
        · cases here

end Pins

/-! One frame and two threads: the first writes page 0 and drops its guard, the
second deletes the page. -/

def twoThreads (ops : List (Nat × ThreadOp Nat)) : Option (ThreadPool Nat) :=
  ops.foldlM ThreadPool.step (ThreadPool.start 1 (DiskManager.new fun _ => 0) 2)

def acquires : List (Nat × ThreadOp Nat) :=
  [(0, .call (.checkedPage .write 0 0)), (0, .enter), (0, .run), (0, .latch)]

def deletes : List (Nat × ThreadOp Nat) := [(1, .call (.deletePage 0)), (1, .enter)]

def lateDrop : List (Nat × ThreadOp Nat) := acquires ++ [(0, .drop 0), (0, .unpin)] ++ deletes

def promptDrop : List (Nat × ThreadOp Nat) :=
  acquires ++ [(0, .drop 0), (0, .unpin), (0, .enter), (0, .run)] ++ deletes

theorem two_threads_reached {ops : List (Nat × ThreadOp Nat)}
    (returns : (twoThreads ops).isSome = true) :
    ThreadPool.Reached 1 (DiskManager.new fun _ => 0) 2 ((twoThreads ops).get returns) :=
  ⟨_, ops, rfl, TransitionSystem.run_of_fold (Option.some_get _).symm⟩

theorem acquires_returns : (twoThreads acquires).isSome = true := by decide

theorem late_drop_returns : (twoThreads lateDrop).isSome = true := by decide

theorem prompt_drop_returns : (twoThreads promptDrop).isSome = true := by decide

theorem acquired_frame_stays : StaysPut ((twoThreads acquires).get acquires_returns) 0 :=
  pinned_frames_stay (two_threads_reached acquires_returns) (Or.inl (by decide))

/-- `Remove` is called on a frame that the replacer does not hold as evictable. -/
theorem late_drop_breaks_assertion :
    ∃ pool, ThreadPool.Reached 1 (DiskManager.new fun _ => (0 : Nat)) 2 pool ∧
      ¬ RemovesEvictable pool := by
  refine ⟨_, two_threads_reached late_drop_returns, fun removes => ?_⟩
  have thread : (((twoThreads lateDrop).get late_drop_returns).threads[1]?.map Thread.pc) =
      some (.latched (.deletePage 0)) := by decide
  obtain ⟨deleter, found, at'⟩ := Option.map_eq_some_iff.mp thread
  obtain ⟨page, entry⟩ := removes 1 deleter 0 0 found at' (by decide) (by decide)
  have pinned : ((twoThreads lateDrop).get late_drop_returns).bpm.replacer.entry 0 =
    some (0, false) := by decide
  cases pinned.symm.trans entry

theorem prompt_drop_removes_evictable :
    RemovesEvictable ((twoThreads promptDrop).get prompt_drop_returns) := by
  apply delete_removes_evictable (two_threads_reached prompt_drop_returns)
  intro t thread pid fid _ _ _ _ other member waits
  have stands : ((twoThreads promptDrop).get prompt_drop_returns).threads.map Thread.pc =
      [.idle, .latched (.deletePage 0)] := by decide
  have here := List.mem_map_of_mem (f := Thread.pc) member
  rw [stands, waits] at here
  simp at here

end BusTub.BufferBookkeeping
