import BusTub.PoolRecords
import BusTub.TransitionSystem

/-!
The buffer pool under any number of threads. A step is what one thread does
between two latches: it takes `bpm_latch_`, runs the part of a call that the
latch protects, takes the latch of a frame, or does one of the two parts of
`Drop` that no latch protects. A step that has to wait is none. A call that
fails an assertion is none either: the process ends there.
-/

namespace BusTub

/-- What runs under `bpm_latch_`; the last one is the end of a `Drop`. -/
inductive PoolSection where
  | newPage
  | deletePage (pid : PageId)
  | checkedPage (kind : GuardKind) (name : Nat) (pid : PageId)
  | flushPage (pid : PageId)
  | flushAllPages
  | settle (fid : FrameId)
  deriving DecidableEq

/-- Where a thread stands. -/
inductive ThreadPc where
  | idle
  /-- at `lock(*bpm_latch_)` -/
  | waiting (task : PoolSection)
  /-- has `bpm_latch_` -/
  | latched (task : PoolSection)
  /-- in the constructor of a guard, the page pinned and `bpm_latch_` given back -/
  | acquiring (guard : PageGuard)
  /-- has `bpm_latch_` and asks for the latch of a frame -/
  | flushNext (pid : PageId) (fid : FrameId) (rest : List (PageId × FrameId))
  /-- has both -/
  | flushing (pid : PageId) (fid : FrameId) (rest : List (PageId × FrameId))
  /-- in a `Drop` that has given the latch of the frame back -/
  | unpinning (guard : PageGuard)
  deriving DecidableEq

structure Thread where
  guards : List PageGuard := []
  pc : ThreadPc := .idle

structure ThreadPool (Data : Type) where
  bpm : BufferPoolManager Data
  bpmLatch : Option Nat
  threads : List Thread

inductive ThreadOp (Data : Type) where
  | call (task : PoolSection)
  | enter
  | run
  | latch
  | latchFlush
  | flushed
  | write (name : Nat) (data : Data)
  | guardFlush (name : Nat)
  | drop (name : Nat)
  | unpin

namespace Thread

def guard? (thread : Thread) (name : Nat) : Option PageGuard :=
  thread.guards.find? fun guard => guard.name = name

/-- A checked page goes into a new variable; only `Drop` settles a frame. -/
def mayCall (thread : Thread) : PoolSection → Bool
  | .checkedPage _ name _ => (thread.guard? name).isNone
  | .settle _ => false
  | _ => true

/-- The guards that a thread has a pin for. -/
def pinned (thread : Thread) : List PageGuard :=
  match thread.pc with
  | .acquiring guard | .unpinning guard => guard :: thread.guards
  | _ => thread.guards

/-- The frame whose pin a thread has given back without having told the replacer. -/
def late (thread : Thread) : List FrameId :=
  match thread.pc with
  | .waiting (.settle fid) | .latched (.settle fid) => [fid]
  | _ => []

/-- The thread has `bpm_latch_`. -/
def inside (thread : Thread) : Bool :=
  match thread.pc with
  | .latched _ | .flushNext _ _ _ | .flushing _ _ _ => true
  | _ => false

end Thread

namespace ThreadPool

variable {Data : Type} [Zero Data]
open Function (update)

def start (numFrames : Nat) (disk : DiskManager Data) (threads : Nat) : ThreadPool Data where
  bpm := BufferPoolManager.new numFrames disk
  bpmLatch := none
  threads := List.replicate threads {}

def setThread (pool : ThreadPool Data) (t : Nat) (thread : Thread) : ThreadPool Data :=
  { pool with threads := pool.threads.set t thread }

/-- The end of a section: the pool as it left it, and the latch given back. -/
def leave (pool : ThreadPool Data) (t : Nat) (thread : Thread) (bpm : BufferPoolManager Data)
    (pc : ThreadPc) :
    ThreadPool Data :=
  { pool with bpm := bpm, bpmLatch := none }.setThread t { thread with pc := pc }

/-- The loop of `FlushAllPages`; `FlushPage` is a loop over one page. -/
def flushRest (pool : ThreadPool Data) (t : Nat) (thread : Thread) (bpm : BufferPoolManager Data) :
    List (PageId × FrameId) → ThreadPool Data
  | [] => pool.leave t thread bpm .idle
  | (pid, fid) :: rest =>
      { pool with bpm := bpm }.setThread t { thread with pc := .flushNext pid fid rest }

def runSection (pool : ThreadPool Data) (t : Nat) (thread : Thread) :
    PoolSection → Option (ThreadPool Data)
  | .newPage => some (pool.leave t thread pool.bpm.newPage.2 .idle)
  | .deletePage pid =>
      (pool.bpm.deletePage pid).map fun result => pool.leave t thread result.2 .idle
  | .checkedPage kind name pid =>
      match pool.bpm.pinPage pid with
      | (none, bpm) => some (pool.leave t thread bpm .idle)
      | (some fid, bpm) =>
          some (pool.leave t thread bpm
            (.acquiring { name := name, kind := kind, pageId := pid, frameId := fid }))
  | .flushPage pid => some (pool.flushRest t thread pool.bpm
      (match pool.bpm.pageTable.lookup pid with
      | none => []
      | some fid => [(pid, fid)]))
  | .flushAllPages => some (pool.flushRest t thread pool.bpm
      (pool.bpm.pageTable.entries.map fun entry => (entry.1, entry.2)))
  | .settle fid => some (pool.leave t thread (pool.bpm.settleFrame fid) .idle)

def step (pool : ThreadPool Data) (label : Nat × ThreadOp Data) : Option (ThreadPool Data) := do
  let t := label.1
  let thread ← pool.threads[t]?
  match label.2, thread.pc with
  | .call task, .idle =>
      if thread.mayCall task then
        some (pool.setThread t { thread with pc := .waiting task }) else none
  | .enter, .waiting task =>
      if pool.bpmLatch.isNone then
        some ({ pool with bpmLatch := some t }.setThread t { thread with pc := .latched task })
      else none
  | .run, .latched task => pool.runSection t thread task
  | .latch, .acquiring guard => do
      let bpm ← pool.bpm.latchFrame guard.kind guard.frameId
      some ({ pool with bpm := bpm }.setThread t { guards := guard :: thread.guards, pc := .idle })
  | .latchFlush, .flushNext pid fid rest => do
      let frame := pool.bpm.frames fid
      let latch ← frame.rwlatch.lock
      let frames := update pool.bpm.frames fid { frame with rwlatch := latch }
      some ({ pool with bpm := { pool.bpm with frames := frames } }.setThread t
        { thread with pc := .flushing pid fid rest })
  | .flushed, .flushing pid fid rest =>
      some (pool.flushRest t thread ((pool.bpm.flushPageUnsafe pid).2.unlatchFrame .write fid) rest)
  | .write name data, .idle => do
      let guard ← thread.guard? name
      if guard.kind = .write then
        let frame := pool.bpm.frames guard.frameId
        let frames := update pool.bpm.frames guard.frameId { frame with data := data }
        some { pool with bpm := { pool.bpm with frames := frames } }
      else none
  | .guardFlush name, .idle => do
      let guard ← thread.guard? name
      some { pool with bpm := pool.bpm.flushFrame guard.pageId guard.frameId }
  | .drop name, .idle => do
      let guard ← thread.guard? name
      some ({ pool with bpm := pool.bpm.unlatchFrame guard.kind guard.frameId }.setThread t
        { guards := thread.guards.eraseP fun guard => guard.name = name, pc := .unpinning guard })
  | .unpin, .unpinning guard =>
      some ({ pool with bpm := pool.bpm.unpinFrame guard.frameId }.setThread t
        { thread with pc := .waiting (.settle guard.frameId) })
  | _, _ => none

/-- What a step can do, case by case. -/
inductive Move (pool : ThreadPool Data) (t : Nat) (thread : Thread) :
    ThreadOp Data → ThreadPool Data → Prop where
  | call (task : PoolSection) (idle : thread.pc = .idle) (may : thread.mayCall task = true) :
      pool.Move t thread (.call task) (pool.setThread t { thread with pc := .waiting task })
  | enter (task : PoolSection) (waits : thread.pc = .waiting task) (free : pool.bpmLatch = none) :
      pool.Move t thread .enter
        ({ pool with bpmLatch := some t }.setThread t { thread with pc := .latched task })
  | run (task : PoolSection) (after : ThreadPool Data) (latched : thread.pc = .latched task)
      (ran : pool.runSection t thread task = some after) : pool.Move t thread .run after
  | latch (guard : PageGuard) (bpm : BufferPoolManager Data)
      (acquires : thread.pc = .acquiring guard)
      (locked : pool.bpm.latchFrame guard.kind guard.frameId = some bpm) :
      pool.Move t thread .latch
        ({ pool with bpm := bpm }.setThread t { guards := guard :: thread.guards, pc := .idle })
  | latchFlush (pid : PageId) (fid : FrameId) (rest : List (PageId × FrameId)) (latch : RwLatch)
      (asks : thread.pc = .flushNext pid fid rest)
        (locked : (pool.bpm.frames fid).rwlatch.lock = some latch) :
      pool.Move t thread .latchFlush
        ({ pool with bpm :=
          { pool.bpm with
            frames :=
              update pool.bpm.frames fid { pool.bpm.frames fid with rwlatch := latch } }
                }.setThread t
            { thread with pc := .flushing pid fid rest })
  | flushed (pid : PageId) (fid : FrameId) (rest : List (PageId × FrameId))
    (flushes : thread.pc = .flushing pid fid rest) :
      pool.Move t thread .flushed
        (pool.flushRest t thread ((pool.bpm.flushPageUnsafe pid).2.unlatchFrame .write fid) rest)
  | write (name : Nat) (data : Data) (guard : PageGuard) (idle : thread.pc = .idle)
      (owned : thread.guard? name = some guard) :
      pool.Move t thread (.write name data)
        { pool with bpm :=
          { pool.bpm with
            frames :=
              update pool.bpm.frames guard.frameId { pool.bpm.frames guard.frameId with
                data := data } } }
  | guardFlush (name : Nat) (guard : PageGuard) (idle : thread.pc = .idle)
      (owned : thread.guard? name = some guard) :
      pool.Move t thread (.guardFlush name) { pool with
        bpm := pool.bpm.flushFrame guard.pageId guard.frameId }
  | drop (name : Nat) (guard : PageGuard) (idle : thread.pc = .idle)
      (owned : thread.guard? name = some guard) :
      pool.Move t thread (.drop name)
        ({ pool with bpm := pool.bpm.unlatchFrame guard.kind guard.frameId }.setThread t
          { guards := thread.guards.eraseP fun guard => guard.name = name, pc := .unpinning guard })
  | unpin (guard : PageGuard) (unpins : thread.pc = .unpinning guard) :
      pool.Move t thread .unpin
        ({ pool with bpm := pool.bpm.unpinFrame guard.frameId }.setThread t
          { thread with pc := .waiting (.settle guard.frameId) })

theorem step_moves {pool after : ThreadPool Data} {t : Nat} {op : ThreadOp Data}
    (stepped : pool.step (t, op) = some after) :
    ∃ thread, pool.threads[t]? = some thread ∧ pool.Move t thread op after := by
  obtain ⟨thread, found, ran⟩ := Option.bind_eq_some_iff.mp stepped
  refine ⟨thread, found, ?_⟩
  dsimp only at ran
  split at ran
  · rename_i task idle
    simp only [Option.ite_none_right_eq_some, Option.some.injEq] at ran
    obtain ⟨may, rfl⟩ := ran
    exact Move.call task idle may
  · rename_i task waits
    simp only [Option.ite_none_right_eq_some, Option.some.injEq, Option.isNone_iff_eq_none] at ran
    obtain ⟨free, rfl⟩ := ran
    exact Move.enter task waits free
  · rename_i task latched
    exact Move.run task after latched ran
  · rename_i guard acquires
    obtain ⟨bpm, locked, same⟩ := Option.bind_eq_some_iff.mp ran
    obtain rfl := Option.some.inj same
    exact Move.latch guard bpm acquires locked
  · rename_i pid fid rest asks
    obtain ⟨latch, locked, same⟩ := Option.bind_eq_some_iff.mp ran
    obtain rfl := Option.some.inj same
    exact Move.latchFlush pid fid rest latch asks locked
  · rename_i pid fid rest flushes
    obtain rfl := Option.some.inj ran
    exact Move.flushed pid fid rest flushes
  · rename_i name data idle
    obtain ⟨guard, owned, same⟩ := Option.bind_eq_some_iff.mp ran
    simp only [Option.ite_none_right_eq_some, Option.some.injEq] at same
    obtain ⟨_, rfl⟩ := same
    exact Move.write name data guard idle owned
  · rename_i name idle
    obtain ⟨guard, owned, same⟩ := Option.bind_eq_some_iff.mp ran
    obtain rfl := Option.some.inj same
    exact Move.guardFlush name guard idle owned
  · rename_i name idle
    obtain ⟨guard, owned, same⟩ := Option.bind_eq_some_iff.mp ran
    obtain rfl := Option.some.inj same
    exact Move.drop name guard idle owned
  · rename_i guard unpins
    obtain rfl := Option.some.inj ran
    exact Move.unpin guard unpins
  · cases ran

/-- Every state that the threads reach, in any order of their steps. -/
def Reached (numFrames : Nat) (disk : DiskManager Data) (threads : Nat) : ThreadPool Data → Prop :=
  TransitionSystem.Reachable (· = start numFrames disk threads) (TransitionSystem.graph step)

end ThreadPool

end BusTub
