import BusTub.DiskManager
import Mathlib.Algebra.GroupWithZero.Nat

/-!
The buffer pool manager of `buffer/buffer_pool_manager.cpp` with the page
guards of `storage/page/page_guard.cpp`, as one thread sees them. `none` is a
call that does not return: it waits on a latch the thread holds itself, or it
uses a guard that is not valid. The calls of the operating system are assumed to
succeed. What a page holds is one value of `Data`, with `0` for the page of null
bytes; nothing depends on the layout of the bytes.
-/

namespace BusTub

structure RwLatch where
  readers : Nat
  writer : Bool
  deriving DecidableEq

namespace RwLatch

def free : RwLatch := ⟨0, false⟩

def lock (latch : RwLatch) : Option RwLatch :=
  if latch.readers = 0 ∧ latch.writer = false then some { latch with writer := true } else none

def lockShared (latch : RwLatch) : Option RwLatch :=
  if latch.writer = false then some { latch with readers := latch.readers + 1 } else none

def unlock (latch : RwLatch) : RwLatch := { latch with writer := false }

def unlockShared (latch : RwLatch) : RwLatch := { latch with readers := latch.readers - 1 }

end RwLatch

structure FrameHeader (Data : Type) where
  rwlatch : RwLatch
  pinCount : Nat
  isDirty : Bool
  data : Data

structure BufferPoolManager (Data : Type) where
  numFrames : Nat
  nextPageId : PageId
  frames : FrameId → FrameHeader Data
  pageTable : UnorderedMap PageId FrameId
  freeFrames : List FrameId
  replacer : ArcReplacer
  diskScheduler : DiskManager Data
  frameToPage : UnorderedMap FrameId PageId

inductive GuardKind where
  | read
  | write
  deriving DecidableEq

structure PageGuard where
  name : Nat
  kind : GuardKind
  pageId : PageId
  frameId : FrameId
  deriving DecidableEq

namespace BufferPoolManager

variable {Data : Type} [Zero Data]
open Function (update)

def reset (frame : FrameHeader Data) : FrameHeader Data :=
  { frame with data := 0, pinCount := 0, isDirty := false }

def new (numFrames : Nat) (disk : DiskManager Data) : BufferPoolManager Data where
  numFrames := numFrames
  nextPageId := 0
  frames := fun _ => { rwlatch := RwLatch.free, pinCount := 0, isDirty := false, data := 0 }
  pageTable := ∅
  freeFrames := List.range numFrames
  replacer := ArcReplacer.new numFrames
  diskScheduler := disk
  frameToPage := ∅

def newPage (bpm : BufferPoolManager Data) : PageId × BufferPoolManager Data :=
  (bpm.nextPageId, { bpm with nextPageId := bpm.nextPageId + 1 })

def deletePage (bpm : BufferPoolManager Data) (pid : PageId) :
    Option (Bool × BufferPoolManager Data) :=
  match bpm.pageTable.lookup pid with
  | none => some (true, { bpm with diskScheduler := bpm.diskScheduler.deletePage pid })
  | some fid =>
      if (bpm.frames fid).pinCount > 0 then some (false, bpm)
      else do
        let replacer ← bpm.replacer.remove fid
        some (true,
          { bpm with
            replacer := replacer
            pageTable := bpm.pageTable.erase pid
            frameToPage := bpm.frameToPage.erase fid
            freeFrames := bpm.freeFrames ++ [fid]
            frames := update bpm.frames fid (reset (bpm.frames fid))
            diskScheduler := bpm.diskScheduler.deletePage pid })

/-- Case 3: the victim's page is written back when it is dirty, then unmapped.
The replacer has already given the frame up. -/
def unmapVictim (bpm : BufferPoolManager Data) (fid : FrameId) : BufferPoolManager Data :=
  let unmapped :=
    match bpm.frameToPage.lookup fid with
    | none => bpm
    | some evictedPid =>
        let written :=
          if (bpm.frames fid).isDirty then
            { bpm with
              diskScheduler := bpm.diskScheduler.writePage evictedPid (bpm.frames fid).data
              frames := update bpm.frames fid { bpm.frames fid with isDirty := false } }
          else bpm
        { written with
          pageTable := written.pageTable.erase evictedPid
          frameToPage := written.frameToPage.erase fid }
  { unmapped with frames := update unmapped.frames fid (reset (unmapped.frames fid)) }

theorem unmap_victim_mapped {bpm : BufferPoolManager Data} {fid : FrameId} {pid : PageId}
    (mapped : bpm.frameToPage.lookup fid = some pid) :
    bpm.unmapVictim fid =
      { bpm with
        diskScheduler :=
          if (bpm.frames fid).isDirty then bpm.diskScheduler.writePage pid (bpm.frames fid).data
          else bpm.diskScheduler
        pageTable := bpm.pageTable.erase pid
        frameToPage := bpm.frameToPage.erase fid
        frames := update bpm.frames fid (reset (bpm.frames fid)) } := by
  unfold unmapVictim
  simp only [mapped]
  by_cases dirty : (bpm.frames fid).isDirty
  · simp [dirty, reset]
  · simp [dirty]

def takeFrame (bpm : BufferPoolManager Data) : Option FrameId × BufferPoolManager Data :=
  match bpm.freeFrames with
  | fid :: rest => (some fid, { bpm with freeFrames := rest })
  | [] =>
      match bpm.replacer.evict with
      | (none, replacer) => (none, { bpm with replacer := replacer })
      | (some fid, replacer) => (some fid, { bpm with replacer := replacer }.unmapVictim fid)

def loadPage (bpm : BufferPoolManager Data) (pid : PageId) (fid : FrameId) :
    BufferPoolManager Data :=
  let (data, disk) := bpm.diskScheduler.readPage pid (bpm.frames fid).data
  { bpm with
    diskScheduler := disk
    frames := update bpm.frames fid { bpm.frames fid with data := data, pinCount := 1 }
    pageTable := bpm.pageTable.insert pid fid
    frameToPage := bpm.frameToPage.insert fid pid
    replacer := (bpm.replacer.recordAccess fid pid).setEvictable fid false }

/-- The part of `CheckedReadPage` and `CheckedWritePage` under `bpm_latch_`,
the same text in both. An answer without a frame is `nullopt`. -/
def pinPage (bpm : BufferPoolManager Data) (pid : PageId) :
    Option FrameId × BufferPoolManager Data :=
  match bpm.pageTable.lookup pid with
  | some fid =>
      let frame := bpm.frames fid
      (some fid,
        { bpm with
          frames := update bpm.frames fid { frame with pinCount := frame.pinCount + 1 }
          replacer := (bpm.replacer.setEvictable fid false).recordAccess fid pid })
  | none =>
      match bpm.takeFrame with
      | (none, bpm) => (none, bpm)
      | (some fid, bpm) => (some fid, bpm.loadPage pid fid)

def latchFrame (bpm : BufferPoolManager Data) (kind : GuardKind) (fid : FrameId) :
    Option (BufferPoolManager Data) :=
  let frame := bpm.frames fid
  match kind with
  | .read => do
      let latch ← frame.rwlatch.lockShared
      some { bpm with frames := update bpm.frames fid { frame with rwlatch := latch } }
  | .write => do
      let latch ← frame.rwlatch.lock
      some { bpm with
        frames := update bpm.frames fid { frame with rwlatch := latch, isDirty := true } }

def checkedPage (bpm : BufferPoolManager Data) (kind : GuardKind) (name : Nat) (pid : PageId) :
    Option (Option PageGuard × BufferPoolManager Data) :=
  match bpm.pinPage pid with
  | (none, bpm) => some (none, bpm)
  | (some fid, bpm) =>
      (bpm.latchFrame kind fid).map fun latched =>
        (some { name := name, kind := kind, pageId := pid, frameId := fid }, latched)

def checkedReadPage (bpm : BufferPoolManager Data) := bpm.checkedPage .read

def checkedWritePage (bpm : BufferPoolManager Data) := bpm.checkedPage .write

def flushFrame (bpm : BufferPoolManager Data) (pid : PageId) (fid : FrameId) :
    BufferPoolManager Data :=
  let frame := bpm.frames fid
  if frame.isDirty then
    { bpm with
      diskScheduler := bpm.diskScheduler.writePage pid frame.data
      frames := update bpm.frames fid { frame with isDirty := false } }
  else bpm

def flushPageUnsafe (bpm : BufferPoolManager Data) (pid : PageId) : Bool × BufferPoolManager Data :=
  match bpm.pageTable.lookup pid with
  | none => (false, bpm)
  | some fid => (true, bpm.flushFrame pid fid)

def flushLatched (bpm : BufferPoolManager Data) (pid : PageId) (fid : FrameId) :
    Option (BufferPoolManager Data) := do
  let latch ← (bpm.frames fid).rwlatch.lock
  let locked :=
    { bpm with frames := update bpm.frames fid { bpm.frames fid with rwlatch := latch } }
  let (_, flushed) := locked.flushPageUnsafe pid
  let frame := flushed.frames fid
  some { flushed with
    frames := update flushed.frames fid { frame with rwlatch := frame.rwlatch.unlock } }

def flushPage (bpm : BufferPoolManager Data) (pid : PageId) :
    Option (Bool × BufferPoolManager Data) :=
  match bpm.pageTable.lookup pid with
  | none => some (false, bpm)
  | some fid => (bpm.flushLatched pid fid).map fun flushed => (true, flushed)

def flushAllPagesUnsafe (bpm : BufferPoolManager Data) : BufferPoolManager Data :=
  bpm.pageTable.keys.foldl (fun bpm pid => (bpm.flushPageUnsafe pid).2) bpm

def flushAllPages (bpm : BufferPoolManager Data) : Option (BufferPoolManager Data) :=
  bpm.pageTable.entries.foldlM (fun bpm entry => bpm.flushLatched entry.1 entry.2) bpm

def dropGuard (bpm : BufferPoolManager Data) (guard : PageGuard) : BufferPoolManager Data :=
  let frame := bpm.frames guard.frameId
  let latch :=
    match guard.kind with
    | .read => frame.rwlatch.unlockShared
    | .write => frame.rwlatch.unlock
  let pinCount := frame.pinCount - 1
  { bpm with
    frames := update bpm.frames guard.frameId { frame with rwlatch := latch, pinCount := pinCount }
    replacer := if pinCount = 0 then bpm.replacer.setEvictable guard.frameId true
      else bpm.replacer }

/-! `Drop` in its three parts, between which other threads may run. -/

def unlatchFrame (bpm : BufferPoolManager Data) (kind : GuardKind) (fid : FrameId) :
    BufferPoolManager Data :=
  let frame := bpm.frames fid
  let latch :=
    match kind with
    | .read => frame.rwlatch.unlockShared
    | .write => frame.rwlatch.unlock
  { bpm with frames := update bpm.frames fid { frame with rwlatch := latch } }

def unpinFrame (bpm : BufferPoolManager Data) (fid : FrameId) : BufferPoolManager Data :=
  let frame := bpm.frames fid
  { bpm with frames := update bpm.frames fid { frame with pinCount := frame.pinCount - 1 } }

def settleFrame (bpm : BufferPoolManager Data) (fid : FrameId) : BufferPoolManager Data :=
  if (bpm.frames fid).pinCount = 0 then
    { bpm with replacer := bpm.replacer.setEvictable fid true } else bpm

omit [Zero Data] in
theorem drop_guard_parts (bpm : BufferPoolManager Data) (guard : PageGuard) :
    bpm.dropGuard guard =
      ((bpm.unlatchFrame guard.kind guard.frameId).unpinFrame guard.frameId).settleFrame
        guard.frameId := by
  unfold dropGuard settleFrame unpinFrame unlatchFrame
  simp only [Function.update_self, Function.update_idem]
  by_cases unpinned : (bpm.frames guard.frameId).pinCount - 1 = 0
  · simp only [unpinned, if_true]
  · simp only [unpinned, if_false]

end BufferPoolManager

structure Client (Data : Type) where
  bpm : BufferPoolManager Data
  guards : List PageGuard

inductive PoolOp (Data : Type) where
  | newPage
  | checkedReadPage (pid : PageId) (name : Nat)
  | checkedWritePage (pid : PageId) (name : Nat)
  | write (name : Nat) (data : Data)
  | guardFlush (name : Nat)
  | drop (name : Nat)
  | move (source target : Nat)
  | flushPage (pid : PageId)
  | flushPageUnsafe (pid : PageId)
  | flushAllPages
  | flushAllPagesUnsafe
  | deletePage (pid : PageId)

namespace Client

variable {Data : Type} [Zero Data]
open Function (update)

def start (numFrames : Nat) (disk : DiskManager Data) : Client Data where
  bpm := BufferPoolManager.new numFrames disk
  guards := []

def guard? (client : Client Data) (name : Nat) : Option PageGuard :=
  client.guards.find? fun guard => guard.name = name

def dropNamed (client : Client Data) (name : Nat) : Client Data :=
  match client.guard? name with
  | none => client
  | some guard =>
      { bpm := client.bpm.dropGuard guard
        guards := client.guards.eraseP fun guard => guard.name = name }

def acquire (client : Client Data) (kind : GuardKind) (name : Nat) (pid : PageId) :
    Option (Client Data) :=
  if (client.guard? name).isSome then none
  else
    (client.bpm.checkedPage kind name pid).map fun (guard, bpm) =>
      { bpm := bpm, guards := guard.toList ++ client.guards }

/-- The move constructor when `target` owns nothing, the move assignment with
its `Drop` when it does, and nothing at all when the two are one variable. -/
def moveNamed (client : Client Data) (source target : Nat) : Client Data :=
  if source = target then client
  else
    let dropped := client.dropNamed target
    { dropped with
      guards := dropped.guards.map fun guard =>
        if guard.name = source then { guard with name := target } else guard }

def step (client : Client Data) : PoolOp Data → Option (Client Data)
  | .newPage => some { client with bpm := client.bpm.newPage.2 }
  | .checkedReadPage pid name => client.acquire .read name pid
  | .checkedWritePage pid name => client.acquire .write name pid
  | .write name data =>
      match client.guard? name with
      | some guard =>
          if guard.kind = .write then
            let frame := client.bpm.frames guard.frameId
            some { client with
              bpm := { client.bpm with
                frames := update client.bpm.frames guard.frameId { frame with data := data } } }
          else none
      | none => none
  | .guardFlush name =>
      match client.guard? name with
      | some guard => some { client with bpm := client.bpm.flushFrame guard.pageId guard.frameId }
      | none => none
  | .drop name => some (client.dropNamed name)
  | .move source target => some (client.moveNamed source target)
  | .flushPage pid => (client.bpm.flushPage pid).map fun result => { client with bpm := result.2 }
  | .flushPageUnsafe pid => some { client with bpm := (client.bpm.flushPageUnsafe pid).2 }
  | .flushAllPages => client.bpm.flushAllPages.map fun bpm => { client with bpm := bpm }
  | .flushAllPagesUnsafe => some { client with bpm := client.bpm.flushAllPagesUnsafe }
  | .deletePage pid => (client.bpm.deletePage pid).map fun result => { client with bpm := result.2 }

end Client

end BusTub
