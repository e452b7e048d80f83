import BusTub.AtomicObject
import Mathlib

/-!
`DiskManagerUnlimitedMemory` of `storage/disk/disk_manager_memory.cpp`, the disk of an
instance without a file, called by any number of threads. A step is what one thread
does between two operations on a mutex, or the copy of one byte; the bytes of a page are
copied in any order. How long the simulated latency sleeps is left out.
-/

namespace BusTub

open Function (update)
open TransitionSystem
open AtomicObject

structure ProtectedPage (Thread Byte : Type) (size : Nat) where
  first : Fin size → Byte
  writer : Option Thread
  readers : Finset Thread

inductive PageAccess (Byte : Type) (size : Nat) where
  | write (pageData : Fin size → Byte)
  | read (pageData : Fin size → Byte)

namespace PageAccess
variable {Byte : Type} {size : Nat}

instance [DecidableEq Byte] : DecidableEq (PageAccess Byte size)
  | .write first, .write second => decidable_of_iff (first = second) (by simp)
  | .read first, .read second => decidable_of_iff (first = second) (by simp)
  | .write _, .read _ => isFalse (by simp)
  | .read _, .write _ => isFalse (by simp)

def pageData : PageAccess Byte size → Fin size → Byte
  | .write pageData | .read pageData => pageData

def writes : PageAccess Byte size → Bool
  | .write _ => true
  | .read _ => false

end PageAccess

inductive MemoryCall (Byte : Type) (size : Nat) where
  | access (pageId : Int) (access : PageAccess Byte size)
  | getLastReadThreadAndClear

inductive MemoryAnswer (Thread Byte : Type) (size : Nat) where
  | done (access : PageAccess Byte size)
  | lastRead (thread : Option Thread)

instance {Thread Byte : Type} {size : Nat} [DecidableEq Thread] [DecidableEq Byte] :
    DecidableEq (MemoryAnswer Thread Byte size)
  | .done first, .done second => decidable_of_iff (first = second) (by simp)
  | .lastRead first, .lastRead second => decidable_of_iff (first = second) (by simp)
  | .done _, .lastRead _ => isFalse (by simp)
  | .lastRead _, .done _ => isFalse (by simp)

inductive MemoryStage (size : Nat) where
  /-- at `l.unlock()` -/
  | locked
  /-- in `memcpy`, with the bytes that are still to be copied -/
  | copying (remaining : Finset (Fin size))
  /-- `PostProcessLatency`, at the lock of `latency_processor_mutex_` -/
  | recording
  /-- at `recent_access_`, with this mutex -/
  | noting
  /-- at the end of the call -/
  | leaving

inductive MemoryPc (Thread Byte : Type) (size : Nat) where
  | idle
  /-- `ProcessLatency`, at the lock of `latency_processor_mutex_` -/
  | delaying (pageId : Nat) (access : PageAccess Byte size)
  /-- looks through `recent_access_`, with this mutex -/
  | scanning (pageId : Nat) (access : PageAccess Byte size)
  /-- at the lock of `mutex_` -/
  | entering (pageId : Nat) (access : PageAccess Byte size)
  /-- has `mutex_`, at the lock of the page -/
  | waiting (pageId : Nat) (access : PageAccess Byte size) (page : Nat)
  | holding (stage : MemoryStage size) (pageId : Nat) (access : PageAccess Byte size) (page : Nat)
  /-- `GetLastReadThreadAndClear`, at the lock of `mutex_` -/
  | asking
  /-- at its end, with `mutex_` -/
  | answering (thread : Option Thread)

/-- The pages are numbered as they are made; `data` has the number of each page that there is. -/
structure DiskManagerUnlimitedMemory (Thread Byte : Type) (size : Nat) where
  data : List (Option Nat)
  pages : Nat → ProtectedPage Thread Byte size
  made : Nat
  mutex : Option Thread
  latencyProcessorMutex : Option Thread
  latencySimulatorEnabled : Bool
  threadId : Option Thread
  pcs : Thread → MemoryPc Thread Byte size
  /-- `std::terminate` has been called. -/
  terminated : Bool

inductive MemoryOp (Thread Byte : Type) (size : Nat) where
  | enableLatencySimulator (enabled : Bool)
  | call (call : MemoryCall Byte size)
  | processLatency
  | scanned
  | lock
  | lockPage
  | unlock
  | copy (byte : Fin size)
  | copied
  | postProcessLatency
  | noted
  | leave (answer : MemoryAnswer Thread Byte size)

def MemoryOp.own {Thread Byte : Type} {size : Nat} : MemoryOp Thread Byte size → Bool
  | .enableLatencySimulator _ | .call _ => false
  | _ => true

namespace MemoryStage
variable {size : Nat}

def remaining : MemoryStage size → Finset (Fin size)
  | .locked => Finset.univ
  | .copying remaining => remaining
  | _ => ∅

end MemoryStage

namespace ProtectedPage
variable {Thread Byte : Type} {size : Nat} [DecidableEq Thread]

def blank [Zero Byte] : ProtectedPage Thread Byte size where
  first _ := 0
  writer := none
  readers := ∅

def free (page : ProtectedPage Thread Byte size) : PageAccess Byte size → Bool
  | .write _ => page.writer.isNone && decide (page.readers = ∅)
  | .read _ => page.writer.isNone

def lock (page : ProtectedPage Thread Byte size) (t : Thread) : PageAccess Byte size →
    ProtectedPage Thread Byte size
  | .write _ => { page with writer := some t }
  | .read _ => { page with readers := insert t page.readers }

def unlock (page : ProtectedPage Thread Byte size) (t : Thread) :
    PageAccess Byte size → ProtectedPage Thread Byte size
  | .write _ => { page with writer := none }
  | .read _ => { page with readers := page.readers.erase t }

end ProtectedPage

namespace DiskManagerUnlimitedMemory
variable {Thread Byte : Type} {size : Nat} [DecidableEq Thread]
  {page : ProtectedPage Thread Byte size} {number : Nat}

abbrev Pages (Thread Byte : Type) (size : Nat) := Nat → ProtectedPage Thread Byte size

def new [Zero Byte] (pageCapacity : Nat) : DiskManagerUnlimitedMemory Thread Byte size where
  data := (List.range (pageCapacity + 1)).map some
  pages _ := .blank
  made := pageCapacity + 1
  mutex := none
  latencyProcessorMutex := none
  latencySimulatorEnabled := false
  threadId := none
  pcs _ := .idle
  terminated := false

def pageAt (data : List (Option Nat)) (pageId : Nat) : Option Nat := (data[pageId]?).join

def resized (data : List (Option Nat)) (pageId : Nat) : List (Option Nat) :=
  if data.length ≤ pageId then data ++ List.replicate (pageId + 1 - data.length) none else data

def setPc (disk : DiskManagerUnlimitedMemory Thread Byte size) (t : Thread)
    (pc : MemoryPc Thread Byte size) :
    DiskManagerUnlimitedMemory Thread Byte size :=
  { disk with pcs := update disk.pcs t pc }

def setPage (disk : DiskManagerUnlimitedMemory Thread Byte size) (page : Nat)
    (protectedPage : ProtectedPage Thread Byte size) :
    DiskManagerUnlimitedMemory Thread Byte size :=
  { disk with pages := update disk.pages page protectedPage }

def fetch [Zero Byte] (disk : DiskManagerUnlimitedMemory Thread Byte size) (t : Thread)
    (pageId : Nat) (access : PageAccess Byte size) : DiskManagerUnlimitedMemory Thread Byte size :=
  let entered := { disk with
    mutex := some t
    threadId := disk.threadId.or (some t)
    data := resized disk.data pageId }
  match pageAt entered.data pageId with
  | some page => entered.setPc t (.waiting pageId access page)
  | none =>
      { entered with
        data := entered.data.set pageId (some disk.made)
        pages := update disk.pages disk.made .blank
        made := disk.made + 1 }.setPc t (.waiting pageId access disk.made)

def stepInside [Zero Byte] [DecidableEq Byte] (disk : DiskManagerUnlimitedMemory Thread Byte size)
    (t : Thread)
    (op : MemoryOp Thread Byte size) : Option (DiskManagerUnlimitedMemory Thread Byte size) :=
  match op, disk.pcs t with
  | .enableLatencySimulator enabled, _ => some { disk with latencySimulatorEnabled := enabled }
  | .call (.access pageId access), .idle =>
      -- a negative page id ends the program
      if pageId < 0 then some { disk with terminated := true }
      else some (disk.setPc t (.delaying pageId.toNat access))
  | .call .getLastReadThreadAndClear, .idle => some (disk.setPc t .asking)
  | .processLatency, .delaying pageId access =>
      if !disk.latencySimulatorEnabled then some (disk.setPc t (.entering pageId access))
      else if disk.latencyProcessorMutex.isNone then
        some ({ disk with latencyProcessorMutex := some t }.setPc t (.scanning pageId access))
      else none
  | .scanned, .scanning pageId access =>
      -- the sleep comes after this, with no lock held
      some ({ disk with latencyProcessorMutex := none }.setPc t (.entering pageId access))
  | .lock, .entering pageId access =>
      if disk.mutex.isNone then some (disk.fetch t pageId access) else none
  | .lock, .asking =>
      if disk.mutex.isNone then some
        ({ disk with mutex := some t, threadId := none }.setPc t (.answering disk.threadId))
      else none
  | .lockPage, .waiting pageId access page =>
      if (disk.pages page).free access then
        some ((disk.setPage page ((disk.pages page).lock t access)).setPc t
          (.holding .locked pageId access page))
      else none
  | .unlock, .holding .locked pageId access page =>
      -- the lock of the page is had by now: nobody comes in between
      some ({ disk with mutex := none }.setPc t
        (.holding (.copying Finset.univ) pageId access page))
  | .copy byte, .holding (.copying remaining) pageId (.write pageData) page =>
      if byte ∈ remaining then
        some ((disk.setPage page { disk.pages page with
            first := update (disk.pages page).first byte (pageData byte) }).setPc t
          (.holding (.copying (remaining.erase byte)) pageId (.write pageData) page))
      else none
  | .copy byte, .holding (.copying remaining) pageId (.read pageData) page =>
      if byte ∈ remaining then
        some (disk.setPc t (.holding (.copying (remaining.erase byte)) pageId
          (.read (update pageData byte ((disk.pages page).first byte))) page))
      else none
  | .copied, .holding (.copying remaining) pageId access page =>
      if remaining = ∅ then some (disk.setPc t (.holding .recording pageId access page)) else none
  | .postProcessLatency, .holding .recording pageId access page =>
      if !disk.latencySimulatorEnabled then
        some (disk.setPc t (.holding .leaving pageId access page))
      else if disk.latencyProcessorMutex.isNone then
        some ({ disk with latencyProcessorMutex := some t }.setPc t
          (.holding .noting pageId access page))
      else none
  | .noted, .holding .noting pageId access page =>
      some ({ disk with latencyProcessorMutex := none }.setPc t
        (.holding .leaving pageId access page))
  | .leave answer, .holding .leaving _ access page =>
      -- the destructor of `l_page`
      if answer = .done access then
        some ((disk.setPage page ((disk.pages page).unlock t access)).setPc t .idle)
      else none
  | .leave answer, .answering thread =>
      if answer = .lastRead thread then some ({ disk with mutex := none }.setPc t .idle) else none
  | _, _ => none

def step [Zero Byte] [DecidableEq Byte] (disk : DiskManagerUnlimitedMemory Thread Byte size)
    (t : Thread)
    (op : MemoryOp Thread Byte size) : Option (DiskManagerUnlimitedMemory Thread Byte size) :=
  if disk.terminated then none else disk.stepInside t op

def act [Zero Byte] [DecidableEq Byte] (disk : DiskManagerUnlimitedMemory Thread Byte size)
    (label : Thread × MemoryOp Thread Byte size) :
    Option (DiskManagerUnlimitedMemory Thread Byte size) :=
  disk.step label.1 label.2

inductive Move [Zero Byte] (disk : DiskManagerUnlimitedMemory Thread Byte size) (t : Thread) :
    MemoryOp Thread Byte size → DiskManagerUnlimitedMemory Thread Byte size → Prop where
  | enable (enabled : Bool) :
      disk.Move t (.enableLatencySimulator enabled) { disk with latencySimulatorEnabled := enabled }
  | refuse (pageId : Int) (access : PageAccess Byte size) (idle : disk.pcs t = .idle)
      (negative : pageId < 0) :
      disk.Move t (.call (.access pageId access)) { disk with terminated := true }
  | call (pageId : Nat) (access : PageAccess Byte size) (idle : disk.pcs t = .idle) :
      disk.Move t (.call (.access pageId access)) (disk.setPc t (.delaying pageId access))
  | ask (idle : disk.pcs t = .idle) : disk.Move t (.call .getLastReadThreadAndClear)
      (disk.setPc t .asking)
  | hurry (pageId : Nat) (access : PageAccess Byte size)
      (stands : disk.pcs t = .delaying pageId access) :
      disk.Move t .processLatency (disk.setPc t (.entering pageId access))
  | scan (pageId : Nat) (access : PageAccess Byte size)
      (stands : disk.pcs t = .delaying pageId access)
      (free : disk.latencyProcessorMutex = none) :
      disk.Move t .processLatency
        ({ disk with latencyProcessorMutex := some t }.setPc t (.scanning pageId access))
  | scanned (pageId : Nat) (access : PageAccess Byte size)
      (stands : disk.pcs t = .scanning pageId access) :
      disk.Move t .scanned
        ({ disk with latencyProcessorMutex := none }.setPc t (.entering pageId access))
  | find (pageId page : Nat) (access : PageAccess Byte size)
      (stands : disk.pcs t = .entering pageId access)
      (free : disk.mutex = none) (there : pageAt disk.data pageId = some page) :
      disk.Move t .lock ({ disk with
        mutex := some t
        threadId := disk.threadId.or (some t)
        data := resized disk.data pageId }.setPc t (.waiting pageId access page))
  | make (pageId : Nat) (access : PageAccess Byte size)
      (stands : disk.pcs t = .entering pageId access)
      (free : disk.mutex = none) (missing : pageAt disk.data pageId = none) :
      disk.Move t .lock ({ disk with
        mutex := some t
        threadId := disk.threadId.or (some t)
        data := (resized disk.data pageId).set pageId (some disk.made)
        pages := update disk.pages disk.made .blank
        made := disk.made + 1 }.setPc t (.waiting pageId access disk.made))
  | look (stands : disk.pcs t = .asking) (free : disk.mutex = none) :
      disk.Move t .lock
        ({ disk with mutex := some t, threadId := none }.setPc t (.answering disk.threadId))
  | lockPage (pageId page : Nat) (access : PageAccess Byte size)
      (stands : disk.pcs t = .waiting pageId access page)
      (free : (disk.pages page).free access = true) :
      disk.Move t .lockPage
        ((disk.setPage page ((disk.pages page).lock t access)).setPc t
          (.holding .locked pageId access page))
  | unlock (pageId page : Nat) (access : PageAccess Byte size)
      (stands : disk.pcs t = .holding .locked pageId access page) :
      disk.Move t .unlock
        ({ disk with mutex := none }.setPc t (.holding (.copying Finset.univ) pageId access page))
  | copyIn (byte : Fin size) (remaining : Finset (Fin size)) (pageId page : Nat)
      (pageData : Fin size → Byte)
      (stands : disk.pcs t = .holding (.copying remaining) pageId (.write pageData) page) :
      disk.Move t (.copy byte) ((disk.setPage page { disk.pages page with
        first := update (disk.pages page).first byte (pageData byte) }).setPc t
          (.holding (.copying (remaining.erase byte)) pageId (.write pageData) page))
  | copyOut (byte : Fin size) (remaining : Finset (Fin size)) (pageId page : Nat)
      (pageData : Fin size → Byte)
      (stands : disk.pcs t = .holding (.copying remaining) pageId (.read pageData) page) :
      disk.Move t (.copy byte) (disk.setPc t (.holding (.copying (remaining.erase byte)) pageId
        (.read (update pageData byte ((disk.pages page).first byte))) page))
  | copied (pageId page : Nat) (access : PageAccess Byte size)
      (stands : disk.pcs t = .holding (.copying ∅) pageId access page) :
      disk.Move t .copied (disk.setPc t (.holding .recording pageId access page))
  | pass (pageId page : Nat) (access : PageAccess Byte size)
      (stands : disk.pcs t = .holding .recording pageId access page) :
      disk.Move t .postProcessLatency (disk.setPc t (.holding .leaving pageId access page))
  | note (pageId page : Nat) (access : PageAccess Byte size)
      (stands : disk.pcs t = .holding .recording pageId access page)
        (free : disk.latencyProcessorMutex = none) :
      disk.Move t .postProcessLatency
        ({ disk with latencyProcessorMutex := some t }.setPc t
          (.holding .noting pageId access page))
  | noted (pageId page : Nat) (access : PageAccess Byte size)
      (stands : disk.pcs t = .holding .noting pageId access page) :
      disk.Move t .noted
        ({ disk with latencyProcessorMutex := none }.setPc t (.holding .leaving pageId access page))
  | leave (pageId page : Nat) (access : PageAccess Byte size)
      (stands : disk.pcs t = .holding .leaving pageId access page) :
      disk.Move t (.leave (.done access))
        ((disk.setPage page ((disk.pages page).unlock t access)).setPc t .idle)
  | answer (thread : Option Thread) (stands : disk.pcs t = .answering thread) :
      disk.Move t (.leave (.lastRead thread)) ({ disk with mutex := none }.setPc t .idle)

variable {disk after : DiskManagerUnlimitedMemory Thread Byte size} {t other : Thread}
  {op : MemoryOp Thread Byte size} {pc : MemoryPc Thread Byte size}

@[simp] theorem set_pc_data : (disk.setPc t pc).data = disk.data := rfl
@[simp] theorem set_pc_pages : (disk.setPc t pc).pages = disk.pages := rfl
@[simp] theorem set_pc_made : (disk.setPc t pc).made = disk.made := rfl
@[simp] theorem set_pc_here : (disk.setPc t pc).pcs t = pc := Function.update_self _ _ _

omit [DecidableEq Thread] in
@[simp] theorem set_page_pcs :
    (disk.setPage number page).pcs = disk.pcs := rfl

omit [DecidableEq Thread] in
@[simp] theorem set_page_here :
    (disk.setPage number page).pages number = page := Function.update_self _ _ _

omit [DecidableEq Thread] in
theorem set_page_other {number other : Nat} (apart : other ≠ number) :
    (disk.setPage number page).pages other = disk.pages other :=
  Function.update_of_ne apart _ _

theorem set_pc_other (apart : other ≠ t) : (disk.setPc t pc).pcs other = disk.pcs other :=
  Function.update_of_ne apart _ _

omit [DecidableEq Thread] in
@[simp] theorem page_at_resized (data : List (Option Nat)) (pageId id : Nat) :
    pageAt (resized data pageId) id = pageAt data id := by
  unfold resized
  split
  case isTrue short =>
      by_cases inside : id < data.length
      · simp [pageAt, List.getElem?_append_left inside]
      · have beyond : data.length ≤ id := by omega
        simp only [pageAt, List.getElem?_append_right beyond, List.getElem?_replicate,
          List.getElem?_eq_none beyond]
        split <;> rfl
  case isFalse => rfl

theorem page_at_made (data : List (Option Nat)) (pageId id page : Nat) :
    pageAt ((resized data pageId).set pageId (some page)) id = if id = pageId then some page
      else pageAt data id := by
  have long : pageId < (resized data pageId).length := by
    unfold resized
    split
    case isTrue short =>
        rw [List.length_append, List.length_replicate]
        omega
    case isFalse => omega
  by_cases same : id = pageId
  · subst same
    simp [pageAt, long]
  · rw [if_neg same, ← page_at_resized data pageId id]
    simp only [pageAt, List.getElem?_set_ne fun other => same other.symm]

theorem step_move [Zero Byte] [DecidableEq Byte] (step : disk.step t op = some after) :
    disk.terminated = false ∧ disk.Move t op after := by
  unfold DiskManagerUnlimitedMemory.step at step
  split at step
  case isTrue => cases step
  case isFalse alive =>
    refine ⟨by simpa using alive, ?_⟩
    unfold stepInside at step
    split at step
    case h_1 enabled => exact Option.some.inj step ▸ .enable enabled
    case h_2 pageId access idle =>
        split at step
        case isTrue negative => exact Option.some.inj step ▸ .refuse pageId access idle negative
        case isFalse positive =>
            obtain ⟨number, rfl⟩ := Int.eq_ofNat_of_zero_le (Int.not_lt.mp positive)
            exact Option.some.inj step ▸ .call number access idle
    case h_3 idle => exact Option.some.inj step ▸ .ask idle
    case h_4 pageId access stands =>
        split at step
        case isTrue => exact Option.some.inj step ▸ .hurry pageId access stands
        case isFalse =>
            split at step
            case isTrue free =>
                exact Option.some.inj step ▸
                  .scan pageId access stands (Option.isNone_iff_eq_none.mp free)
            case isFalse => cases step
    case h_5 pageId access stands => exact Option.some.inj step ▸ .scanned pageId access stands
    case h_6 pageId access stands =>
        split at step
        case isTrue free =>
            have free' := Option.isNone_iff_eq_none.mp free
            obtain rfl := Option.some.inj step
            unfold fetch
            simp only [page_at_resized]
            split
            case h_1 page there => exact .find pageId page access stands free' there
            case h_2 missing => exact .make pageId access stands free' missing
        case isFalse => cases step
    case h_7 stands =>
        split at step
        case isTrue free =>
            exact Option.some.inj step ▸ .look stands (Option.isNone_iff_eq_none.mp free)
        case isFalse => cases step
    case h_8 pageId access page stands =>
        split at step
        case isTrue free => exact Option.some.inj step ▸ .lockPage pageId page access stands free
        case isFalse => cases step
    case h_9 pageId access page stands =>
        exact Option.some.inj step ▸ .unlock pageId page access stands
    case h_10 byte remaining pageId pageData page stands =>
        split at step
        case isTrue =>
            exact Option.some.inj step ▸ .copyIn byte remaining pageId page pageData stands
        case isFalse => cases step
    case h_11 byte remaining pageId pageData page stands =>
        split at step
        case isTrue =>
            exact Option.some.inj step ▸ .copyOut byte remaining pageId page pageData stands
        case isFalse => cases step
    case h_12 remaining pageId access page stands =>
        split at step
        case isTrue none =>
            subst none
            exact Option.some.inj step ▸ .copied pageId page access stands
        case isFalse => cases step
    case h_13 pageId access page stands =>
        split at step
        case isTrue => exact Option.some.inj step ▸ .pass pageId page access stands
        case isFalse =>
            split at step
            case isTrue free =>
                exact Option.some.inj step ▸
                  .note pageId page access stands (Option.isNone_iff_eq_none.mp free)
            case isFalse => cases step
    case h_14 pageId access page stands =>
        exact Option.some.inj step ▸ .noted pageId page access stands
    case h_15 answer pageId access page stands =>
        split at step
        case isTrue same =>
            subst same
            exact Option.some.inj step ▸ .leave pageId page access stands
        case isFalse => cases step
    case h_16 answer thread stands =>
        split at step
        case isTrue same =>
            subst same
            exact Option.some.inj step ▸ .answer thread stands
        case isFalse => cases step
    case h_17 => cases step

end DiskManagerUnlimitedMemory

namespace MemoryPc
variable {Thread Byte : Type} {size : Nat}

def inside : MemoryPc Thread Byte size → Bool
  | .waiting .. | .holding .locked .. | .answering _ => true
  | _ => false

def timed : MemoryPc Thread Byte size → Bool
  | .scanning .. | .holding .noting .. => true
  | _ => false

def held : MemoryPc Thread Byte size → Option (Nat × Bool)
  | .holding _ _ access page => some (page, access.writes)
  | _ => none

/-- The number of the page that the thread has found under a page id. -/
def found : MemoryPc Thread Byte size → Option (Nat × Nat)
  | .waiting pageId _ page | .holding _ pageId _ page => some (pageId, page)
  | _ => none

def waits : MemoryPc Thread Byte size → Bool
  | .waiting .. => true
  | _ => false

end MemoryPc

namespace DiskManagerUnlimitedMemory
variable {Thread Byte : Type} {size : Nat} [DecidableEq Thread] {access : PageAccess Byte size}
  {pageId page : Nat} {threadId : Option Thread}

structure LockedBy (page : ProtectedPage Thread Byte size) (number : Nat)
    (pcs : Thread → MemoryPc Thread Byte size) : Prop where
  writing : ∀ t, page.writer = some t ↔ (pcs t).held = some (number, true)
  reading : ∀ t, t ∈ page.readers ↔ (pcs t).held = some (number, false)
  alone : ∀ t, page.writer = some t → page.readers = ∅

structure Sound (disk : DiskManagerUnlimitedMemory Thread Byte size) : Prop where
  mutex : ∀ t, (disk.pcs t).inside = true ↔ disk.mutex = some t
  latency : ∀ t, (disk.pcs t).timed = true ↔ disk.latencyProcessorMutex = some t
  made : ∀ pageId page, pageAt disk.data pageId = some page → page < disk.made
  /-- No two page ids have one page. -/
  apart : ∀ pageId other page, pageAt disk.data pageId = some page →
    pageAt disk.data other = some page → pageId = other
  /-- The page of a page id stays the same. -/
  found : ∀ t pageId page, (disk.pcs t).found = some (pageId, page) →
    pageAt disk.data pageId = some page
  locks : ∀ page, LockedBy (disk.pages page) page disk.pcs
  /-- What has been copied is the same on both sides. -/
  bytes : ∀ t stage pageId access page, disk.pcs t = .holding stage pageId access page →
    ∀ byte ∉ stage.remaining, access.pageData byte = (disk.pages page).first byte

variable {disk after : DiskManagerUnlimitedMemory Thread Byte size} {t other : Thread}
  {op : MemoryOp Thread Byte size} {pc : MemoryPc Thread Byte size}

section Locks
variable {page : ProtectedPage Thread Byte size} {number : Nat}
  {pcs : Thread → MemoryPc Thread Byte size} {access : PageAccess Byte size}

/-- `t` has nothing to do with the lock, neither before nor after. -/
theorem locked_elsewhere (locked : LockedBy page number pcs)
    (before : ∀ writes, (pcs t).held ≠ some (number, writes))
    (after : ∀ writes, pc.held ≠ some (number, writes)) :
    LockedBy page number (update pcs t pc) := by
  have same (u : Thread) (writes : Bool) :
      (pcs u).held = some (number, writes) ↔ (update pcs t pc u).held = some (number, writes) := by
    by_cases here : u = t
    · subst here
      rw [Function.update_self]
      exact ⟨fun was => absurd was (before writes), fun is => absurd is (after writes)⟩
    · rw [Function.update_of_ne here]
  exact ⟨fun u => (locked.writing u).trans (same u true), fun u =>
      (locked.reading u).trans (same u false), locked.alone⟩

theorem locked_same (locked : LockedBy page number pcs) (same : pc.held = (pcs t).held) :
    LockedBy page number (update pcs t pc) := by
  have held (u : Thread) : (update pcs t pc u).held = (pcs u).held := by
    by_cases here : u = t
    · subst here
      rw [Function.update_self, same]
    · rw [Function.update_of_ne here]
  exact ⟨fun u => by
    rw [held]; exact locked.writing u, fun u => by rw [held]; exact locked.reading u, locked.alone⟩

theorem locked_takes (locked : LockedBy page number pcs) (free : page.free access = true)
    (before : (pcs t).held = none) (after : pc.held = some (number, access.writes)) :
    LockedBy (page.lock t access) number (update pcs t pc) := by
  have elsewhere {u : Thread} (apart : u ≠ t) : (update pcs t pc u).held = (pcs u).held := by
    rw [Function.update_of_ne apart]
  cases access with
  | write pageData =>
      simp only [ProtectedPage.free, Bool.and_eq_true, Option.isNone_iff_eq_none, decide_eq_true_eq]
        at free
      refine ⟨fun u => ?_, fun u => ?_, fun u _ => free.2⟩
      · by_cases here : u = t
        · subst here
          simp [ProtectedPage.lock, after, PageAccess.writes]
        · rw [elsewhere here, ← locked.writing u, free.1]
          simp [ProtectedPage.lock, Ne.symm here]
      · by_cases here : u = t
        · subst here
          simp [ProtectedPage.lock, free.2, after, PageAccess.writes]
        · rw [elsewhere here]
          exact locked.reading u
  | read pageData =>
      simp only [ProtectedPage.free, Option.isNone_iff_eq_none] at free
      refine ⟨fun u => ?_, fun u => ?_, fun u writes => ?_⟩
      · by_cases here : u = t
        · subst here
          simp [ProtectedPage.lock, free, after, PageAccess.writes]
        · rw [elsewhere here]
          exact locked.writing u
      · by_cases here : u = t
        · subst here
          simp [ProtectedPage.lock, after, PageAccess.writes]
        · rw [elsewhere here, ← locked.reading u]
          simp [ProtectedPage.lock, here]
      · simp [ProtectedPage.lock, free] at writes

theorem locked_leaves (locked : LockedBy page number pcs)
    (before : (pcs t).held = some (number, access.writes))
    (after : pc.held = none) : LockedBy (page.unlock t access) number (update pcs t pc) := by
  have elsewhere {u : Thread} (apart : u ≠ t) : (update pcs t pc u).held = (pcs u).held := by
    rw [Function.update_of_ne apart]
  cases access with
  | write pageData =>
      have mine := (locked.writing t).mpr before
      refine ⟨fun u => ?_, fun u => ?_, fun u writes => ?_⟩
      · by_cases here : u = t
        · subst here
          simp [ProtectedPage.unlock, after]
        · rw [elsewhere here, ← locked.writing u, mine]
          simp [ProtectedPage.unlock, Ne.symm here]
      · by_cases here : u = t
        · subst here
          simp [ProtectedPage.unlock, locked.alone _ mine, after]
        · rw [elsewhere here]
          exact locked.reading u
      · simp [ProtectedPage.unlock] at writes
  | read pageData =>
      refine ⟨fun u => ?_, fun u => ?_, fun u writes => ?_⟩
      · by_cases here : u = t
        · subst here
          rw [Function.update_self, after]
          simp only [ProtectedPage.unlock, locked.writing, before, PageAccess.writes]
          simp
        · rw [elsewhere here]
          exact locked.writing u
      · by_cases here : u = t
        · subst here
          simp [ProtectedPage.unlock, after]
        · rw [elsewhere here, ← locked.reading u]
          simp [ProtectedPage.unlock, here]
      · have none := locked.alone u writes
        simp [ProtectedPage.unlock, none]

omit [DecidableEq Thread] in
/-- One thread writes the page, and nobody else has its lock. -/
theorem writer_alone (locked : LockedBy page number pcs) (mine : (pcs t).held = some (number, true))
    {writes : Bool} (theirs : (pcs other).held = some (number, writes)) : other = t := by
  have holder := (locked.writing t).mpr mine
  cases writes with
  | true =>
      rw [(locked.writing other).mpr theirs] at holder
      exact Option.some.inj holder
  | false =>
      have reads := (locked.reading other).mpr theirs
      rw [locked.alone t holder] at reads
      cases reads

end Locks

/-- `t` keeps the page lock it has, or has none, and the pages stay as they are. -/
theorem quiet_sound (sound : disk.Sound) {mutex latency threadId : Option Thread} {enabled : Bool}
    (exclusive : ∀ other, (update disk.pcs t pc other).inside = true ↔ mutex = some other)
    (timed : ∀ other, (update disk.pcs t pc other).timed = true ↔ latency = some other)
    (held : pc.held = (disk.pcs t).held) (found : pc.found = (disk.pcs t).found)
    (bytes : ∀ stage pageId access page, pc = .holding stage pageId access page →
      ∀ byte ∉ stage.remaining, access.pageData byte = (disk.pages page).first byte) :
    ({ disk with
      mutex := mutex
      latencyProcessorMutex := latency
      latencySimulatorEnabled := enabled
      threadId := threadId }.setPc t pc).Sound where
  mutex := exclusive
  latency := timed
  made := sound.made
  apart := sound.apart
  found := by
    intro u pageId page stands
    by_cases here : u = t
    · subst here
      rw [set_pc_here, found] at stands
      exact sound.found u pageId page stands
    · rw [set_pc_other here] at stands
      exact sound.found u pageId page stands
  locks page := locked_same (sound.locks page) held
  bytes := by
    intro u stage pageId access page stands
    by_cases here : u = t
    · subst here
      rw [set_pc_here] at stands
      exact bytes stage pageId access page stands
    · rw [set_pc_other here] at stands
      exact sound.bytes u stage pageId access page stands

/-- `t` goes on with the lock of its page, and copies nothing. -/
theorem stage_sound (sound : disk.Sound) {stage next : MemoryStage size}
    {mutex latency : Option Thread}
    (stands : disk.pcs t = .holding stage pageId access page)
    (same : next.remaining = stage.remaining) (exclusive : ∀ other,
      (update disk.pcs t (.holding next pageId access page) other).inside = true ↔
        mutex = some other)
    (timed : ∀ other, (update disk.pcs t (.holding next pageId access page) other).timed = true ↔
      latency = some other) :
    ({ disk with
      mutex := mutex
      latencyProcessorMutex := latency }.setPc t (.holding next pageId access page)).Sound := by
  refine quiet_sound sound exclusive timed (by rw [stands]; rfl) (by rw [stands]; rfl)
    fun stage' id access' number other byte copied => ?_
  cases other
  rw [same] at copied
  exact sound.bytes t stage pageId access page stands byte copied

omit [DecidableEq Thread] in
theorem held_made (sound : disk.Sound) {page : Nat} {writes : Bool}
    (held : (disk.pcs t).held = some (page, writes)) :
    page < disk.made := by
  cases stands : disk.pcs t with
  | holding stage pageId access number =>
      simp only [stands, MemoryPc.held, Option.some.injEq, Prod.mk.injEq] at held
      exact held.1 ▸
        sound.made pageId number (sound.found t pageId number (by simp [stands, MemoryPc.found]))
  | _ => simp [stands, MemoryPc.held] at held

theorem find_sound (sound : disk.Sound) (stands : disk.pcs t = .entering pageId access)
    (free : disk.mutex = none) (there : pageAt disk.data pageId = some page) :
    ({ disk with
      mutex := some t
      threadId := threadId
      data := resized disk.data pageId }.setPc t (.waiting pageId access page)).Sound where
  mutex := holder_takes sound.mutex free rfl
  latency := holder_stays sound.latency (by rw [stands]; rfl)
  made id number at_id := sound.made id number (by simpa using at_id)
  apart id other number first second :=
    sound.apart id other number (by simpa using first) (by simpa using second)
  found := by
    intro u id number found
    simp only [set_pc_data, page_at_resized]
    by_cases here : u = t
    · subst here
      simp only [set_pc_here, MemoryPc.found, Option.some.injEq, Prod.mk.injEq] at found
      rw [← found.1, ← found.2, there]
    · rw [set_pc_other here] at found
      exact sound.found u id number found
  locks number := locked_same (sound.locks number) (by rw [stands]; rfl)
  bytes := by
    intro u stage id access' number holds
    by_cases here : u = t
    · subst here
      rw [set_pc_here] at holds
      cases holds
    · rw [set_pc_other here] at holds
      exact sound.bytes u stage id access' number holds

/-- The new page belongs to no other page id and to no thread. -/
theorem make_sound [Zero Byte] (sound : disk.Sound) {pageId : Nat}
    (stands : disk.pcs t = .entering pageId access) (free : disk.mutex = none)
    (missing : pageAt disk.data pageId = none) :
    ({ disk with
      mutex := some t
      threadId := threadId
      data := (resized disk.data pageId).set pageId (some disk.made)
      pages := update disk.pages disk.made .blank
      made := disk.made + 1 }.setPc t (.waiting pageId access disk.made)).Sound where
  mutex := holder_takes sound.mutex free rfl
  latency := holder_stays sound.latency (by rw [stands]; rfl)
  made := by
    intro id number there
    simp only [set_pc_data, page_at_made] at there
    split at there
    · obtain rfl := Option.some.inj there
      exact Nat.lt_succ_self _
    · exact Nat.lt_succ_of_lt (sound.made id number there)
  apart := by
    intro id other number first second
    simp only [set_pc_data, page_at_made] at first second
    have older {id : Nat} (there : pageAt disk.data id = some disk.made) : False :=
      absurd (sound.made id disk.made there) (Nat.lt_irrefl _)
    split at first <;> split at second
    · rw [‹id = pageId›, ‹other = pageId›]
    · obtain rfl := Option.some.inj first
      exact (older second).elim
    · obtain rfl := Option.some.inj second
      exact (older first).elim
    · exact sound.apart id other number first second
  found := by
    intro u id number found
    simp only [set_pc_data, page_at_made]
    by_cases here : u = t
    · subst here
      simp only [set_pc_here, MemoryPc.found, Option.some.injEq, Prod.mk.injEq] at found
      rw [if_pos found.1.symm, found.2]
    · rw [set_pc_other here] at found
      have there := sound.found u id number found
      rw [if_neg, there]
      rintro rfl
      rw [missing] at there
      cases there
  locks := by
    intro number
    by_cases same : number = disk.made
    · subst same
      -- the pages that threads hold are numbered below the new one
      have nobody (u : Thread) (writes : Bool) :
          (update disk.pcs t (.waiting pageId access disk.made) u).held ≠
          some (disk.made, writes) := by
        by_cases here : u = t
        · subst here
          simp [MemoryPc.held]
        · rw [Function.update_of_ne here]
          exact fun held => absurd (held_made sound held) (Nat.lt_irrefl _)
      simp only [set_pc_pages, Function.update_self]
      exact ⟨fun u => ⟨fun none => (by cases none), fun held => absurd held (nobody u true)⟩,
        fun u =>
          ⟨fun none => (by simp [ProtectedPage.blank] at none), fun held =>
          absurd held (nobody u false)⟩,
        fun _ _ => rfl⟩
    · simp only [set_pc_pages, Function.update_of_ne same]
      exact locked_same (sound.locks number) (by rw [stands]; rfl)
  bytes := by
    intro u stage id access' number holds byte copied
    by_cases here : u = t
    · subst here
      rw [set_pc_here] at holds
      cases holds
    · rw [set_pc_other here] at holds
      have held : (disk.pcs u).held = some (number, access'.writes) := by rw [holds]; rfl
      have older : number ≠ disk.made := Nat.ne_of_lt (held_made sound held)
      simp only [set_pc_pages, Function.update_of_ne older]
      exact sound.bytes u stage id access' number holds byte copied

/-- The lock of a page changes hands, or a byte of it is written by the one that has it. -/
theorem page_sound (sound : disk.Sound) {page : Nat} {next : ProtectedPage Thread Byte size}
    (inside : pc.inside = (disk.pcs t).inside) (timed : pc.timed = (disk.pcs t).timed)
    (found : ∀ pageId number, pc.found = some (pageId, number) →
      (disk.pcs t).found = some (pageId, number))
    (locks : LockedBy next page (update disk.pcs t pc))
    (before : ∀ number writes, (disk.pcs t).held = some (number, writes) → number = page)
    (after : ∀ number writes, pc.held = some (number, writes) → number = page)
    (others : ∀ other, other ≠ t → ∀ writes, (disk.pcs other).held = some (page, writes) →
      next.first = (disk.pages page).first)
    (bytes : ∀ stage pageId access number, pc = .holding stage pageId access number →
      ∀ byte ∉ stage.remaining, access.pageData byte = next.first byte) :
    ((disk.setPage page next).setPc t pc).Sound where
  mutex := holder_stays sound.mutex inside
  latency := holder_stays sound.latency timed
  made := sound.made
  apart := sound.apart
  found := by
    intro u pageId number stands
    by_cases here : u = t
    · subst here
      rw [set_pc_here] at stands
      exact sound.found u pageId number (found pageId number stands)
    · rw [set_pc_other here] at stands
      exact sound.found u pageId number stands
  locks := by
    intro number
    by_cases same : number = page
    · subst same
      simp only [set_pc_pages, set_page_here]
      exact locks
    · simp only [set_pc_pages, set_page_other same]
      exact locked_elsewhere (sound.locks number) (fun writes held =>
          same (before number writes held))
        fun writes held => same (after number writes held)
  bytes := by
    intro u stage pageId access number stands byte copied
    by_cases here : u = t
    · subst here
      rw [set_pc_here] at stands
      obtain rfl := after number access.writes (by rw [stands]; rfl)
      simp only [set_pc_pages, set_page_here]
      exact bytes stage pageId access number stands byte copied
    · rw [set_pc_other here, set_page_pcs] at stands
      have same := sound.bytes u stage pageId access number stands byte copied
      by_cases this : number = page
      · subst this
        simp only [set_pc_pages, set_page_here]
        rw [others u here access.writes (by rw [stands]; rfl)]
        exact same
      · simp only [set_pc_pages, set_page_other this]
        exact same

theorem move_sound [Zero Byte] (sound : disk.Sound) (move : disk.Move t op after) :
    after.Sound := by
  cases move with
  | enable enabled =>
      exact ⟨sound.mutex, sound.latency, sound.made, sound.apart, sound.found,
        sound.locks, sound.bytes⟩
  | refuse pageId access idle negative =>
      exact ⟨sound.mutex, sound.latency, sound.made, sound.apart, sound.found,
        sound.locks, sound.bytes⟩
  | call pageId access idle =>
      exact quiet_sound sound (holder_stays sound.mutex (by rw [idle]; rfl))
        (holder_stays sound.latency (by rw [idle]; rfl)) (by rw [idle]; rfl) (by rw [idle]; rfl)
        fun _ _ _ _ stands => by cases stands
  | ask idle =>
      exact quiet_sound sound (holder_stays sound.mutex (by rw [idle]; rfl))
        (holder_stays sound.latency (by rw [idle]; rfl)) (by rw [idle]; rfl) (by rw [idle]; rfl)
        fun _ _ _ _ stands => by cases stands
  | hurry pageId access stands =>
      exact quiet_sound sound (holder_stays sound.mutex (by rw [stands]; rfl))
        (holder_stays sound.latency (by rw [stands]; rfl)) (by rw [stands]; rfl)
          (by rw [stands]; rfl)
        fun _ _ _ _ other => by cases other
  | scan pageId access stands free =>
      exact quiet_sound sound (holder_stays sound.mutex (by rw [stands]; rfl))
        (holder_takes sound.latency free rfl) (by rw [stands]; rfl) (by rw [stands]; rfl)
        fun _ _ _ _ other => by cases other
  | scanned pageId access stands =>
      exact quiet_sound sound (holder_stays sound.mutex (by rw [stands]; rfl))
        (holder_leaves sound.latency (by rw [stands]; rfl) rfl) (by rw [stands]; rfl)
          (by rw [stands]; rfl)
        fun _ _ _ _ other => by cases other
  | find pageId page access stands free there => exact find_sound sound stands free there
  | make pageId access stands free missing => exact make_sound sound stands free missing
  | look stands free =>
      exact quiet_sound sound (holder_takes sound.mutex free rfl)
        (holder_stays sound.latency (by rw [stands]; rfl)) (by rw [stands]; rfl)
          (by rw [stands]; rfl)
        fun _ _ _ _ other => by cases other
  | lockPage pageId page access stands free =>
      refine page_sound sound (by rw [stands]; rfl) (by rw [stands]; rfl)
        (fun id number found => ?_)
        (locked_takes (sound.locks page) free (by rw [stands]; rfl) rfl)
          (fun number writes held => ?_)
        (fun number writes held => ?_)
          (fun _ _ _ _ => ?_) fun stage id access' number holds byte copied => ?_
      · rw [stands]
        exact found
      · rw [stands] at held
        cases held
      · cases held
        rfl
      · cases access <;> rfl
      · cases holds
        exact absurd (Finset.mem_univ byte) copied
  | unlock pageId page access stands =>
      exact stage_sound sound stands rfl (holder_leaves sound.mutex (by rw [stands]; rfl) rfl)
        (holder_stays sound.latency (by rw [stands]; rfl))
  | copyIn byte remaining pageId page pageData stands =>
      have mine : (disk.pcs t).held = some (page, true) := by rw [stands]; rfl
      refine page_sound sound (by rw [stands]; rfl) (by rw [stands]; rfl)
        (fun id number found => ?_) ?_
        (fun number writes held => ?_) (fun number writes held => ?_)
          (fun u apart writes held => ?_)
        fun stage id access' number holds here copied => ?_
      · rw [stands]
        exact found
      · have same : LockedBy (disk.pages page) page
          (update disk.pcs t
            (.holding (.copying (remaining.erase byte)) pageId (.write pageData) page)) :=
          locked_same (sound.locks page) (by rw [stands]; rfl)
        exact ⟨same.writing, same.reading, same.alone⟩
      · rw [stands] at held
        cases held
        rfl
      · cases held
        rfl
      · exact absurd (writer_alone (sound.locks page) mine held) apart
      · cases holds
        by_cases same : here = byte
        · subst same
          exact (Function.update_self here (pageData here) (disk.pages page).first).symm
        · have before := sound.bytes t _ _ _ _ stands here fun member =>
            copied (Finset.mem_erase.mpr ⟨same, member⟩)
          exact before.trans (Function.update_of_ne same _ _).symm
  | copyOut byte remaining pageId page pageData stands =>
      refine quiet_sound sound (holder_stays sound.mutex (by rw [stands]; rfl))
        (holder_stays sound.latency (by rw [stands]; rfl)) (by rw [stands]; rfl)
          (by rw [stands]; rfl)
        fun stage id access' number other here copied => ?_
      cases other
      by_cases same : here = byte
      · subst same
        exact Function.update_self _ _ _
      · rw [PageAccess.pageData, Function.update_of_ne same]
        exact sound.bytes t _ _ _ _ stands here fun member =>
          copied (Finset.mem_erase.mpr ⟨same, member⟩)
  | copied pageId page access stands =>
      exact stage_sound sound stands rfl (holder_stays sound.mutex (by rw [stands]; rfl))
        (holder_stays sound.latency (by rw [stands]; rfl))
  | pass pageId page access stands =>
      exact stage_sound sound stands rfl (holder_stays sound.mutex (by rw [stands]; rfl))
        (holder_stays sound.latency (by rw [stands]; rfl))
  | note pageId page access stands free =>
      exact stage_sound sound stands rfl (holder_stays sound.mutex (by rw [stands]; rfl))
        (holder_takes sound.latency free rfl)
  | noted pageId page access stands =>
      exact stage_sound sound stands rfl (holder_stays sound.mutex (by rw [stands]; rfl))
        (holder_leaves sound.latency (by rw [stands]; rfl) rfl)
  | leave pageId page access stands =>
      refine page_sound sound (by rw [stands]; rfl) (by rw [stands]; rfl)
        (fun id number found => by cases found)
        (locked_leaves (sound.locks page) (by rw [stands]; rfl) rfl) (fun number writes held => ?_)
        (fun number writes held => by cases held) (fun _ _ _ _ => ?_) fun _ _ _ _ holds => by
          cases holds
      · rw [stands] at held
        cases held
        rfl
      · cases access <;> rfl
  | answer thread stands =>
      exact quiet_sound sound (holder_leaves sound.mutex (by rw [stands]; rfl) rfl)
        (holder_stays sound.latency (by rw [stands]; rfl)) (by rw [stands]; rfl)
          (by rw [stands]; rfl)
        fun _ _ _ _ other => by cases other

omit [DecidableEq Thread] in
theorem new_page_at (pageCapacity pageId : Nat) :
    pageAt ((List.range (pageCapacity + 1)).map some) pageId =
      if pageId < pageCapacity + 1 then some pageId else none := by
  unfold pageAt
  split
  case isTrue inside =>
      rw [List.getElem?_map, List.getElem?_range inside]
      rfl
  case isFalse outside =>
      rw [List.getElem?_eq_none (by rw [List.length_map, List.length_range]; omega)]
      rfl

omit [DecidableEq Thread] in
theorem new_sound [Zero Byte] (pageCapacity : Nat) :
    (new pageCapacity : DiskManagerUnlimitedMemory Thread Byte size).Sound where
  mutex t := by simp [new, MemoryPc.inside]
  latency t := by simp [new, MemoryPc.timed]
  made := by
    intro pageId page there
    simp only [new, new_page_at] at there ⊢
    split at there
    · obtain rfl := Option.some.inj there
      assumption
    · cases there
  apart := by
    intro pageId other page first second
    simp only [new, new_page_at] at first second
    split at first <;> split at second
    · exact (Option.some.inj first).trans (Option.some.inj second).symm
    · cases second
    · cases first
    · cases first
  found t pageId page stands := by simp [new, MemoryPc.found] at stands
  locks page := ⟨fun t => by simp [new, MemoryPc.held, ProtectedPage.blank],
    fun t => by simp [new, MemoryPc.held, ProtectedPage.blank], fun t _ => rfl⟩
  bytes t stage pageId access page stands := by simp [new] at stands

def Reached [Zero Byte] [DecidableEq Byte] : DiskManagerUnlimitedMemory Thread Byte size → Prop :=
  Reachable (fun disk => ∃ pageCapacity, disk = new pageCapacity) (graph act)

theorem reached_sound [Zero Byte] [DecidableEq Byte] (reached : disk.Reached) : disk.Sound := by
  refine reachable_preserves Sound ?_ ?_ reached
  · rintro _ ⟨pageCapacity, rfl⟩
    exact new_sound pageCapacity
  · intro before label after sound step
    exact move_sound sound (step_move step).2

end DiskManagerUnlimitedMemory

/-! ### The atomic store -/

structure PageStore (Thread Byte : Type) (size : Nat) where
  contents : Int → Fin size → Byte
  threadId : Option Thread

namespace PageStore
variable {Thread Byte : Type} {size : Nat}

def blank [Zero Byte] : PageStore Thread Byte size where
  contents _ _ := 0
  threadId := none

def apply (store : PageStore Thread Byte size) (t : Thread) :
    MemoryCall Byte size → PageStore Thread Byte size × MemoryAnswer Thread Byte size
  | .access pageId (.write pageData) =>
      (⟨update store.contents pageId pageData, store.threadId.or (some t)⟩, .done (.write pageData))
  | .access pageId (.read _) =>
      (⟨store.contents, store.threadId.or (some t)⟩, .done (.read (store.contents pageId)))
  | .getLastReadThreadAndClear => (⟨store.contents, none⟩, .lastRead store.threadId)

end PageStore

def MemoryPc.status {Thread Byte : Type} {size : Nat}
    (pages : Nat → ProtectedPage Thread Byte size) :
    MemoryPc Thread Byte size → Status (MemoryCall Byte size) (MemoryAnswer Thread Byte size)
  | .idle => .idle
  | .delaying pageId access | .scanning pageId access | .entering pageId access
  | .waiting pageId access _ =>
      .asked (.access pageId access)
  | .holding _ _ (.write pageData) _ => .answered (.done (.write pageData))
  | .holding _ _ (.read _) page => .answered (.done (.read (pages page).first))
  | .asking => .asked .getLastReadThreadAndClear
  | .answering thread => .answered (.lastRead thread)

def MemoryOp.visible {Thread Byte : Type} {size : Nat}
    (label : Thread × MemoryOp Thread Byte size) :
    Option (Event Thread (MemoryCall Byte size) (MemoryAnswer Thread Byte size)) :=
  match label.2 with
  | .call asked => some (.called label.1 asked)
  | .leave answer => some (.returned label.1 answer)
  | _ => none

namespace DiskManagerUnlimitedMemory
variable {Thread Byte : Type} {size : Nat} [DecidableEq Thread] [Zero Byte] {pageId page : Nat}
  {access : PageAccess Byte size} {mutex latency : Option Thread} {pages : Pages Thread Byte size}
  {enabled : Bool}

abbrev Outside (Thread Byte : Type) (size : Nat) :=
  Shared Thread (PageStore Thread Byte size) (MemoryCall Byte size) (MemoryAnswer Thread Byte size)

structure Shows (disk : DiskManagerUnlimitedMemory Thread Byte size)
    (shared : Outside Thread Byte size) : Prop where
  status : ∀ t, shared.status t = (disk.pcs t).status disk.pages
  unmade : ∀ pageId : Nat, pageAt disk.data pageId = none →
    shared.state.contents pageId = fun _ => 0
  settled : ∀ (pageId : Nat) page, pageAt disk.data pageId = some page →
    (disk.pages page).writer = none → shared.state.contents pageId = (disk.pages page).first
  /-- A page that is being written is already what it will be. -/
  written : ∀ t stage (pageId : Nat) pageData page, disk.pcs t =
    .holding stage pageId (.write pageData) page → shared.state.contents pageId = pageData
  /-- The thread that waits for its page has left its name and not yet taken effect. -/
  entered : ∀ t, (disk.pcs t).waits = true → disk.threadId = shared.state.threadId.or (some t)
  calm : (∀ t, (disk.pcs t).waits = false) → disk.threadId = shared.state.threadId

variable {disk after : DiskManagerUnlimitedMemory Thread Byte size} {t other : Thread}
  {op : MemoryOp Thread Byte size} {pc : MemoryPc Thread Byte size}
  {shared : Outside Thread Byte size}

omit [DecidableEq Thread] in
theorem new_shows (pageCapacity : Nat) :
    (new pageCapacity : DiskManagerUnlimitedMemory Thread Byte size).Shows (fresh .blank) where
  status _ := rfl
  unmade _ _ := rfl
  settled _ _ _ _ := rfl
  written t stage pageId pageData page stands := by simp [new] at stands
  entered t waits := by simp [new, MemoryPc.waits] at waits
  calm _ := rfl

omit [DecidableEq Thread] [Zero Byte] in
theorem status_same {pages before : Pages Thread Byte size}
    (same : ∀ page, pc.held = some (page, false) → (pages page).first = (before page).first) :
    pc.status pages = pc.status before := by
  cases pc with
  | holding stage pageId access page =>
      cases access with
      | write pageData => rfl
      | read pageData => simp only [MemoryPc.status, same page rfl]
  | _ => rfl

omit [Zero Byte] in
theorem waits_same (same : pc.waits = (disk.pcs t).waits) (u : Thread) :
    ((disk.setPc t pc).pcs u).waits = (disk.pcs u).waits := by
  by_cases here : u = t
  · subst here
    rw [set_pc_here, same]
  · rw [set_pc_other here]

omit [Zero Byte] in
theorem status_set {pcs : Thread → MemoryPc Thread Byte size}
    {status : Thread → Status (MemoryCall Byte size) (MemoryAnswer Thread Byte size)}
    (same : ∀ other, other ≠ t → status other = (pcs other).status pages) (u : Thread) :
    update status t (pc.status pages) u = (update pcs t pc u).status pages := by
  by_cases here : u = t
  · subst here
    rw [Function.update_self, Function.update_self]
  · rw [Function.update_of_ne here, Function.update_of_ne here, same u here]

theorem shows_moves (shows : disk.Shows shared)
    (writes : ∀ stage pageId pageData page, pc = .holding stage pageId (.write pageData) page →
      ∃ stage', disk.pcs t = .holding stage' pageId (.write pageData) page)
    (waits : pc.waits = (disk.pcs t).waits) :
    ({ disk with
      mutex := mutex
      latencyProcessorMutex := latency
      latencySimulatorEnabled := enabled }.setPc t pc).Shows
        ⟨shared.state, update shared.status t (pc.status disk.pages)⟩ where
  status := status_set fun other _ => shows.status other
  unmade := shows.unmade
  settled := shows.settled
  written := by
    intro u stage pageId pageData page stands
    by_cases here : u = t
    · subst here
      rw [set_pc_here] at stands
      obtain ⟨stage', stood⟩ := writes stage pageId pageData page stands
      exact shows.written u stage' pageId pageData page stood
    · rw [set_pc_other here] at stands
      exact shows.written u stage pageId pageData page stands
  entered u waiting := shows.entered u ((waits_same waits u).symm.trans waiting)
  calm nobody := shows.calm fun u => (waits_same waits u).symm.trans (nobody u)

theorem shows_still (shows : disk.Shows shared)
    (writes : ∀ stage pageId pageData page, pc = .holding stage pageId (.write pageData) page →
      ∃ stage', disk.pcs t = .holding stage' pageId (.write pageData) page)
    (waits : pc.waits = (disk.pcs t).waits)
    (status : pc.status disk.pages = (disk.pcs t).status disk.pages) :
    ({ disk with
      mutex := mutex
      latencyProcessorMutex := latency
      latencySimulatorEnabled := enabled }.setPc t pc).Shows shared := by
  have moved : ({ disk with
      mutex := mutex
      latencyProcessorMutex := latency
      latencySimulatorEnabled := enabled }.setPc t pc).Shows
        ⟨shared.state, update shared.status t (pc.status disk.pages)⟩ :=
          shows_moves shows writes waits
  rwa [status, ← shows.status t, Function.update_eq_self] at moved

/-- Seen from outside, a thread that has the lock of its page has done its work. -/
theorem stage_shows (shows : disk.Shows shared) {stage next : MemoryStage size}
    (stands : disk.pcs t = .holding stage pageId access page) :
    ({ disk with
      mutex := mutex
      latencyProcessorMutex := latency }.setPc t (.holding next pageId access page)).Shows
        shared := by
  refine shows_still shows (fun stage' id pageData number other => ?_) (by rw [stands]; rfl)
    (by rw [stands]; cases access <;> rfl)
  cases other
  exact ⟨stage, stands⟩

omit [DecidableEq Thread] [Zero Byte] in
theorem free_calm (sound : disk.Sound) (free : disk.mutex = none) (u : Thread) :
    (disk.pcs u).waits = false := by
  cases stands : disk.pcs u with
  | waiting pageId access page =>
      have holds := (sound.mutex u).mp (by rw [stands]; rfl)
      rw [free] at holds
      cases holds
  | _ => rfl

omit [DecidableEq Thread] [Zero Byte] in
theorem others_calm (sound : disk.Sound) (inside : (disk.pcs t).inside = true) (apart : other ≠ t) :
    (disk.pcs other).waits = false := by
  cases stands : disk.pcs other with
  | waiting pageId access page =>
      have holds := (sound.mutex other).mp (by rw [stands]; rfl)
      rw [(sound.mutex t).mp inside] at holds
      exact absurd (Option.some.inj holds).symm apart
  | _ => rfl

/-- `t` has found the page under `mutex_`; seen from outside, a new page is as blank as no page. -/
theorem enter_shows (sound : disk.Sound) (shows : disk.Shows shared) {pageId page made : Nat}
    {data : List (Option Nat)}
    (stands : disk.pcs t = .entering pageId access) (free : disk.mutex = none)
    (older : ∀ number < disk.made, pages number = disk.pages number)
    (unmade : ∀ id, pageAt data id = none → pageAt disk.data id = none)
    (there : ∀ id number, pageAt data id = some number →
      pageAt disk.data id = some number ∨ pageAt disk.data id = none ∧
      (pages number).first = fun _ => 0) :
    ({ disk with
      mutex := some t
      threadId := disk.threadId.or (some t)
      data := data
      pages := pages
      made := made }.setPc t (.waiting pageId access page)).Shows shared where
  status := by
    intro u
    rw [shows.status u]
    by_cases here : u = t
    · subst here
      rw [set_pc_here, stands]
      rfl
    · rw [set_pc_other here]
      refine (status_same fun number held => ?_).symm
      exact congrArg ProtectedPage.first (older number (held_made sound held))
  unmade id none := shows.unmade id (unmade id none)
  settled := by
    intro id number found unwritten
    rcases there id number found with before | ⟨before, blank⟩
    · have same := older number (sound.made id number before)
      simp only [set_pc_pages, same] at unwritten ⊢
      exact shows.settled id number before unwritten
    · exact (shows.unmade id before).trans blank.symm
  written := by
    intro u stage id pageData number holds
    by_cases here : u = t
    · subst here
      rw [set_pc_here] at holds
      cases holds
    · rw [set_pc_other here] at holds
      exact shows.written u stage id pageData number holds
  entered := by
    intro u waits
    by_cases here : u = t
    · rw [here, ← shows.calm (free_calm sound free)]
      rfl
    · rw [set_pc_other here] at waits
      exact absurd (waits.symm.trans (free_calm sound free u)) (by decide)
  calm := by
    intro nobody
    have mine := nobody t
    rw [set_pc_here] at mine
    cases mine

/-- The lock of a page is had; whoever wants it writes or reads the store at this moment. -/
theorem lock_page_shows (sound : disk.Sound) (shows : disk.Shows shared)
    (stands : disk.pcs t = .waiting pageId access page)
    (free : (disk.pages page).free access = true) :
    ((disk.setPage page ((disk.pages page).lock t access)).setPc t
      (.holding .locked pageId access page)).Shows
      ⟨(shared.state.apply t (.access pageId access)).1,
        update shared.status t (.answered (shared.state.apply t (.access pageId access)).2)⟩ := by
  have here : pageAt disk.data pageId = some page := sound.found t pageId page (by rw [stands]; rfl)
  have unwritten : (disk.pages page).writer = none := by
    cases access with
    | write pageData =>
        simp only [ProtectedPage.free, Bool.and_eq_true, Option.isNone_iff_eq_none] at free
        exact free.1
    | read pageData => exact Option.isNone_iff_eq_none.mp free
  have first (number : Nat) :
      ((disk.setPage page ((disk.pages page).lock t access)).pages number).first =
        (disk.pages number).first := by
    by_cases same : number = page
    · subst same
      rw [set_page_here]
      cases access <;> rfl
    · rw [set_page_other same]
  have named : (shared.state.apply t (.access pageId access)).1.threadId = disk.threadId := by
    rw [shows.entered t (by rw [stands]; rfl)]
    cases access <;> rfl
  have away {id number : Nat} (there : pageAt disk.data id = some number) (apart : number ≠ page) :
      id ≠ pageId := by
    rintro rfl
    exact apart (Option.some.inj (there.symm.trans here))
  have kept {id : Nat} (apart : id ≠ pageId) :
      (shared.state.apply t (.access pageId access)).1.contents id = shared.state.contents id := by
    cases access with
    | write pageData => exact Function.update_of_ne (fun same => apart (Int.ofNat_inj.mp same)) _ _
    | read pageData => rfl
  constructor
  case status =>
    intro u
    by_cases this : u = t
    · subst this
      simp only [set_pc_here, set_pc_pages, Function.update_self]
      cases access with
      | write pageData => rfl
      | read pageData =>
          simp only [PageStore.apply, MemoryPc.status, first,
            shows.settled pageId page here unwritten]
    · simp only [Function.update_of_ne this, set_pc_other this, set_page_pcs, set_pc_pages,
        shows.status u]
      exact (status_same fun number _ => first number).symm
  case unmade =>
    intro id missing
    refine (kept ?_).trans (shows.unmade id missing)
    rintro rfl
    exact absurd (missing.symm.trans here) (by simp)
  case settled =>
    intro id number there still
    simp only [set_pc_pages, first]
    by_cases same : number = page
    · subst same
      obtain rfl := sound.apart id pageId number there here
      cases access with
      -- the page of a writer is not settled any more
      | write pageData => simp [ProtectedPage.lock] at still
      | read pageData => exact shows.settled id number here unwritten
    · rw [set_pc_pages, set_page_other same] at still
      exact (kept (away there same)).trans (shows.settled id number there still)
  case written =>
    intro u stage id pageData number holds
    by_cases this : u = t
    · subst this
      rw [set_pc_here] at holds
      cases holds
      exact Function.update_self _ _ _
    · rw [set_pc_other this, set_page_pcs] at holds
      have there := sound.found u id number (by rw [holds]; rfl)
      have writer : (disk.pages number).writer = some u :=
        ((sound.locks number).writing u).mpr (by rw [holds]; rfl)
      -- whoever else writes has another page, and so another page id
      have apart : number ≠ page := by
        rintro rfl
        exact absurd (writer.symm.trans unwritten) (by simp)
      exact (kept (away there apart)).trans (shows.written u stage id pageData number holds)
  case entered =>
    intro u waits
    by_cases this : u = t
    · subst this
      rw [set_pc_here] at waits
      cases waits
    · rw [set_pc_other this, set_page_pcs] at waits
      have calm := others_calm (t := t) sound (by rw [stands]; rfl) this
      exact absurd (waits.symm.trans calm) (by decide)
  case calm =>
    intro _
    exact named.symm

/-- A byte is written by the thread that writes the page, which nobody else looks at. -/
theorem copy_in_shows (sound : disk.Sound) (shows : disk.Shows shared) {byte : Fin size}
    {remaining : Finset (Fin size)} {pageData : Fin size → Byte}
    (stands : disk.pcs t = .holding (.copying remaining) pageId (.write pageData) page) :
    ((disk.setPage page { disk.pages page with
      first := update (disk.pages page).first byte (pageData byte) }).setPc t
        (.holding (.copying (remaining.erase byte)) pageId (.write pageData) page)).Shows
          shared := by
  have mine : (disk.pcs t).held = some (page, true) := by rw [stands]; rfl
  have writer : (disk.pages page).writer = some t := ((sound.locks page).writing t).mpr mine
  have same : (.holding (.copying (remaining.erase byte)) pageId (.write pageData) page :
      MemoryPc Thread Byte size).waits = (disk.pcs t).waits := by rw [stands]; rfl
  constructor
  case status =>
    intro u
    rw [shows.status u]
    by_cases here : u = t
    · subst here
      rw [set_pc_here, stands]
      rfl
    · rw [set_pc_other here, set_page_pcs, set_pc_pages]
      refine (status_same fun number held => ?_).symm
      -- a reader of this page would share it with its writer
      have apart : number ≠ page := by
        rintro rfl
        exact here (writer_alone (sound.locks number) mine held)
      rw [set_page_other apart]
  case unmade => exact shows.unmade
  case settled =>
    intro id number there still
    by_cases same : number = page
    · subst same
      rw [set_pc_pages, set_page_here] at still
      exact absurd (still.symm.trans writer) (by simp)
    · rw [set_pc_pages, set_page_other same] at still ⊢
      exact shows.settled id number there still
  case written =>
    intro u stage id pageData' number holds
    by_cases here : u = t
    · subst here
      rw [set_pc_here] at holds
      cases holds
      exact shows.written u _ pageId pageData page stands
    · rw [set_pc_other here, set_page_pcs] at holds
      exact shows.written u stage id pageData' number holds
  case entered => exact fun u waits => shows.entered u ((waits_same same u).symm.trans waits)
  case calm => exact fun nobody => shows.calm fun u => (waits_same same u).symm.trans (nobody u)

/-- The page is as it was written when its lock is given back. -/
theorem leave_shows (sound : disk.Sound) (shows : disk.Shows shared)
    (stands : disk.pcs t = .holding .leaving pageId access page) :
    ((disk.setPage page ((disk.pages page).unlock t access)).setPc t .idle).Shows
      ⟨shared.state, update shared.status t .idle⟩ := by
  have here : pageAt disk.data pageId = some page := sound.found t pageId page (by rw [stands]; rfl)
  have first (number : Nat) :
      ((disk.setPage page ((disk.pages page).unlock t access)).pages number).first =
        (disk.pages number).first := by
    by_cases same : number = page
    · subst same
      rw [set_page_here]
      cases access <;> rfl
    · rw [set_page_other same]
  have same : (MemoryPc.idle : MemoryPc Thread Byte size).waits = (disk.pcs t).waits := by
    rw [stands]; rfl
  constructor
  case status =>
    intro u
    by_cases this : u = t
    · subst this
      simp only [set_pc_here, Function.update_self]
      rfl
    · simp only [Function.update_of_ne this, set_pc_other this, set_page_pcs, set_pc_pages,
        shows.status u]
      exact (status_same fun number _ => first number).symm
  case unmade => exact shows.unmade
  case settled =>
    intro id number there still
    simp only [set_pc_pages, first]
    by_cases same : number = page
    · subst same
      obtain rfl := sound.apart id pageId number there here
      cases access with
      | write pageData =>
          have copied : pageData = (disk.pages number).first := by
            funext byte
            exact sound.bytes t _ _ _ _ stands byte (Finset.notMem_empty byte)
          exact (shows.written t _ id pageData number stands).trans copied
      | read pageData =>
          rw [set_pc_pages, set_page_here] at still
          exact shows.settled id number there still
    · rw [set_pc_pages, set_page_other same] at still
      exact shows.settled id number there still
  case written =>
    intro u stage id pageData number holds
    by_cases this : u = t
    · subst this
      rw [set_pc_here] at holds
      cases holds
    · rw [set_pc_other this, set_page_pcs] at holds
      exact shows.written u stage id pageData number holds
  case entered => exact fun u waits => shows.entered u ((waits_same same u).symm.trans waits)
  case calm => exact fun nobody => shows.calm fun u => (waits_same same u).symm.trans (nobody u)

/-- Every step shows what some steps of the atomic store show. -/
theorem move_matched (sound : disk.Sound) (shows : disk.Shows shared)
    (move : disk.Move t op after) :
    Matched PageStore.apply shared (MemoryOp.visible (t, op))
      fun next => after.terminated = true ∨ after.Shows next := by
  have stays (quiet : after.Shows shared) : Matched PageStore.apply shared none
      fun next => after.terminated = true ∨ after.Shows next := matched_still (Or.inr quiet)
  cases move with
  | enable enabled =>
      exact stays ⟨shows.status, shows.unmade, shows.settled, shows.written,
        shows.entered, shows.calm⟩
  | refuse pageId access idle negative =>
      exact matched_step (.called t _ (by rw [shows.status, idle]; rfl)) (Or.inl rfl)
  | call pageId access idle =>
      exact matched_step (.called t _ (by rw [shows.status, idle]; rfl))
        (Or.inr (shows_moves shows (fun _ _ _ _ other => by cases other) (by rw [idle]; rfl)))
  | ask idle =>
      exact matched_step (.called t _ (by rw [shows.status, idle]; rfl))
        (Or.inr (shows_moves shows (fun _ _ _ _ other => by cases other) (by rw [idle]; rfl)))
  | hurry pageId access stands =>
      exact stays (shows_still shows (fun _ _ _ _ other => by cases other) (by rw [stands]; rfl)
        (by rw [stands]; rfl))
  | scan pageId access stands free =>
      exact stays (shows_still shows (fun _ _ _ _ other => by cases other) (by rw [stands]; rfl)
        (by rw [stands]; rfl))
  | scanned pageId access stands =>
      exact stays (shows_still shows (fun _ _ _ _ other => by cases other) (by rw [stands]; rfl)
        (by rw [stands]; rfl))
  | find pageId page access stands free there =>
      refine stays (enter_shows sound shows stands free (fun _ _ => rfl) (fun id none => ?_)
        fun id number found => ?_)
      · rwa [page_at_resized] at none
      · rw [page_at_resized] at found
        exact Or.inl found
  | make pageId access stands free missing =>
      refine stays (enter_shows sound shows stands free (fun number less => ?_) (fun id none => ?_)
        fun id number found => ?_)
      · exact Function.update_of_ne (Nat.ne_of_lt less) _ _
      · rw [page_at_made] at none
        split at none
        · cases none
        · exact none
      · rw [page_at_made] at found
        split at found
        case isTrue same =>
            obtain rfl := Option.some.inj found
            rw [same, Function.update_self]
            exact Or.inr ⟨missing, rfl⟩
        case isFalse => exact Or.inl found
  | look stands free =>
      have asked : shared.status t = .asked .getLastReadThreadAndClear := by
        rw [shows.status, stands]; rfl
      have name := shows.calm (free_calm sound free)
      refine matched_step (.takes t _ asked) (Or.inr ?_)
      have moved : ({ disk with mutex := some t }.setPc t (.answering disk.threadId)).Shows
        ⟨shared.state,
          update shared.status t ((MemoryPc.answering disk.threadId).status disk.pages)⟩ :=
        shows_moves shows (fun _ _ _ _ other => by cases other) (by rw [stands]; rfl)
      refine ⟨?_, moved.unmade, moved.settled, moved.written, fun u waits => ?_, fun _ => rfl⟩
      · have status := moved.status
        rw [name] at status ⊢
        exact status
      · by_cases here : u = t
        · subst here
          rw [set_pc_here] at waits
          cases waits
        · rw [set_pc_other here] at waits
          exact absurd (waits.symm.trans (free_calm sound free u)) (by decide)
  | lockPage pageId page access stands free =>
      -- here a write or a read takes effect
      exact matched_step (.takes t (.access pageId access) (by rw [shows.status, stands]; rfl))
        (Or.inr (lock_page_shows sound shows stands free))
  | unlock pageId page access stands => exact stays (stage_shows shows stands)
  | copyIn byte remaining pageId page pageData stands =>
      exact stays (copy_in_shows sound shows stands)
  | copyOut byte remaining pageId page pageData stands =>
      exact stays (shows_still shows (fun _ _ _ _ other => by cases other) (by rw [stands]; rfl)
        (by rw [stands]; rfl))
  | copied pageId page access stands => exact stays (stage_shows shows stands)
  | pass pageId page access stands => exact stays (stage_shows shows stands)
  | note pageId page access stands free => exact stays (stage_shows shows stands)
  | noted pageId page access stands => exact stays (stage_shows shows stands)
  | leave pageId page access stands =>
      refine matched_step (.returned t _ ?_) (Or.inr (leave_shows sound shows stands))
      rw [shows.status, stands]
      cases access with
      | write pageData => rfl
      | read pageData =>
          -- all bytes are copied
          have whole : pageData = (disk.pages page).first := by
            funext byte
            exact sound.bytes t _ _ _ _ stands byte (Finset.notMem_empty byte)
          rw [whole]
          rfl
  | answer thread stands =>
      exact matched_step (.returned t _ (by rw [shows.status, stands]; rfl))
        (Or.inr (shows_moves shows (fun _ _ _ _ other => by cases other) (by rw [stands]; rfl)))

/-- Although pages are copied byte by byte and outside of `mutex_`, every call of every
interleaving acts on whole pages at one moment between its beginning and its end. -/
theorem memory_linearizable [DecidableEq Byte] :
    Linearizable PageStore.apply (PageStore.blank : PageStore Thread Byte size)
      (fun disk => ∃ pageCapacity, disk = new pageCapacity) (graph act) MemoryOp.visible := by
  refine linearizable_of_simulation (fun disk shared => disk.Sound ∧
      (disk.terminated = true ∨ disk.Shows shared))
    ?_ ?_
  · rintro _ ⟨pageCapacity, rfl⟩
    exact ⟨new_sound pageCapacity, Or.inr (new_shows pageCapacity)⟩
  · rintro before ⟨t, op⟩ after shared ⟨sound, related⟩ step
    obtain ⟨alive, move⟩ := step_move step
    have shows : before.Shows shared := related.resolve_left (by simp [alive])
    obtain ⟨events, next, run, seen, final⟩ := move_matched sound shows move
    exact ⟨events, next, run, seen, move_sound sound move, final⟩

section Progress
variable [DecidableEq Byte]

def Stuck (disk : DiskManagerUnlimitedMemory Thread Byte size) : Prop :=
  ∀ t (op : MemoryOp Thread Byte size), op.own = true → disk.step t op = none

def Goes (disk : DiskManagerUnlimitedMemory Thread Byte size) (t : Thread) : Prop :=
  ∃ op : MemoryOp Thread Byte size, op.own = true ∧ (disk.step t op).isSome = true

/-- The mutex of the latency is taken last: who has it can go on. -/
theorem timed_goes (alive : disk.terminated = false) (timed : (disk.pcs t).timed = true) :
    disk.Goes t := by
  cases stands : disk.pcs t with
  | scanning pageId access => exact ⟨.scanned, rfl, by simp [step, alive, stepInside, stands]⟩
  | holding stage pageId access page =>
      cases stage with
      | noting => exact ⟨.noted, rfl, by simp [step, alive, stepInside, stands]⟩
      | _ => simp [stands, MemoryPc.timed] at timed
  | _ => simp [stands, MemoryPc.timed] at timed

/-- While that mutex is free, who has the lock of a page can go on. -/
theorem holder_goes (alive : disk.terminated = false) (free : disk.latencyProcessorMutex = none)
    {page : Nat}
    {writes : Bool} (held : (disk.pcs t).held = some (page, writes)) : disk.Goes t := by
  cases stands : disk.pcs t with
  | holding stage pageId access number =>
      cases stage with
      | locked => exact ⟨.unlock, rfl, by simp [step, alive, stepInside, stands]⟩
      | copying remaining =>
          by_cases done : remaining = ∅
          · exact ⟨.copied, rfl, by simp [step, alive, stepInside, stands, done]⟩
          · obtain ⟨byte, left⟩ := Finset.nonempty_iff_ne_empty.mpr done
            refine ⟨.copy byte, rfl, ?_⟩
            cases access <;> simp [step, alive, stepInside, stands, left]
      | recording =>
          refine ⟨.postProcessLatency, rfl, ?_⟩
          simp only [step, alive, stepInside, stands, free]
          cases disk.latencySimulatorEnabled <;> rfl
      | noting => exact ⟨.noted, rfl, by simp [step, alive, stepInside, stands]⟩
      | leaving => exact ⟨.leave (.done access), rfl, by simp [step, alive, stepInside, stands]⟩
  | _ => simp [stands, MemoryPc.held] at held

theorem inside_goes (sound : disk.Sound) (alive : disk.terminated = false)
    (unheld : ∀ t, (disk.pcs t).held = none) (inside : (disk.pcs t).inside = true) :
    disk.Goes t := by
  have nobody {page : Nat} {u : Thread} {writes : Bool}
    (held : (disk.pcs u).held = some (page, writes)) : False := by
    rw [unheld u] at held
    cases held
  cases stands : disk.pcs t with
  | waiting pageId access page =>
      have writer : (disk.pages page).writer = none := by
        cases holder : (disk.pages page).writer with
        | none => rfl
        | some u => exact (nobody (((sound.locks page).writing u).mp holder)).elim
      have readers : (disk.pages page).readers = ∅ :=
        Finset.eq_empty_of_forall_notMem fun u reads =>
          nobody (((sound.locks page).reading u).mp reads)
      have free : (disk.pages page).free access = true := by
        cases access <;> simp [ProtectedPage.free, writer, readers]
      exact ⟨.lockPage, rfl, by simp [step, alive, stepInside, stands, free]⟩
  | answering thread =>
      exact ⟨.leave (.lastRead thread), rfl, by simp [step, alive, stepInside, stands]⟩
  | holding stage pageId access page =>
    have holds : (disk.pcs t).held = some (page, access.writes) := by rw [stands]; rfl
    exact (nobody holds).elim
  | _ => simp [stands, MemoryPc.inside] at inside

theorem outside_goes (alive : disk.terminated = false) (free : disk.mutex = none)
    (calm : disk.latencyProcessorMutex = none) (unheld : (disk.pcs t).held = none)
    (outside : (disk.pcs t).inside = false) (busy : disk.pcs t ≠ .idle) : disk.Goes t := by
  cases stands : disk.pcs t with
  | idle => exact absurd stands busy
  | delaying pageId access =>
      refine ⟨.processLatency, rfl, ?_⟩
      simp only [step, alive, stepInside, stands, calm]
      cases disk.latencySimulatorEnabled <;> rfl
  | scanning pageId access => exact ⟨.scanned, rfl, by simp [step, alive, stepInside, stands]⟩
  | entering pageId access => exact ⟨.lock, rfl, by simp [step, alive, stepInside, stands, free]⟩
  | asking => exact ⟨.lock, rfl, by simp [step, alive, stepInside, stands, free]⟩
  | waiting pageId access page => simp [stands, MemoryPc.inside] at outside
  | answering thread => simp [stands, MemoryPc.inside] at outside
  | holding stage pageId access page => simp [stands, MemoryPc.held] at unheld

/-- A thread waits for its page with `mutex_`, and for the mutex of the latency with its
page; still no threads block each other: where no thread can go on, every call has returned. -/
theorem every_call_returns (reached : disk.Reached) (alive : disk.terminated = false)
    (stuck : disk.Stuck) (t : Thread) :
    disk.pcs t = .idle := by
  have sound := reached_sound reached
  have still {u : Thread} (goes : disk.Goes u) : False := by
    obtain ⟨op, own, some⟩ := goes
    rw [stuck u op own] at some
    cases some
  -- from the lock that is taken last to the one that is taken first, none is held
  have calm : disk.latencyProcessorMutex = none := by
    cases holds : disk.latencyProcessorMutex with
    | none => rfl
    | some u => exact (still (timed_goes alive ((sound.latency u).mpr holds))).elim
  have unheld (u : Thread) : (disk.pcs u).held = none := by
    cases holds : (disk.pcs u).held with
    | none => rfl
    | some lock => exact (still (holder_goes alive calm holds)).elim
  have free : disk.mutex = none := by
    cases holds : disk.mutex with
    | none => rfl
    | some u => exact (still (inside_goes sound alive unheld ((sound.mutex u).mpr holds))).elim
  by_contra busy
  cases inside : (disk.pcs t).inside with
  | true => exact still (inside_goes sound alive unheld inside)
  | false => exact still (outside_goes alive free calm (unheld t) inside busy)

theorem idle_stuck (idle : ∀ t, disk.pcs t = .idle) : disk.Stuck := by
  intro t op own
  cases op with
  | call asked => cases own
  | enableLatencySimulator enabled => cases own
  | _ => simp [step, stepInside, idle t]

end Progress

def writeAndRead : List (Bool × MemoryOp Bool Nat 1) :=
  [(true, .call (.access 2 (.write fun _ => 7))), (true, .processLatency), (true, .lock),
    (true, .lockPage), (false, .call (.access 2 (.read fun _ => 0))), (false, .processLatency),
      (true, .unlock), (false, .lock), (true, .copy 0), (true, .copied),
        (true, .postProcessLatency), (true, .leave (.done (.write fun _ => 7))),
    (false, .lockPage), (false, .unlock), (false, .copy 0), (false, .copied),
      (false, .postProcessLatency), (false, .leave (.done (.read fun _ => 7)))]

def wroteAndRead : DiskManagerUnlimitedMemory Bool Nat 1 :=
  (writeAndRead.foldlM act (new 0)).getD (new 0)

theorem wrote_and_read_reached : wroteAndRead.Reached :=
  ⟨new 0, writeAndRead, ⟨0, rfl⟩, run_of_fold rfl⟩

theorem wrote_and_read_returned : wroteAndRead.pcs true = .idle ∧
    wroteAndRead.pcs false = .idle := by
  have stuck : wroteAndRead.Stuck := idle_stuck fun t => by cases t <;> rfl
  exact ⟨every_call_returns wrote_and_read_reached rfl stuck true,
    every_call_returns wrote_and_read_reached rfl stuck false⟩

end DiskManagerUnlimitedMemory

end BusTub
