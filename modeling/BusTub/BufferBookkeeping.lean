import BusTub.PoolRecords
import BusTub.TransitionSystem

/-!
The five records the buffer pool keeps of one fact, which page is in which frame and how often
it is pinned, agree after every call of one thread: then the replacer is never late.
-/

namespace BusTub.BufferBookkeeping

open BusTub.TransitionSystem
open Function (update)

variable {Data : Type}

structure Books (reserved : Option FrameId) (bpm : BufferPoolManager Data)
    (guards : List PageGuard) : Prop where
  inverse : ∀ pid fid, bpm.pageTable.lookup pid = some fid ↔ bpm.frameToPage.lookup fid = some pid
  inPool : ∀ fid pid, bpm.frameToPage.lookup fid = some pid → fid < bpm.numFrames
  freeUnique : bpm.freeFrames.Nodup
  freeExact : ∀ fid, fid ∈ bpm.freeFrames ↔
    fid < bpm.numFrames ∧ bpm.frameToPage.lookup fid = none ∧ reserved ≠ some fid
  replacer : ArcReplacer.AliveInv bpm.replacer
  alive : ∀ fid, bpm.replacer.entry fid =
    (bpm.frameToPage.lookup fid).map fun pid => (pid, decide ((bpm.frames fid).pinCount = 0))
  pins : ∀ fid, (bpm.frames fid).pinCount = pinsOn guards fid
  guarded : ∀ guard ∈ guards, bpm.frameToPage.lookup guard.frameId = some guard.pageId

section Books
variable {reserved : Option FrameId} {bpm after : BufferPoolManager Data} {guards : List PageGuard}
  {fid : FrameId} {pid : PageId} {kind : GuardKind} {guard : PageGuard} {name : Nat}

/-- What a call changes of a frame's bytes, its dirty flag or its latch, or of
the disk, no record sees. -/
theorem books_congr (books : Books reserved bpm guards)
    (numFrames : after.numFrames = bpm.numFrames) (pageTable : after.pageTable = bpm.pageTable)
    (freeFrames : after.freeFrames = bpm.freeFrames) (replacer : after.replacer = bpm.replacer)
    (frameToPage : after.frameToPage = bpm.frameToPage)
    (pins : ∀ fid, (after.frames fid).pinCount = (bpm.frames fid).pinCount) :
    Books reserved after guards where
  inverse := by rw [pageTable, frameToPage]; exact books.inverse
  inPool := by rw [frameToPage, numFrames]; exact books.inPool
  freeUnique := by rw [freeFrames]; exact books.freeUnique
  freeExact := by rw [freeFrames, numFrames, frameToPage]; exact books.freeExact
  replacer := by rw [replacer]; exact books.replacer
  alive := by simp only [replacer, frameToPage, pins]; exact books.alive
  pins := by simp only [pins]; exact books.pins
  guarded := by rw [frameToPage]; exact books.guarded

theorem records_of_books (books : Books reserved bpm guards) :
    Records reserved bpm guards (fun _ => False) := by
  refine ⟨books.inverse, books.inPool, books.freeUnique, books.freeExact, books.replacer, ?_, ?_,
      ?_, books.pins, books.guarded⟩
  · intro fid
    rw [books.alive, Option.map_map]
    exact Option.map_id'
  · intro fid page entry
    obtain ⟨_, _, same⟩ := Option.map_eq_some_iff.mp ((books.alive fid).symm.trans entry)
    exact of_decide_eq_true (Prod.mk.inj same).2
  · intro fid page entry
    obtain ⟨_, _, same⟩ := Option.map_eq_some_iff.mp ((books.alive fid).symm.trans entry)
    exact Or.inl (of_decide_eq_false (Prod.mk.inj same).2)

theorem books_of_records (records : Records reserved bpm guards (fun _ => False)) :
    Books reserved bpm guards := by
  refine ⟨records.inverse, records.inPool, records.freeUnique, records.freeExact, records.replacer,
      ?_, records.pins, records.guarded⟩
  intro fid
  cases mapped : bpm.frameToPage.lookup fid with
  | none => exact (records_unmapped records mapped).1
  | some pid =>
      obtain ⟨flag, entry⟩ := records_mapped records mapped
      rw [entry, Option.map_some]
      cases flag with
      | true => simp [records.evictable fid pid entry]
      | false => simp [(records.kept fid pid entry).resolve_right id]

theorem flush_frame_books (books : Books reserved bpm guards) :
    Books reserved (bpm.flushFrame pid fid) guards :=
  books_of_records (flush_frame_records (records_of_books books))

theorem flush_page_unsafe_books (books : Books reserved bpm guards) (pid : PageId) :
    Books reserved (bpm.flushPageUnsafe pid).2 guards := by
  unfold BufferPoolManager.flushPageUnsafe
  split
  · exact books
  · exact flush_frame_books books

theorem flush_latched_books (books : Books reserved bpm guards)
    (flushed : bpm.flushLatched pid fid = some after) : Books reserved after guards := by
  simp only [BufferPoolManager.flushLatched, Option.bind_eq_bind, Option.bind_eq_some_iff,
    Option.some.injEq] at flushed
  obtain ⟨latch, _, rfl⟩ := flushed
  have locked : Books reserved { bpm with
      frames := update bpm.frames fid { bpm.frames fid with rwlatch := latch } } guards :=
    books_congr books rfl rfl rfl rfl rfl (update_same FrameHeader.pinCount (by rfl))
  exact books_congr (flush_page_unsafe_books locked pid) rfl rfl rfl rfl rfl
    (update_same FrameHeader.pinCount (by rfl))

theorem flush_all_unsafe_books (books : Books reserved bpm guards) :
    Books reserved bpm.flushAllPagesUnsafe guards := by
  unfold BufferPoolManager.flushAllPagesUnsafe
  generalize bpm.pageTable.keys = keys
  induction keys generalizing bpm with
  | nil => exact books
  | cons key rest ih => exact ih (flush_page_unsafe_books books key)

theorem flush_all_books (books : Books reserved bpm guards)
    (flushed : bpm.flushAllPages = some after) : Books reserved after guards := by
  unfold BufferPoolManager.flushAllPages at flushed
  generalize bpm.pageTable.entries = entries at flushed
  induction entries generalizing bpm with
  | nil =>
      simp only [List.foldlM_nil, Option.pure_def, Option.some.injEq] at flushed
      exact flushed ▸ books
  | cons entry rest ih =>
      simp only [List.foldlM_cons, Option.bind_eq_bind, Option.bind_eq_some_iff] at flushed
      obtain ⟨middle, first, later⟩ := flushed
      exact ih (flush_latched_books books first) later

theorem delete_page_books [Zero Data] (books : Books none bpm guards) {answer : Bool}
    (deleted : bpm.deletePage pid = some (answer, after)) : Books none after guards :=
  books_of_records (delete_page_records (records_of_books books) deleted)

theorem take_frame_books [Zero Data] (books : Books none bpm guards)
    (taken : bpm.takeFrame = (some fid, after)) :
    Books (some fid) after guards ∧ after.frameToPage.lookup fid = none ∧ fid < after.numFrames ∧
      ∀ page, bpm.pageTable.lookup page = none → after.pageTable.lookup page = none := by
  obtain ⟨records, rest⟩ := take_frame_records (records_of_books books) taken
  exact ⟨books_of_records records, rest⟩

theorem pin_page_books [Zero Data] (books : Books none bpm guards)
    (pinned : bpm.pinPage pid = (some fid, after)) (samePage : guard.pageId = pid)
    (sameFrame : guard.frameId = fid) :
    Books none after (guard :: guards) :=
  books_of_records (pin_page_records (records_of_books books) pinned samePage sameFrame)

theorem pin_page_none [Zero Data] (books : Books none bpm guards)
    (refused : bpm.pinPage pid = (none, after)) : after = bpm :=
  pin_page_refused books.replacer refused

theorem latch_frame_books (books : Books reserved bpm guards)
    (latched : bpm.latchFrame kind fid = some after) : Books reserved after guards :=
  books_of_records (latch_frame_records (records_of_books books) latched)

/-- A dropped guard gives back its pin; the last one makes its frame evictable. -/
theorem drop_guard_books {rest : List PageGuard} (books : Books none bpm guards)
    (same : guards.Perm (guard :: rest)) : Books none (bpm.dropGuard guard) rest := by
  have unlatched :=
    unlatch_frame_records (records_perm (records_of_books books) same) guard.kind guard.frameId
  rw [BufferPoolManager.drop_guard_parts]
  exact books_of_records (settle_frame_records (unpin_frame_records unlatched))

theorem new_books [Zero Data] (numFrames : Nat) (disk : DiskManager Data) :
    Books none (BufferPoolManager.new numFrames disk) [] :=
  books_of_records (new_records numFrames disk _)

theorem checked_page_books [Zero Data] (books : Books none bpm guards) {answer : Option PageGuard}
    (checked : bpm.checkedPage kind name pid = some (answer, after)) :
    Books none after (answer.toList ++ guards) := by
  unfold BufferPoolManager.checkedPage at checked
  split at checked
  · rename_i middle pinned
    obtain ⟨rfl, rfl⟩ := Prod.mk.inj (Option.some.inj checked)
    exact pin_page_none books pinned ▸ books
  · rename_i frame middle pinned
    obtain ⟨latched, latch, shape⟩ := Option.map_eq_some_iff.mp checked
    obtain ⟨rfl, rfl⟩ := Prod.mk.inj shape
    exact latch_frame_books (pin_page_books books pinned rfl rfl) latch

theorem checked_page_nullopt [Zero Data] (books : Books none bpm guards)
    (checked : bpm.checkedPage kind name pid = some (none, after)) : after = bpm := by
  unfold BufferPoolManager.checkedPage at checked
  split at checked
  · rename_i middle pinned
    obtain ⟨_, rfl⟩ := Prod.mk.inj (Option.some.inj checked)
    exact pin_page_none books pinned
  · obtain ⟨_, _, shape⟩ := Option.map_eq_some_iff.mp checked
    simp at shape

end Books

section Clients
variable {client after : Client Data}

theorem drop_named_books {name : Nat} (books : Books none client.bpm client.guards) :
    Books none (client.dropNamed name).bpm (client.dropNamed name).guards := by
  unfold Client.dropNamed
  split
  · exact books
  · rename_i guard found
    exact drop_guard_books books (guards_perm found)

theorem rename_books {bpm : BufferPoolManager Data} {guards : List PageGuard}
    (books : Books none bpm guards) {rename : PageGuard → PageGuard}
    (sameFrame : ∀ guard, (rename guard).frameId = guard.frameId)
    (samePage : ∀ guard, (rename guard).pageId = guard.pageId) :
    Books none bpm (guards.map rename) := by
  refine ⟨books.inverse, books.inPool, books.freeUnique, books.freeExact,
      books.replacer, books.alive, ?_, ?_⟩
  · intro fid
    rw [books.pins, pinsOn, pinsOn, List.countP_map]
    exact List.countP_congr fun guard _ => by simp [sameFrame]
  · intro guard member
    obtain ⟨old, inside, rfl⟩ := List.mem_map.mp member
    rw [sameFrame, samePage]
    exact books.guarded old inside

theorem move_named_books {source target : Nat} (books : Books none client.bpm client.guards) :
    Books none (client.moveNamed source target).bpm (client.moveNamed source target).guards := by
  unfold Client.moveNamed
  split
  · exact books
  · exact rename_books (drop_named_books books) (fun guard => by split <;> rfl)
      fun guard => by split <;> rfl

/-- What every record says about the others, in the source's own fields. -/
structure Bookkeeping (client : Client Data) : Prop where
  mutuallyInverse : ∀ pid fid, client.bpm.pageTable.lookup pid = some fid ↔
    client.bpm.frameToPage.lookup fid = some pid
  mappedInPool : ∀ fid, (client.bpm.frameToPage.lookup fid).isSome → fid < client.bpm.numFrames
  freeFrames : ∀ fid, client.bpm.freeFrames.count fid =
    if fid < client.bpm.numFrames ∧ client.bpm.frameToPage.lookup fid = none then 1 else 0
  aliveFrames : ∀ fid, client.bpm.replacer.mru.toList.count fid +
    client.bpm.replacer.mfu.toList.count fid =
    if (client.bpm.frameToPage.lookup fid).isSome then 1 else 0
  alivePages : ∀ fid, (client.bpm.replacer.aliveMap fid).map (fun status => status.pageId) =
    client.bpm.frameToPage.lookup fid
  evictable : ∀ fid status, client.bpm.replacer.aliveMap fid = some status →
    (status.evictable = true ↔ (client.bpm.frames fid).pinCount = 0)
  pinCounts : ∀ fid, (client.bpm.frames fid).pinCount = pinsOn client.guards fid
  guardedPages : ∀ guard ∈ client.guards,
    client.bpm.frameToPage.lookup guard.frameId = some guard.pageId

theorem alive_map_mapped (books : Books none client.bpm client.guards) (fid : FrameId) :
    (client.bpm.replacer.aliveMap fid).map (fun status => (status.pageId, status.evictable)) =
      (client.bpm.frameToPage.lookup fid).map
        fun pid => (pid, decide ((client.bpm.frames fid).pinCount = 0)) :=
  books.alive fid

theorem bookkeeping_of_books (books : Books none client.bpm client.guards) :
    Bookkeeping client := by
  refine ⟨books.inverse, ?_, ?_, ?_, ?_, ?_, books.pins, books.guarded⟩
  · intro fid mapped
    obtain ⟨pid, mapped⟩ := Option.isSome_iff_exists.mp mapped
    exact books.inPool fid pid mapped
  · intro fid
    rw [List.Nodup.count books.freeUnique]
    simp [books.freeExact]
  · intro fid
    have alive := alive_map_mapped books fid
    rw [List.Nodup.count books.replacer.mru.unique, List.Nodup.count books.replacer.mfu.unique,
      if_congr (ArcReplacer.lists_mem books.replacer.mru) rfl rfl,
      if_congr (ArcReplacer.lists_mem books.replacer.mfu) rfl rfl]
    cases found : client.bpm.replacer.aliveMap fid with
    | none =>
        rw [found] at alive
        have unmapped : client.bpm.frameToPage.lookup fid = none := by simpa using alive.symm
        simp [unmapped]
    | some status =>
        rw [found] at alive
        obtain ⟨pid, mapped, _⟩ := Option.map_eq_some_iff.mp alive.symm
        rcases books.replacer.side fid status found with side | side <;> simp [mapped, side]
  · intro fid
    have alive := congrArg (Option.map Prod.fst) (alive_map_mapped books fid)
    simpa [Function.comp_def] using alive
  · intro fid status found
    have alive := alive_map_mapped books fid
    rw [found] at alive
    obtain ⟨pid, _, same⟩ := Option.map_eq_some_iff.mp alive.symm
    rw [← (Prod.mk.inj same).2]
    exact decide_eq_true_iff

section Runs
variable [Zero Data]

theorem acquire_books {kind : GuardKind} {name : Nat} {pid : PageId}
    (books : Books none client.bpm client.guards)
    (acquired : client.acquire kind name pid = some after) :
    Books none after.bpm after.guards := by
  unfold Client.acquire at acquired
  split at acquired
  · cases acquired
  · obtain ⟨⟨answer, bpm⟩, checked, rfl⟩ := Option.map_eq_some_iff.mp acquired
    exact checked_page_books books checked

theorem step_books {op : PoolOp Data} (books : Books none client.bpm client.guards)
    (stepped : client.step op = some after) : Books none after.bpm after.guards := by
  cases op with
  | newPage =>
      obtain rfl := Option.some.inj stepped
      exact books_congr books rfl rfl rfl rfl rfl fun _ => rfl
  | checkedReadPage pid name => exact acquire_books books stepped
  | checkedWritePage pid name => exact acquire_books books stepped
  | write name data =>
      simp only [Client.step] at stepped
      split at stepped
      · split at stepped
        · obtain rfl := Option.some.inj stepped
          exact books_congr books rfl rfl rfl rfl rfl (update_same FrameHeader.pinCount (by rfl))
        · cases stepped
      · cases stepped
  | guardFlush name =>
      simp only [Client.step] at stepped
      split at stepped
      · obtain rfl := Option.some.inj stepped
        exact flush_frame_books books
      · cases stepped
  | drop name =>
      obtain rfl := Option.some.inj stepped
      exact drop_named_books books
  | move source target =>
      obtain rfl := Option.some.inj stepped
      exact move_named_books books
  | flushPage pid =>
      obtain ⟨⟨answer, bpm⟩, flushed, rfl⟩ := Option.map_eq_some_iff.mp stepped
      unfold BufferPoolManager.flushPage at flushed
      split at flushed
      · obtain ⟨_, rfl⟩ := Prod.mk.inj (Option.some.inj flushed)
        exact books
      · obtain ⟨bpm, latched, shape⟩ := Option.map_eq_some_iff.mp flushed
        obtain ⟨_, rfl⟩ := Prod.mk.inj shape
        exact flush_latched_books books latched
  | flushPageUnsafe pid =>
      obtain rfl := Option.some.inj stepped
      exact flush_page_unsafe_books books pid
  | flushAllPages =>
      obtain ⟨bpm, flushed, rfl⟩ := Option.map_eq_some_iff.mp stepped
      exact flush_all_books books flushed
  | flushAllPagesUnsafe =>
      obtain rfl := Option.some.inj stepped
      exact flush_all_unsafe_books books
  | deletePage pid =>
      obtain ⟨⟨answer, bpm⟩, deleted, rfl⟩ := Option.map_eq_some_iff.mp stepped
      exact delete_page_books books deleted

/-- The states of one thread that opens a pool of `numFrames` frames on a file. -/
def Reached (numFrames : Nat) (file : Nat → Data) : Client Data → Prop :=
  Reachable (· = Client.start numFrames (DiskManager.new file)) (graph Client.step)

theorem reached_books {numFrames : Nat} {file : Nat → Data}
    (reached : Reached numFrames file client) :
    Books none client.bpm client.guards := by
  refine reachable_preserves (fun client => Books none client.bpm client.guards) ?_ ?_ reached
  · rintro _ rfl
    exact new_books numFrames _
  · intro before label after books stepped
    exact step_books books stepped

/-- The records agree in every state one thread reaches, and a page that does
not fit into the pool leaves every one of them as it was. -/
theorem bookkeeping_on_every_run {numFrames : Nat} {file : Nat → Data}
    (reached : Reached numFrames file client) :
    Bookkeeping client ∧
      ∀ kind name pid after, client.bpm.checkedPage kind name pid = some (none, after) →
        after = client.bpm :=
  ⟨bookkeeping_of_books (reached_books reached),
    fun _ _ _ _ checked => checked_page_nullopt (reached_books reached) checked⟩

/-- One frame: a page is written, given back and evicted by another, which
stays pinned. -/
def oneFrameRun : List (PoolOp Nat) :=
  [.newPage, .checkedWritePage 0 0, .write 0 7, .drop 0, .checkedReadPage 1 1, .move 1 2]

theorem one_frame_run_returns :
    (oneFrameRun.foldlM Client.step (Client.start 1 (DiskManager.new fun _ => 0))).isSome =
      true := by
  decide

theorem one_frame_bookkeeping :
    Bookkeeping ((oneFrameRun.foldlM Client.step
      (Client.start 1 (DiskManager.new fun _ => 0))).get one_frame_run_returns) :=
  (bookkeeping_on_every_run ⟨_, oneFrameRun, rfl, run_of_fold (Option.some_get _).symm⟩).1

end Runs

end Clients

end BusTub.BufferBookkeeping
