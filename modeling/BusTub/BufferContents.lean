import BusTub.BufferBookkeeping

/-!
What the pages hold. Beside the pool stands what a caller knows: the bytes it
last wrote to each page and the pages it deleted. The pool agrees with the
caller as long as no write goes through a guard whose frame a flush has already
marked clean, no page is read for the first time from the slot of a deleted one,
and the file stays below 2 GiB.
-/

namespace BusTub.BufferContents

open BusTub.TransitionSystem BusTub.BufferBookkeeping
open Function (update)

variable {Data : Type}

section Contents
variable {initial : Nat → Data} {written : PageId → Option Data} {deleted : PageId → Bool}
  {reserved : Option FrameId} {guards : List PageGuard} {bpm after : BufferPoolManager Data}
  {fid : FrameId} {pid : PageId} {kind : GuardKind}

/-- The bytes a page should have: the last ones written to it, or else what its
slot held when the pool was opened. -/
def expected (initial : Nat → Data) (written : PageId → Option Data) (pid : PageId)
    (slot : Nat) : Data :=
  (written pid).getD (initial slot)

structure Contents (initial : Nat → Data) (written : PageId → Option Data) (deleted : PageId → Bool)
    (bpm : BufferPoolManager Data) : Prop where
  slots : DiskManager.Slots initial bpm.diskScheduler
  sized : DiskManager.Sized bpm.diskScheduler
  placed : ∀ fid pid, bpm.frameToPage.lookup fid = some pid →
    (bpm.diskScheduler.pages.lookup pid).isSome
  unplaced : ∀ pid, deleted pid = false → bpm.diskScheduler.pages.lookup pid = none →
    written pid = none
  inFrame : ∀ fid pid slot, bpm.frameToPage.lookup fid = some pid → deleted pid = false →
    bpm.diskScheduler.pages.lookup pid = some slot →
    (bpm.frames fid).data = expected initial written pid slot
  onDisk : ∀ pid slot, deleted pid = false → bpm.diskScheduler.pages.lookup pid = some slot →
    (∀ fid, bpm.frameToPage.lookup fid = some pid → (bpm.frames fid).isDirty = false) →
    bpm.diskScheduler.file slot = expected initial written pid slot

/-- Latches and pins are no contents, and a flag that is raised asks for less. -/
theorem contents_congr (contents : Contents initial written deleted bpm)
    (disk : after.diskScheduler = bpm.diskScheduler)
    (frameToPage : after.frameToPage = bpm.frameToPage)
    (data : ∀ fid, (after.frames fid).data = (bpm.frames fid).data)
    (dirty : ∀ fid, (after.frames fid).isDirty = false → (bpm.frames fid).isDirty = false) :
    Contents initial written deleted after where
  slots := by rw [disk]; exact contents.slots
  sized := by rw [disk]; exact contents.sized
  placed := by rw [disk, frameToPage]; exact contents.placed
  unplaced := by rw [disk]; exact contents.unplaced
  inFrame := by simp only [disk, frameToPage, data]; exact contents.inFrame
  onDisk := by
    rw [disk, frameToPage]
    intro pid slot alive found clean
    exact contents.onDisk pid slot alive found fun fid mapped => dirty fid (clean fid mapped)

/-- The disk after the bytes of a mapped frame went to the slot of its page. -/
theorem write_back (contents : Contents initial written deleted bpm)
    (mapped : bpm.frameToPage.lookup fid = some pid) :
    ∃ slot, bpm.diskScheduler.pages.lookup pid = some slot ∧
      DiskManager.Sized (bpm.diskScheduler.writePage pid (bpm.frames fid).data) ∧
      DiskManager.Slots initial (bpm.diskScheduler.writePage pid (bpm.frames fid).data) ∧
      (bpm.diskScheduler.writePage pid (bpm.frames fid).data).file =
        update bpm.diskScheduler.file slot (bpm.frames fid).data ∧
      (bpm.diskScheduler.writePage pid (bpm.frames fid).data).freeSlots =
        bpm.diskScheduler.freeSlots ∧
          ∀ page, (bpm.diskScheduler.writePage pid (bpm.frames fid).data).pages.lookup page =
        bpm.diskScheduler.pages.lookup page := by
  obtain ⟨slot, found⟩ := Option.isSome_iff_exists.mp (contents.placed fid pid mapped)
  exact ⟨slot, found, DiskManager.write_page_sized contents.sized found _,
    DiskManager.write_page_used contents.slots found _⟩

theorem flush_frame_contents (contents : Contents initial written deleted bpm)
    (mapped : bpm.frameToPage.lookup fid = some pid) :
    Contents initial written deleted (bpm.flushFrame pid fid) := by
  unfold BufferPoolManager.flushFrame
  dsimp only
  split
  · obtain ⟨slot, found, sized, slots, file, _, pages⟩ := write_back contents mapped
    refine ⟨slots, sized, ?_, ?_, ?_, ?_⟩
    · intro other page mappedOther
      dsimp only at mappedOther ⊢
      rw [pages]
      exact contents.placed other page mappedOther
    · intro page alive absent
      dsimp only at absent
      rw [pages] at absent
      exact contents.unplaced page alive absent
    · intro other page place mappedOther alive foundOther
      dsimp only at mappedOther foundOther ⊢
      rw [pages] at foundOther
      exact (update_same FrameHeader.data
        (by rfl) other).trans <| contents.inFrame other page place mappedOther alive foundOther
    · intro page place alive foundOther clean
      dsimp only at foundOther clean ⊢
      rw [pages] at foundOther
      rw [file]
      by_cases hit : page = pid
      · subst hit
        obtain rfl : slot = place := Option.some.inj (found.symm.trans foundOther)
        rw [Function.update_self]
        exact contents.inFrame fid page slot mapped alive found
      · have different : place ≠ slot := by
          rintro rfl
          exact hit (contents.slots.ofOnePage page pid place foundOther found)
        rw [Function.update_of_ne different]
        refine contents.onDisk page place alive foundOther fun other mappedOther => ?_
        have otherFrame : other ≠ fid := by
          rintro rfl
          rw [mapped] at mappedOther
          exact hit (Option.some.inj mappedOther).symm
        have unflagged := clean other mappedOther
        rwa [Function.update_of_ne otherFrame] at unflagged
  · exact contents

theorem flush_page_unsafe_contents (books : Books reserved bpm guards) (pid : PageId)
    (contents : Contents initial written deleted bpm) :
    Contents initial written deleted (bpm.flushPageUnsafe pid).2 := by
  unfold BufferPoolManager.flushPageUnsafe
  split
  · exact contents
  · rename_i frame found
    exact flush_frame_contents contents ((books.inverse _ _).mp found)

theorem flush_latched_contents (books : Books reserved bpm guards)
    (contents : Contents initial written deleted bpm)
    (flushed : bpm.flushLatched pid fid = some after) :
    Contents initial written deleted after := by
  simp only [BufferPoolManager.flushLatched, Option.bind_eq_bind, Option.bind_eq_some_iff,
    Option.some.injEq] at flushed
  obtain ⟨latch, _, rfl⟩ := flushed
  have locked : Contents initial written deleted { bpm with
      frames := update bpm.frames fid { bpm.frames fid with rwlatch := latch } } :=
    contents_congr contents rfl rfl (update_same FrameHeader.data (by rfl))
      fun other clean => (update_same FrameHeader.isDirty (by rfl) other).symm.trans clean
  have lockedBooks : Books reserved { bpm with
      frames := update bpm.frames fid { bpm.frames fid with rwlatch := latch } } guards :=
    books_congr books rfl rfl rfl rfl rfl (update_same FrameHeader.pinCount (by rfl))
  exact contents_congr (flush_page_unsafe_contents lockedBooks pid locked) rfl rfl
    (update_same FrameHeader.data (by rfl))
    fun other clean => (update_same FrameHeader.isDirty (by rfl) other).symm.trans clean

theorem flush_all_unsafe_contents (books : Books reserved bpm guards)
    (contents : Contents initial written deleted bpm) :
    Contents initial written deleted bpm.flushAllPagesUnsafe := by
  unfold BufferPoolManager.flushAllPagesUnsafe
  generalize bpm.pageTable.keys = keys
  induction keys generalizing bpm with
  | nil => exact contents
  | cons key rest ih =>
      exact ih (flush_page_unsafe_books books key) (flush_page_unsafe_contents books key contents)

theorem flush_all_contents (books : Books reserved bpm guards)
    (contents : Contents initial written deleted bpm) (flushed : bpm.flushAllPages = some after) :
    Contents initial written deleted after := by
  unfold BufferPoolManager.flushAllPages at flushed
  generalize bpm.pageTable.entries = entries at flushed
  induction entries generalizing bpm with
  | nil =>
      simp only [List.foldlM_nil, Option.pure_def, Option.some.injEq] at flushed
      exact flushed ▸ contents
  | cons entry rest ih =>
      simp only [List.foldlM_cons, Option.bind_eq_bind, Option.bind_eq_some_iff] at flushed
      obtain ⟨middle, first, later⟩ := flushed
      exact ih (flush_latched_books books first) (flush_latched_contents books contents first) later

/-- The victim's page keeps its bytes: they are in its slot when it is unmapped. -/
theorem unmap_victim_contents [Zero Data] (contents : Contents initial written deleted bpm)
    (mapped : bpm.frameToPage.lookup fid = some pid) :
    Contents initial written deleted (bpm.unmapVictim fid) ∧
      (bpm.unmapVictim fid).diskScheduler.freeSlots = bpm.diskScheduler.freeSlots ∧
      ∀ page, (bpm.unmapVictim fid).diskScheduler.pages.lookup page =
        bpm.diskScheduler.pages.lookup page := by
  have flushed := flush_frame_contents contents mapped
  -- the write-back of an eviction is a flush of the victim
  have flushedDisk : (bpm.flushFrame pid fid).diskScheduler =
      if (bpm.frames fid).isDirty then bpm.diskScheduler.writePage pid (bpm.frames fid).data
      else bpm.diskScheduler := by
    unfold BufferPoolManager.flushFrame
    dsimp only
    split <;> rfl
  have flushedTable : (bpm.flushFrame pid fid).frameToPage = bpm.frameToPage := by
    unfold BufferPoolManager.flushFrame
    dsimp only
    split <;> rfl
  have flushedFrames (other : FrameId) (different : other ≠ fid) :
      (bpm.flushFrame pid fid).frames other = bpm.frames other := by
    unfold BufferPoolManager.flushFrame
    dsimp only
    split
    · exact Function.update_of_ne different _ _
    · rfl
  have flushedClean : ((bpm.flushFrame pid fid).frames fid).isDirty = false := by
    unfold BufferPoolManager.flushFrame
    by_cases dirty : (bpm.frames fid).isDirty <;> simp [dirty]
  rw [BufferPoolManager.unmap_victim_mapped mapped, ← flushedDisk]
  refine ⟨⟨flushed.slots, flushed.sized, ?_, flushed.unplaced, ?_, ?_⟩, ?_⟩
  · intro other page left
    exact flushed.placed other page (flushedTable ▸ (lookup_erase_some left).2)
  · intro other page slot left alive found
    obtain ⟨different, mappedOther⟩ := lookup_erase_some left
    dsimp only
    rw [Function.update_of_ne different, ← flushedFrames other different]
    exact flushed.inFrame other page slot (flushedTable ▸ mappedOther) alive found
  · intro page slot alive found clean
    refine flushed.onDisk page slot alive found fun other mappedOther => ?_
    by_cases hit : other = fid
    · exact hit ▸ flushedClean
    · rw [flushedTable] at mappedOther
      have unflagged := clean other (by rwa [AList.lookup_erase_ne hit])
      dsimp only at unflagged
      rwa [Function.update_of_ne hit, ← flushedFrames other hit] at unflagged
  · rw [flushedDisk]
    split
    · obtain ⟨_, _, _, _, _, freeSlots, pages⟩ := write_back contents mapped
      exact ⟨freeSlots, pages⟩
    · exact ⟨rfl, fun _ => rfl⟩

theorem take_frame_contents [Zero Data] (books : Books none bpm guards)
    (contents : Contents initial written deleted bpm) (taken : bpm.takeFrame = (some fid, after)) :
    Contents initial written deleted after ∧
      after.diskScheduler.freeSlots = bpm.diskScheduler.freeSlots ∧
      ∀ page, after.diskScheduler.pages.lookup page = bpm.diskScheduler.pages.lookup page := by
  unfold BufferPoolManager.takeFrame at taken
  split at taken
  · obtain ⟨_, rfl⟩ := Prod.mk.inj taken
    exact ⟨contents_congr contents rfl rfl (fun _ => rfl) (fun _ clean => clean), rfl, fun _ => rfl⟩
  · split at taken
    · cases (Prod.mk.inj taken).1
    · rename_i frame replacer evicted
      obtain ⟨same, rfl⟩ := Prod.mk.inj taken
      obtain rfl := Option.some.inj same
      obtain ⟨⟨page, entry⟩, _, _⟩ := ArcReplacer.evict_some books.replacer evicted
      obtain ⟨held, mapped, _⟩ := Option.map_eq_some_iff.mp ((books.alive frame).symm.trans entry)
      have given : Contents initial written deleted { bpm with replacer := replacer } :=
        contents_congr contents rfl rfl (fun _ => rfl) (fun _ clean => clean)
      exact unmap_victim_contents given mapped

/-- What is read into a frame is what its page should hold, unless the page has
no slot yet and would get the slot of a deleted page. -/
theorem load_page_contents (books : Books (some fid) bpm guards)
    (contents : Contents initial written deleted bpm) (vacant : bpm.frameToPage.lookup fid = none)
    (absent : bpm.pageTable.lookup pid = none)
    (untouched : deleted pid = true ∨ bpm.diskScheduler.pages.lookup pid ≠ none ∨
      bpm.diskScheduler.freeSlots = [])
    (fits : bpm.diskScheduler.fits pid = true) :
    Contents initial written deleted (bpm.loadPage pid fid) := by
  unfold BufferPoolManager.loadPage
  obtain ⟨data, disk, read⟩ :
      ∃ data disk, bpm.diskScheduler.readPage pid (bpm.frames fid).data = (data, disk) :=
        ⟨_, _, rfl⟩
  rw [read]
  obtain ⟨offset, slots, sized, file, image, own, others, cause⟩ :=
    DiskManager.read_page_slots contents.slots contents.sized fits read
  have unmapped (other : FrameId) : bpm.frameToPage.lookup other ≠ some pid := by
    intro mapped
    rw [(books.inverse pid other).mpr mapped] at absent
    cases absent
  have bytes (alive : deleted pid = false) :
      bpm.diskScheduler.file offset = expected initial written pid offset := by
    rcases cause with had | ⟨had, fresh⟩
    · exact contents.onDisk pid offset alive had fun other mapped => absurd mapped (unmapped other)
    · rw [expected, contents.unplaced pid alive had]
      exact fresh (by simpa [alive, had] using untouched)
  have others' (other : FrameId) (page : PageId) (different : other ≠ fid)
    (found : (bpm.frameToPage.insert fid pid).lookup other = some page) :
    bpm.frameToPage.lookup other = some page ∧ page ≠ pid := by
    rw [AList.lookup_insert_ne different] at found
    exact ⟨found, fun hit => unmapped other (hit ▸ found)⟩
  refine ⟨slots, sized, ?_, ?_, ?_, ?_⟩
  · intro other page found
    dsimp only at found ⊢
    by_cases hit : other = fid
    · subst hit
      obtain rfl : pid = page := by simpa using found
      simp [own]
    · obtain ⟨mapped, different⟩ := others' other page hit found
      rw [others page different]
      exact contents.placed other page mapped
  · intro page alive noSlot
    dsimp only at noSlot
    by_cases hit : page = pid
    · rw [hit, own] at noSlot
      cases noSlot
    · rw [others page hit] at noSlot
      exact contents.unplaced page alive noSlot
  · intro other page slot found alive placed
    dsimp only at found placed ⊢
    by_cases hit : other = fid
    · subst hit
      obtain rfl : pid = page := by simpa using found
      obtain rfl : offset = slot := Option.some.inj (own.symm.trans placed)
      rw [Function.update_self, image]
      exact bytes alive
    · obtain ⟨mapped, different⟩ := others' other page hit found
      rw [others page different] at placed
      rw [Function.update_of_ne hit]
      exact contents.inFrame other page slot mapped alive placed
  · intro page slot alive placed clean
    dsimp only at placed clean ⊢
    rw [file]
    by_cases hit : page = pid
    · subst hit
      obtain rfl : offset = slot := Option.some.inj (own.symm.trans placed)
      exact bytes alive
    · rw [others page hit] at placed
      refine contents.onDisk page slot alive placed fun other mapped => ?_
      by_cases same : other = fid
      · rw [same, vacant] at mapped
        cases mapped
      · have unflagged := clean other (by rwa [AList.lookup_insert_ne same])
        rwa [Function.update_of_ne same] at unflagged

/-- A page may be read into memory: it has its own slot, or the next slot was
never used and leaves the file below 2 GiB. -/
def mayLoad (deleted : PageId → Bool) (bpm : BufferPoolManager Data) (pid : PageId) : Bool :=
  (deleted pid || (bpm.diskScheduler.pages.lookup pid).isSome ||
    bpm.diskScheduler.freeSlots.isEmpty) &&
    bpm.diskScheduler.fits pid

theorem may_load_iff : mayLoad deleted bpm pid = true ↔ (deleted pid = true ∨
    bpm.diskScheduler.pages.lookup pid ≠ none ∨ bpm.diskScheduler.freeSlots = []) ∧
      bpm.diskScheduler.fits pid = true := by
  simp [mayLoad, or_assoc, Option.ne_none_iff_isSome]

theorem pin_page_contents [Zero Data] (books : Books none bpm guards)
    (contents : Contents initial written deleted bpm) (allowed : mayLoad deleted bpm pid = true)
    {answer : Option FrameId} (pinned : bpm.pinPage pid = (answer, after)) :
    Contents initial written deleted after := by
  cases answer with
  | none => exact pin_page_none books pinned ▸ contents
  | some frame =>
      unfold BufferPoolManager.pinPage at pinned
      split at pinned
      · obtain ⟨_, rfl⟩ := Prod.mk.inj pinned
        exact contents_congr contents rfl rfl (update_same FrameHeader.data (by rfl))
          fun other clean => (update_same FrameHeader.isDirty (by rfl) other).symm.trans clean
      · rename_i absent
        split at pinned
        · cases (Prod.mk.inj pinned).1
        · rename_i taken taking
          obtain ⟨_, rfl⟩ := Prod.mk.inj pinned
          obtain ⟨takenBooks, vacant, _, stillAbsent⟩ := take_frame_books books taking
          obtain ⟨takenContents, freeSlots, pages⟩ := take_frame_contents books contents taking
          obtain ⟨untouched, fits⟩ := may_load_iff.mp allowed
          refine load_page_contents takenBooks takenContents vacant (stillAbsent pid absent) ?_ ?_
          · rwa [freeSlots, pages]
          · rwa [DiskManager.fits_congr freeSlots pages]

theorem latch_frame_contents (contents : Contents initial written deleted bpm)
    (latched : bpm.latchFrame kind fid = some after) : Contents initial written deleted after := by
  cases kind with
  | read =>
      simp only [BufferPoolManager.latchFrame, Option.bind_eq_bind, Option.bind_eq_some_iff,
        Option.some.injEq] at latched
      obtain ⟨latch, _, rfl⟩ := latched
      exact contents_congr contents rfl rfl (update_same FrameHeader.data (by rfl))
        fun other clean => (update_same FrameHeader.isDirty (by rfl) other).symm.trans clean
  | write =>
      simp only [BufferPoolManager.latchFrame, Option.bind_eq_bind, Option.bind_eq_some_iff,
        Option.some.injEq] at latched
      obtain ⟨latch, _, rfl⟩ := latched
      refine contents_congr contents rfl rfl (update_same FrameHeader.data (by rfl)) ?_
      intro other clean
      by_cases hit : other = fid
      · subst hit
        simp at clean
      · dsimp only at clean
        rwa [Function.update_of_ne hit] at clean

theorem checked_page_contents [Zero Data] (books : Books none bpm guards)
    (contents : Contents initial written deleted bpm) (allowed : mayLoad deleted bpm pid = true)
    {name : Nat} {answer : Option PageGuard}
    (checked : bpm.checkedPage kind name pid = some (answer, after)) :
    Contents initial written deleted after := by
  unfold BufferPoolManager.checkedPage at checked
  split at checked
  · rename_i middle pinned
    obtain ⟨_, rfl⟩ := Prod.mk.inj (Option.some.inj checked)
    exact pin_page_contents books contents allowed pinned
  · rename_i frame middle pinned
    obtain ⟨latched, latch, shape⟩ := Option.map_eq_some_iff.mp checked
    obtain ⟨_, rfl⟩ := Prod.mk.inj shape
    exact latch_frame_contents (pin_page_contents books contents allowed pinned) latch

/-- The deleted page is not spoken of any more; its slot is free. -/
theorem delete_disk_contents (contents : Contents initial written deleted bpm)
    (disk : after.diskScheduler = bpm.diskScheduler.deletePage pid)
    (mapped : ∀ other page, after.frameToPage.lookup other = some page →
      bpm.frameToPage.lookup other = some page ∧ page ≠ pid ∧ after.frames other = bpm.frames other)
    (kept : ∀ other page, page ≠ pid → bpm.frameToPage.lookup other = some page →
      after.frameToPage.lookup other = some page) :
    Contents initial written (update deleted pid true) after := by
  have alive {page : PageId} (undeleted : update deleted pid true page = false) :
      page ≠ pid ∧ deleted page = false := by
    by_cases hit : page = pid
    · subst hit
      simp at undeleted
    · exact ⟨hit, by rwa [Function.update_of_ne hit] at undeleted⟩
  have pages {page : PageId} (different : page ≠ pid) :
      (bpm.diskScheduler.deletePage pid).pages.lookup page =
        bpm.diskScheduler.pages.lookup page := by
    unfold DiskManager.deletePage
    split
    · rfl
    · exact AList.lookup_erase_ne different
  have file : (bpm.diskScheduler.deletePage pid).file = bpm.diskScheduler.file := by
    unfold DiskManager.deletePage
    split <;> rfl
  refine ⟨disk ▸ DiskManager.delete_page_slots contents.slots pid,
    disk ▸ DiskManager.delete_page_sized contents.sized pid, ?_, ?_, ?_, ?_⟩
  · intro other page found
    obtain ⟨before, different, _⟩ := mapped other page found
    rw [disk, pages different]
    exact contents.placed other page before
  · intro page undeleted noSlot
    obtain ⟨different, undeleted⟩ := alive undeleted
    rw [disk, pages different] at noSlot
    exact contents.unplaced page undeleted noSlot
  · intro other page slot found undeleted placed
    obtain ⟨before, different, same⟩ := mapped other page found
    rw [disk, pages different] at placed
    rw [same]
    exact contents.inFrame other page slot before (alive undeleted).2 placed
  · intro page slot undeleted placed clean
    obtain ⟨different, undeleted⟩ := alive undeleted
    rw [disk, pages different] at placed
    rw [disk, file]
    refine contents.onDisk page slot undeleted placed fun other before => ?_
    have still := kept other page different before
    have same := (mapped other page still).2.2
    rw [← same]
    exact clean other still

theorem delete_page_contents [Zero Data] (books : Books none bpm guards)
    (contents : Contents initial written deleted bpm) {answer : Bool}
    (done : bpm.deletePage pid = some (answer, after)) :
    Contents initial written (if answer then update deleted pid true else deleted) after := by
  unfold BufferPoolManager.deletePage at done
  split at done
  · rename_i absent
    obtain ⟨rfl, rfl⟩ := Prod.mk.inj (Option.some.inj done)
    refine delete_disk_contents contents rfl ?_ fun _ _ _ before => before
    intro other page found
    refine ⟨found, ?_, rfl⟩
    rintro rfl
    rw [(books.inverse _ _).mpr found] at absent
    cases absent
  · rename_i frame found
    split at done
    · obtain ⟨rfl, rfl⟩ := Prod.mk.inj (Option.some.inj done)
      exact contents
    · simp only [Option.bind_eq_bind, Option.bind_eq_some_iff, Option.some.injEq, Prod.mk.injEq]
        at done
      obtain ⟨replacer, _, rfl, rfl⟩ := done
      have mapped := (books.inverse _ _).mp found
      refine delete_disk_contents contents rfl ?_ ?_
      · intro other page left
        obtain ⟨different, before⟩ := lookup_erase_some left
        refine ⟨before, ?_, Function.update_of_ne different _ _⟩
        rintro rfl
        have same := (books.inverse _ _).mpr before
        rw [found] at same
        exact different (Option.some.inj same).symm
      · intro other page different before
        have otherFrame : other ≠ frame := by
          rintro rfl
          rw [mapped] at before
          exact different (Option.some.inj before).symm
        rwa [AList.lookup_erase_ne otherFrame]

theorem drop_guard_contents (contents : Contents initial written deleted bpm) (guard : PageGuard) :
    Contents initial written deleted (bpm.dropGuard guard) :=
  contents_congr contents rfl rfl (update_same FrameHeader.data (by rfl))
    fun other clean => (update_same FrameHeader.isDirty (by rfl) other).symm.trans clean

/-- A write through a guard reaches the frame of its page; the frame must still
be marked dirty, for nothing marks it again. -/
theorem write_contents (books : Books reserved bpm guards)
    (contents : Contents initial written deleted bpm)
    (mapped : bpm.frameToPage.lookup fid = some pid) (dirty : (bpm.frames fid).isDirty = true)
    (data : Data) :
    Contents initial (update written pid (some data)) deleted
      { bpm with frames := update bpm.frames fid { bpm.frames fid with data := data } } := by
  have samePage {other : FrameId} {page : PageId}
    (found : bpm.frameToPage.lookup other = some page) :
    other = fid ↔ page = pid := by
    constructor
    · rintro rfl
      rw [mapped] at found
      exact (Option.some.inj found).symm
    · rintro rfl
      have first := (books.inverse _ _).mpr found
      have second := (books.inverse _ _).mpr mapped
      rw [first] at second
      exact Option.some.inj second
  refine ⟨contents.slots, contents.sized, contents.placed, ?_, ?_, ?_⟩
  · intro page alive noSlot
    have different : page ≠ pid := by
      rintro rfl
      have slot := contents.placed fid page mapped
      rw [noSlot] at slot
      cases slot
    rw [Function.update_of_ne different]
    exact contents.unplaced page alive noSlot
  · intro other page slot found alive placed
    dsimp only at found placed ⊢
    by_cases hit : other = fid
    · rw [(samePage found).mp hit, hit]
      simp [expected]
    · rw [Function.update_of_ne hit, expected,
        Function.update_of_ne fun same => hit ((samePage found).mpr same)]
      exact contents.inFrame other page slot found alive placed
  · intro page slot alive placed clean
    dsimp only at placed clean ⊢
    by_cases hit : page = pid
    · subst hit
      have flag := clean fid mapped
      simp [dirty] at flag
    · rw [expected, Function.update_of_ne hit]
      refine contents.onDisk page slot alive placed fun other found => ?_
      exact (update_same FrameHeader.isDirty (by rfl) other).symm.trans (clean other found)

end Contents

/-- A thread with what it remembers of its pages. -/
structure History (Data : Type) where
  client : Client Data
  lastWritten : PageId → Option Data
  deleted : PageId → Bool

namespace History

variable [Zero Data]

def start (numFrames : Nat) (initial : Nat → Data) : History Data where
  client := Client.start numFrames (DiskManager.new initial)
  lastWritten := fun _ => none
  deleted := fun _ => false

def writes (history : History Data) : PoolOp Data → PageId → Option Data
  | .write name data =>
      match history.client.guard? name with
      | some guard => update history.lastWritten guard.pageId (some data)
      | none => history.lastWritten
  | _ => history.lastWritten

def deletes (history : History Data) : PoolOp Data → PageId → Bool
  | .deletePage pid =>
      match history.client.bpm.deletePage pid with
      | some (answer, _) => if answer then update history.deleted pid true else history.deleted
      | none => history.deleted
  | _ => history.deleted

def step (history : History Data) (op : PoolOp Data) : Option (History Data) :=
  (history.client.step op).map fun client =>
    { client := client, lastWritten := history.writes op, deleted := history.deletes op }

/-- Every guard shows the bytes last written to its page, or what the slot of
the page held in the beginning, unless the page was deleted. -/
def SeesLastWritten (initial : Nat → Data) (history : History Data) : Prop :=
  ∀ guard ∈ history.client.guards, history.deleted guard.pageId = false →
    ∃ slot, history.client.bpm.diskScheduler.pages.lookup guard.pageId = some slot ∧
      (history.client.bpm.frames guard.frameId).data =
        expected initial history.lastWritten guard.pageId slot

/-- A write goes to a frame that is marked dirty, and a page without a slot is
asked for only when no deleted page has left one and the file stays below 2 GiB. -/
def careful (history : History Data) : PoolOp Data → Bool
  | .write name _ =>
      match history.client.guard? name with
      | some guard => (history.client.bpm.frames guard.frameId).isDirty
      | none => true
  | .checkedReadPage pid _ => mayLoad history.deleted history.client.bpm pid
  | .checkedWritePage pid _ => mayLoad history.deleted history.client.bpm pid
  | _ => true

end History

section Runs
variable {initial : Nat → Data} {history after : History Data} {op : PoolOp Data}

structure Kept (initial : Nat → Data) (history : History Data) : Prop where
  books : Books none history.client.bpm history.client.guards
  contents : Contents initial history.lastWritten history.deleted history.client.bpm

theorem kept_sees (kept : Kept initial history) : history.SeesLastWritten initial := by
  intro guard member alive
  have mapped := kept.books.guarded guard member
  obtain ⟨slot, found⟩ := Option.isSome_iff_exists.mp (kept.contents.placed _ _ mapped)
  exact ⟨slot, found, kept.contents.inFrame _ _ slot mapped alive found⟩

theorem drop_named_contents {written : PageId → Option Data} {deleted : PageId → Bool}
    {client : Client Data} (contents : Contents initial written deleted client.bpm) (name : Nat) :
    Contents initial written deleted (client.dropNamed name).bpm := by
  unfold Client.dropNamed
  split
  · exact contents
  · exact drop_guard_contents contents _

section Steps
variable [Zero Data]

theorem start_kept (numFrames : Nat) (initial : Nat → Data) :
    Kept initial (History.start numFrames initial) where
  books := new_books numFrames _
  contents :=
    { slots := DiskManager.new_slots initial
      sized := DiskManager.new_sized initial
      placed := by simp [History.start, Client.start, BufferPoolManager.new]
      unplaced := by simp [History.start]
      inFrame := by simp [History.start, Client.start, BufferPoolManager.new]
      onDisk := by simp [History.start, Client.start, BufferPoolManager.new, DiskManager.new] }

theorem acquire_contents {written : PageId → Option Data} {deleted : PageId → Bool}
    {client acquired : Client Data} {kind : GuardKind} {name : Nat} {pid : PageId}
    (books : Books none client.bpm client.guards)
    (contents : Contents initial written deleted client.bpm)
    (allowed : mayLoad deleted client.bpm pid = true)
    (done : client.acquire kind name pid = some acquired) :
    Contents initial written deleted acquired.bpm := by
  unfold Client.acquire at done
  split at done
  · cases done
  · obtain ⟨⟨answer, bpm⟩, checked, rfl⟩ := Option.map_eq_some_iff.mp done
    exact checked_page_contents books contents allowed checked

theorem step_contents {client : Client Data} (kept : Kept initial history)
    (careful : history.careful op = true) (stepped : history.client.step op = some client) :
    Contents initial (history.writes op) (history.deletes op) client.bpm := by
  have books := kept.books
  have contents := kept.contents
  cases op with
  | newPage =>
      obtain rfl := Option.some.inj stepped
      exact contents_congr contents rfl rfl (fun _ => rfl) fun _ clean => clean
  | checkedReadPage pid name => exact acquire_contents books contents careful stepped
  | checkedWritePage pid name => exact acquire_contents books contents careful stepped
  | write name data =>
      simp only [Client.step] at stepped
      split at stepped
      · rename_i guard found
        split at stepped
        · obtain rfl := Option.some.inj stepped
          have member := List.mem_of_find?_eq_some found
          simp only [History.writes, found]
          have dirty : (history.client.bpm.frames guard.frameId).isDirty = true := by
            simpa [History.careful, found] using careful
          exact write_contents books contents (books.guarded guard member) dirty data
        · cases stepped
      · cases stepped
  | guardFlush name =>
      simp only [Client.step] at stepped
      split at stepped
      · rename_i guard found
        obtain rfl := Option.some.inj stepped
        exact flush_frame_contents contents (books.guarded guard (List.mem_of_find?_eq_some found))
      · cases stepped
  | drop name =>
      obtain rfl := Option.some.inj stepped
      exact drop_named_contents contents name
  | move source target =>
      obtain rfl := Option.some.inj stepped
      unfold Client.moveNamed
      split
      · exact contents
      · exact drop_named_contents contents target
  | flushPage pid =>
      obtain ⟨⟨answer, bpm⟩, flushed, rfl⟩ := Option.map_eq_some_iff.mp stepped
      unfold BufferPoolManager.flushPage at flushed
      split at flushed
      · obtain ⟨_, rfl⟩ := Prod.mk.inj (Option.some.inj flushed)
        exact contents
      · obtain ⟨bpm, latched, shape⟩ := Option.map_eq_some_iff.mp flushed
        obtain ⟨_, rfl⟩ := Prod.mk.inj shape
        exact flush_latched_contents books contents latched
  | flushPageUnsafe pid =>
      obtain rfl := Option.some.inj stepped
      exact flush_page_unsafe_contents books pid contents
  | flushAllPages =>
      obtain ⟨bpm, flushed, rfl⟩ := Option.map_eq_some_iff.mp stepped
      exact flush_all_contents books contents flushed
  | flushAllPagesUnsafe =>
      obtain rfl := Option.some.inj stepped
      exact flush_all_unsafe_contents books contents
  | deletePage pid =>
      obtain ⟨⟨answer, bpm⟩, done, rfl⟩ := Option.map_eq_some_iff.mp stepped
      simp only [History.deletes, done]
      exact delete_page_contents books contents done

theorem step_kept (kept : Kept initial history) (careful : history.careful op = true)
    (stepped : history.step op = some after) : Kept initial after := by
  obtain ⟨client, done, rfl⟩ := Option.map_eq_some_iff.mp stepped
  exact ⟨step_books kept.books done, step_contents kept careful done⟩

/-- No write is lost in a run whose steps are all careful. -/
theorem careful_runs_see_last_written {numFrames : Nat}
    (reached : Reachable (· = History.start numFrames initial)
      (guarded (fun history op => history.careful op) (graph History.step)) history) :
    history.SeesLastWritten initial := by
  refine kept_sees (reachable_preserves (Kept initial) ?_ ?_ reached)
  · rintro _ rfl
    exact start_kept numFrames initial
  · rintro before label after kept ⟨careful, stepped⟩
    exact step_kept kept careful stepped

def carefulRun : List (PoolOp Nat) :=
  [.newPage, .checkedWritePage 0 0, .write 0 7, .drop 0, .checkedReadPage 1 1, .drop 1,
    .checkedReadPage 0 2]

def runCareful (ops : List (PoolOp Nat)) : Option (History Nat) :=
  ops.foldlM (fun history op => if history.careful op then history.step op else none)
    (History.start 1 fun _ => 0)

theorem careful_run_returns : (runCareful carefulRun).isSome = true := by decide

theorem careful_run_sees_last_written :
    ((runCareful carefulRun).get careful_run_returns).SeesLastWritten fun _ => 0 :=
  careful_runs_see_last_written ⟨_, carefulRun, rfl, run_of_guarded_fold (Option.some_get _).symm⟩

/-- One frame: a page is written, flushed and written again under one guard,
evicted by another page and read again. -/
def lostWriteRun : List (PoolOp Nat) :=
  [.newPage, .checkedWritePage 0 0, .write 0 7, .guardFlush 0, .write 0 8, .drop 0,
    .checkedReadPage 1 1, .drop 1, .checkedReadPage 0 2]

/-- One frame: a flushed page is deleted and another page gets its slot. -/
def staleSlotRun : List (PoolOp Nat) :=
  [.newPage, .newPage, .checkedWritePage 0 0, .write 0 7, .guardFlush 0, .drop 0, .deletePage 0,
    .checkedReadPage 1 1]

def runAll (ops : List (PoolOp Nat)) : Option (History Nat) :=
  ops.foldlM History.step (History.start 1 fun _ => 0)

theorem lost_write_run_returns : (runAll lostWriteRun).isSome = true := by decide

theorem stale_slot_run_returns : (runAll staleSlotRun).isSome = true := by decide

theorem reached_by_run {ops : List (PoolOp Nat)} (returns : (runAll ops).isSome = true) :
    Reachable (· = History.start 1 fun _ => 0) (graph History.step) ((runAll ops).get returns) :=
  ⟨_, ops, rfl, run_of_fold (Option.some_get _).symm⟩

/-- The second write is lost: the flush between the two has marked the frame
clean, so the eviction drops it, and the page comes back with the first one. -/
theorem flush_under_guard_loses_write :
    ¬ ∀ history, Reachable (· = History.start 1 fun _ => 0) (graph History.step) history →
      history.SeesLastWritten fun _ => 0 := by
  intro claimed
  have guard : { name := 2, kind := GuardKind.read, pageId := 0, frameId := 0 } ∈
      ((runAll lostWriteRun).get lost_write_run_returns).client.guards := by decide
  obtain ⟨slot, _, same⟩ := claimed _ (reached_by_run lost_write_run_returns) _ guard (by decide)
  have last : ((runAll lostWriteRun).get lost_write_run_returns).lastWritten 0 = some 8 := by decide
  have shown : (((runAll lostWriteRun).get lost_write_run_returns).client.bpm.frames 0).data =
      7 := by
    decide
  rw [expected, last, shown] at same
  simp at same

/-- A page that was never written shows the bytes of a deleted one. -/
theorem deleted_slot_shows_through :
    ¬ ((runAll staleSlotRun).get stale_slot_run_returns).SeesLastWritten fun _ => 0 := by
  intro sees
  have guard : { name := 1, kind := GuardKind.read, pageId := 1, frameId := 0 } ∈
      ((runAll staleSlotRun).get stale_slot_run_returns).client.guards := by decide
  obtain ⟨slot, _, same⟩ := sees _ guard (by decide)
  have last : ((runAll staleSlotRun).get stale_slot_run_returns).lastWritten 1 = none := by decide
  have shown : (((runAll staleSlotRun).get stale_slot_run_returns).client.bpm.frames 0).data =
      7 := by
    decide
  rw [expected, last, shown] at same
  simp at same

end Steps

end Runs

end BusTub.BufferContents
