import BusTub.BufferPool

/-!
The records that a buffer pool keeps of one fact, which page is in which frame
and how often it is pinned. A pin belongs to a guard, and the replacer may be
late: between the moment a drop gives its pin back and the moment it tells the
replacer, a frame without pins is not yet evictable. `reserved` is a frame
between `takeFrame` and `loadPage`: already off the free list, not yet mapped.
-/

namespace BusTub.BufferBookkeeping

open Function (update)

variable {Data : Type} {fid : FrameId} {guards : List PageGuard} {guard : PageGuard}

def pinsOn (guards : List PageGuard) (fid : FrameId) : Nat :=
  guards.countP fun guard => guard.frameId = fid

structure Records (reserved : Option FrameId) (bpm : BufferPoolManager Data)
    (guards : List PageGuard) (late : FrameId → Prop) : Prop where
  inverse : ∀ pid fid, bpm.pageTable.lookup pid = some fid ↔ bpm.frameToPage.lookup fid = some pid
  inPool : ∀ fid pid, bpm.frameToPage.lookup fid = some pid → fid < bpm.numFrames
  freeUnique : bpm.freeFrames.Nodup
  freeExact : ∀ fid, fid ∈ bpm.freeFrames ↔
    fid < bpm.numFrames ∧ bpm.frameToPage.lookup fid = none ∧ reserved ≠ some fid
  replacer : ArcReplacer.AliveInv bpm.replacer
  alive : ∀ fid, (bpm.replacer.entry fid).map Prod.fst = bpm.frameToPage.lookup fid
  evictable : ∀ fid pid, bpm.replacer.entry fid = some (pid, true) → (bpm.frames fid).pinCount = 0
  kept : ∀ fid pid, bpm.replacer.entry fid = some (pid, false) →
    (bpm.frames fid).pinCount ≠ 0 ∨ late fid
  pins : ∀ fid, (bpm.frames fid).pinCount = pinsOn guards fid
  guarded : ∀ guard ∈ guards, bpm.frameToPage.lookup guard.frameId = some guard.pageId

theorem update_same {Field : Type} (field : FrameHeader Data → Field)
    {frames : FrameId → FrameHeader Data} {frame : FrameHeader Data}
    (same : field frame = field (frames fid)) (other : FrameId) :
    field (update frames fid frame other) = field (frames other) := by
  by_cases hit : other = fid
  · subst hit
    simp [same]
  · rw [Function.update_of_ne hit]

theorem pins_on_cons (guard : PageGuard) (guards : List PageGuard) (fid : FrameId) :
    pinsOn (guard :: guards) fid = pinsOn guards fid + if guard.frameId = fid then 1 else 0 := by
  simp [pinsOn, List.countP_cons]

theorem pins_on_zero (none : pinsOn guards fid = 0) (member : guard ∈ guards) :
    guard.frameId ≠ fid := by
  intro here
  have counted := List.countP_eq_zero.mp none guard member
  simp [here] at counted

theorem lookup_erase_some {Key Value : Type} [DecidableEq Key] {map : UnorderedMap Key Value}
    {key other : Key} {value : Value} (found : (map.erase key).lookup other = some value) :
    other ≠ key ∧ map.lookup other = some value := by
  by_cases hit : other = key
  · subst hit
    simp at found
  · exact ⟨hit, by rwa [AList.lookup_erase_ne hit] at found⟩

theorem guards_perm {name : Nat}
    (found : guards.find? (fun guard => guard.name = name) = some guard) :
    guards.Perm (guard :: guards.eraseP fun guard => guard.name = name) := by
  induction guards with
  | nil => simp at found
  | cons first rest ih =>
      by_cases hit : first.name = name
      · simp only [List.find?_cons, hit, decide_true, Option.some.injEq] at found
        subst found
        rw [List.eraseP_cons_of_pos (by simpa using hit)]
      · simp only [List.find?_cons, hit, decide_false] at found
        rw [List.eraseP_cons_of_neg (by simpa using hit)]
        exact ((ih found).cons first).trans (List.Perm.swap _ _ _)

section Records
variable {reserved : Option FrameId} {bpm after : BufferPoolManager Data} {guards : List PageGuard}
  {late : FrameId → Prop} {fid : FrameId} {pid : PageId} {replacer : ArcReplacer}
  {frame : FrameHeader Data} {guard : PageGuard} {later : FrameId → Prop} {others : List PageGuard}

/-- What a call changes of a frame's bytes, its dirty flag or its latch, or of
the disk, no record sees. -/
theorem records_congr (records : Records reserved bpm guards late)
    (numFrames : after.numFrames = bpm.numFrames) (pageTable : after.pageTable = bpm.pageTable)
    (freeFrames : after.freeFrames = bpm.freeFrames) (replacer : after.replacer = bpm.replacer)
    (frameToPage : after.frameToPage = bpm.frameToPage)
    (pins : ∀ fid, (after.frames fid).pinCount = (bpm.frames fid).pinCount) :
    Records reserved after guards late := by
  constructor <;> simp only [numFrames, pageTable, freeFrames, replacer, frameToPage, pins]
  · exact records.inverse
  · exact records.inPool
  · exact records.freeUnique
  · exact records.freeExact
  · exact records.replacer
  · exact records.alive
  · exact records.evictable
  · exact records.kept
  · exact records.pins
  · exact records.guarded

theorem records_late (records : Records reserved bpm guards late)
    (more : ∀ fid, late fid → later fid) : Records reserved bpm guards later :=
  { records with kept := fun fid pid entry => (records.kept fid pid entry).imp_right (more fid) }

theorem records_perm (records : Records reserved bpm guards late)
    (same : guards.Perm others) : Records reserved bpm others late :=
  { records with
    pins := fun fid => (records.pins fid).trans (same.countP_eq _)
    guarded := fun guard member => records.guarded guard (same.mem_iff.mpr member) }

theorem records_mapped (records : Records reserved bpm guards late)
    (mapped : bpm.frameToPage.lookup fid = some pid) :
    ∃ flag, bpm.replacer.entry fid = some (pid, flag) := by
  obtain ⟨⟨page, flag⟩, entry, rfl⟩ := Option.map_eq_some_iff.mp ((records.alive fid).trans mapped)
  exact ⟨flag, entry⟩

theorem records_unmapped (records : Records reserved bpm guards late)
    (unmapped : bpm.frameToPage.lookup fid = none) :
    bpm.replacer.entry fid = none ∧ pinsOn guards fid = 0 := by
  constructor
  · exact Option.map_eq_none_iff.mp ((records.alive fid).trans unmapped)
  · rw [pinsOn, List.countP_eq_zero]
    intro guard member here
    have mapped := records.guarded guard member
    rw [of_decide_eq_true here, unmapped] at mapped
    cases mapped

/-- A frame of the page table and of the frame table goes out of both. -/
theorem records_unmap (records : Records reserved bpm guards late)
    (mapped : bpm.frameToPage.lookup fid = some pid) (otherPid : PageId) (otherFid : FrameId) :
    (bpm.pageTable.erase pid).lookup otherPid = some otherFid ↔
      (bpm.frameToPage.erase fid).lookup otherFid = some otherPid := by
  by_cases samePage : otherPid = pid
  · subst samePage
    by_cases sameFrame : otherFid = fid
    · subst sameFrame
      simp
    · rw [AList.lookup_erase, AList.lookup_erase_ne sameFrame, ← records.inverse,
        (records.inverse _ _).mpr mapped]
      simp [Ne.symm sameFrame]
  · by_cases sameFrame : otherFid = fid
    · subst sameFrame
      rw [AList.lookup_erase, AList.lookup_erase_ne samePage, records.inverse, mapped]
      simp [Ne.symm samePage]
    · rw [AList.lookup_erase_ne samePage, AList.lookup_erase_ne sameFrame]
      exact records.inverse otherPid otherFid

/-- An unpinned frame leaves the page table, the frame table and the replacer;
whoever takes it away says where it goes next. -/
theorem records_leave [Zero Data] (records : Records none bpm guards late)
    (mapped : bpm.frameToPage.lookup fid = some pid) (unpinned : (bpm.frames fid).pinCount = 0)
    (lists : ArcReplacer.AliveInv replacer)
    (entries : replacer.entry = update bpm.replacer.entry fid none) {free : List FrameId}
    (unique : free.Nodup) (exact : ∀ other, other ∈ free ↔ other < bpm.numFrames ∧
      (bpm.frameToPage.erase fid).lookup other = none ∧ reserved ≠ some other)
    (disk : DiskManager Data) :
    Records reserved
      { bpm with
        replacer := replacer
        pageTable := bpm.pageTable.erase pid
        frameToPage := bpm.frameToPage.erase fid
        freeFrames := free
        frames := update bpm.frames fid (BufferPoolManager.reset (bpm.frames fid))
        diskScheduler := disk } guards late := by
  have noGuard : pinsOn guards fid = 0 := by rw [← records.pins, unpinned]
  have left {other : FrameId} {page : PageId} {flag : Bool}
    (entry : replacer.entry other = some (page, flag)) :
    other ≠ fid ∧ bpm.replacer.entry other = some (page, flag) := by
    rw [entries] at entry
    by_cases hit : other = fid
    · simp [hit] at entry
    · exact ⟨hit, by rwa [Function.update_of_ne hit] at entry⟩
  constructor
  · exact records_unmap records mapped
  · intro other page found
    exact records.inPool other page (lookup_erase_some found).2
  · exact unique
  · exact exact
  · exact lists
  · intro other
    dsimp only
    rw [entries]
    by_cases hit : other = fid
    · subst hit
      simp
    · rw [Function.update_of_ne hit, AList.lookup_erase_ne hit]
      exact records.alive other
  · intro other page entry
    obtain ⟨hit, entry⟩ := left entry
    dsimp only
    rw [Function.update_of_ne hit]
    exact records.evictable other page entry
  · intro other page entry
    obtain ⟨hit, entry⟩ := left entry
    dsimp only
    rw [Function.update_of_ne hit]
    exact records.kept other page entry
  · intro other
    dsimp only
    by_cases hit : other = fid
    · subst hit
      simp [BufferPoolManager.reset, noGuard]
    · rw [Function.update_of_ne hit]
      exact records.pins other
  · intro guard member
    dsimp only
    rw [AList.lookup_erase_ne (pins_on_zero noGuard member)]
    exact records.guarded guard member

theorem delete_page_records [Zero Data] (records : Records none bpm guards late) {answer : Bool}
    (deleted : bpm.deletePage pid = some (answer, after)) : Records none after guards late := by
  unfold BufferPoolManager.deletePage at deleted
  split at deleted
  · simp only [Option.some.injEq, Prod.mk.injEq] at deleted
    obtain ⟨_, rfl⟩ := deleted
    exact records_congr records rfl rfl rfl rfl rfl fun _ => rfl
  · rename_i frame found
    split at deleted
    · simp only [Option.some.injEq, Prod.mk.injEq] at deleted
      exact deleted.2 ▸ records
    · rename_i pinned
      have mapped := (records.inverse _ _).mp found
      have unpinned : (bpm.frames frame).pinCount = 0 := by omega
      obtain ⟨replacer, removed, rest⟩ := Option.bind_eq_some_iff.mp deleted
      simp only [Option.some.injEq, Prod.mk.injEq] at rest
      obtain ⟨_, rfl⟩ := rest
      obtain ⟨flag, entry⟩ := records_mapped records mapped
      -- a frame that is not evictable would have failed the assertion of `Remove`
      obtain rfl : flag = true := by
        obtain ⟨status, alive, _, same⟩ := ArcReplacer.entry_eq_some.mp entry
        simp only [ArcReplacer.remove, alive] at removed
        split at removed
        · rename_i free
          exact same.symm.trans free
        · cases removed
      obtain ⟨replacer', removed', entries, lists⟩ :=
        ArcReplacer.remove_alive records.replacer entry
      obtain rfl : replacer' = replacer := Option.some.inj (removed'.symm.trans removed)
      have fresh : frame ∉ bpm.freeFrames := by
        rw [records.freeExact, mapped]
        simp
      refine records_leave records mapped unpinned lists entries ?_ ?_ _
      · exact List.nodup_append.mpr ⟨records.freeUnique, by simp, by
          intro left member right single same
          rw [List.mem_singleton.mp single] at same
          exact fresh (same ▸ member)⟩
      · intro other
        rw [List.mem_append, records.freeExact, List.mem_singleton]
        by_cases hit : other = frame
        · subst hit
          simp [records.inPool other pid mapped]
        · simp [AList.lookup_erase_ne hit, hit]

/-- The victim leaves every record and becomes the reserved frame. -/
theorem unmap_victim_records [Zero Data] (records : Records none bpm guards late)
    (evicted : bpm.replacer.evict = (some fid, replacer)) :
    Records (some fid) ({ bpm with replacer := replacer }.unmapVictim fid) guards late ∧
      ({ bpm with replacer := replacer }.unmapVictim fid).frameToPage.lookup fid = none ∧
      fid < ({ bpm with replacer := replacer }.unmapVictim fid).numFrames ∧
      ∀ page, bpm.pageTable.lookup page = none →
        ({ bpm with replacer := replacer }.unmapVictim fid).pageTable.lookup page = none := by
  obtain ⟨⟨held, entry⟩, entries, lists⟩ := ArcReplacer.evict_some records.replacer evicted
  have mapped : bpm.frameToPage.lookup fid = some held := by
    rw [← records.alive, entry]
    rfl
  have unpinned := records.evictable fid held entry
  have given : ({ bpm with replacer := replacer } : BufferPoolManager Data).frameToPage.lookup fid =
      some held := mapped
  rw [BufferPoolManager.unmap_victim_mapped given]
  refine ⟨?_, by simp, records.inPool fid held mapped, ?_⟩
  · refine records_leave records mapped unpinned lists entries records.freeUnique ?_ _
    intro other
    rw [records.freeExact]
    by_cases hit : other = fid
    · subst hit
      simp [mapped]
    · simp [AList.lookup_erase_ne hit, Ne.symm hit]
  · intro other absent
    dsimp only
    by_cases hit : other = held
    · subst hit
      simp
    · rwa [AList.lookup_erase_ne hit]

theorem take_frame_records [Zero Data] (records : Records none bpm guards late)
    (taken : bpm.takeFrame = (some fid, after)) :
    Records (some fid) after guards late ∧ after.frameToPage.lookup fid = none ∧
      fid < after.numFrames ∧ ∀ page, bpm.pageTable.lookup page = none →
      after.pageTable.lookup page = none := by
  unfold BufferPoolManager.takeFrame at taken
  cases free : bpm.freeFrames with
  | cons first rest =>
      simp only [free, Option.some.injEq, Prod.mk.injEq] at taken
      obtain ⟨rfl, rfl⟩ := taken
      have exact := (records.freeExact first).mp (by simp [free])
      have unique := records.freeUnique
      rw [free, List.nodup_cons] at unique
      refine ⟨⟨records.inverse, records.inPool, unique.2, ?_, records.replacer, records.alive,
          records.evictable, records.kept, records.pins, records.guarded⟩, exact.2.1, exact.1,
            fun _ absent => absent⟩
      intro other
      have before := records.freeExact other
      rw [free, List.mem_cons] at before
      dsimp only
      by_cases hit : other = first
      · subst hit
        simp [unique.1]
      · simp only [hit, false_or] at before
        rw [before]
        simp [Ne.symm hit]
  | nil =>
      simp only [free] at taken
      obtain ⟨answer, replacer, evicted⟩ : ∃ answer replacer, bpm.replacer.evict =
          (answer, replacer) :=
        ⟨_, _, rfl⟩
      cases answer with
      | none => simp [evicted] at taken
      | some frame =>
          simp only [evicted, Option.some.injEq, Prod.mk.injEq] at taken
          obtain ⟨rfl, rfl⟩ := taken
          have unmapped := unmap_victim_records records evicted
          simpa only [free] using unmapped

/-- Without a free frame and without a victim nothing has changed. -/
theorem take_frame_refused [Zero Data] (lists : ArcReplacer.AliveInv bpm.replacer)
    (refused : bpm.takeFrame = (none, after)) : after = bpm := by
  unfold BufferPoolManager.takeFrame at refused
  cases free : bpm.freeFrames with
  | cons first rest => simp [free] at refused
  | nil =>
      obtain ⟨answer, replacer, evicted⟩ : ∃ answer replacer, bpm.replacer.evict =
          (answer, replacer) :=
        ⟨_, _, rfl⟩
      cases answer with
      | some frame => simp [free, evicted] at refused
      | none =>
          simp only [free, evicted, Prod.mk.injEq, true_and] at refused
          obtain ⟨rfl, _⟩ := ArcReplacer.evict_none lists evicted
          rw [← refused, ← free]

/-- One frame gets a new pin count and a new flag. -/
theorem records_mark {flag : Bool} (records : Records reserved bpm guards late)
    (mapped : bpm.frameToPage.lookup fid = some pid) (lists : ArcReplacer.AliveInv replacer)
    (entries : replacer.entry = update bpm.replacer.entry fid (some (pid, flag)))
    (counts : ∀ other, (update bpm.frames fid frame other).pinCount = pinsOn others other)
    (guarded : ∀ guard ∈ others, bpm.frameToPage.lookup guard.frameId = some guard.pageId)
    (free : flag = true → frame.pinCount = 0) (kept : flag = false → frame.pinCount ≠ 0 ∨ later fid)
    (elsewhere : ∀ other, other ≠ fid → late other → later other) :
    Records reserved { bpm with frames := update bpm.frames fid frame, replacer := replacer }
      others later := by
  refine ⟨records.inverse, records.inPool, records.freeUnique, records.freeExact, lists, ?_, ?_, ?_,
    counts, guarded⟩
  · intro other
    dsimp only
    rw [entries]
    by_cases hit : other = fid
    · subst hit
      simp [mapped]
    · rw [Function.update_of_ne hit]
      exact records.alive other
  · intro other page entry
    dsimp only at entry ⊢
    rw [entries] at entry
    by_cases hit : other = fid
    · subst hit
      rw [Function.update_self, Option.some.injEq, Prod.mk.injEq] at entry
      rw [Function.update_self]
      exact free entry.2
    · rw [Function.update_of_ne hit] at entry ⊢
      exact records.evictable other page entry
  · intro other page entry
    dsimp only at entry ⊢
    rw [entries] at entry
    by_cases hit : other = fid
    · subst hit
      rw [Function.update_self, Option.some.injEq, Prod.mk.injEq] at entry
      rw [Function.update_self]
      exact kept entry.2
    · rw [Function.update_of_ne hit] at entry ⊢
      exact (records.kept other page entry).imp_right (elsewhere other hit)

/-- The reserved frame is mapped to the page that was read into it. -/
theorem load_page_records [Zero Data] (records : Records (some fid) bpm guards late)
    (unmapped : bpm.frameToPage.lookup fid = none) (absent : bpm.pageTable.lookup pid = none)
    (inside : fid < bpm.numFrames) (samePage : guard.pageId = pid)
    (sameFrame : guard.frameId = fid) :
    Records none (bpm.loadPage pid fid) (guard :: guards) late := by
  unfold BufferPoolManager.loadPage
  generalize bpm.diskScheduler.readPage pid (bpm.frames fid).data = read
  obtain ⟨data, disk⟩ := read
  obtain ⟨fresh, noGuard⟩ := records_unmapped records unmapped
  obtain ⟨recorded, recordedInv⟩ := ArcReplacer.record_access_new records.replacer pid fresh
  have entry : (bpm.replacer.recordAccess fid pid).entry fid = some (pid, false) := by
    simp [recorded]
  obtain ⟨entries, lists⟩ := ArcReplacer.set_evictable_alive recordedInv false entry
  constructor
  · intro otherPid otherFid
    dsimp only
    by_cases hitPage : otherPid = pid
    · subst hitPage
      by_cases hitFrame : otherFid = fid
      · subst hitFrame
        simp
      · rw [AList.lookup_insert, AList.lookup_insert_ne hitFrame, ← records.inverse, absent]
        simp [Ne.symm hitFrame]
    · by_cases hitFrame : otherFid = fid
      · subst hitFrame
        rw [AList.lookup_insert, AList.lookup_insert_ne hitPage, records.inverse, unmapped]
        simp [Ne.symm hitPage]
      · rw [AList.lookup_insert_ne hitPage, AList.lookup_insert_ne hitFrame]
        exact records.inverse otherPid otherFid
  · intro other page found
    by_cases hit : other = fid
    · exact hit ▸ inside
    · exact records.inPool other page (by rwa [AList.lookup_insert_ne hit] at found)
  · exact records.freeUnique
  · intro other
    dsimp only
    rw [records.freeExact]
    by_cases hit : other = fid
    · simp [hit]
    · simp [AList.lookup_insert_ne hit, Ne.symm hit]
  · exact lists
  · intro other
    dsimp only
    rw [entries, recorded]
    by_cases hit : other = fid
    · subst hit
      simp
    · simp only [Function.update_of_ne hit, AList.lookup_insert_ne hit]
      exact records.alive other
  · intro other page here
    dsimp only at here ⊢
    rw [entries, recorded] at here
    by_cases hit : other = fid
    · simp [hit] at here
    · simp only [Function.update_of_ne hit] at here ⊢
      exact records.evictable other page here
  · intro other page here
    dsimp only at here ⊢
    rw [entries, recorded] at here
    by_cases hit : other = fid
    · simp [hit]
    · simp only [Function.update_of_ne hit] at here ⊢
      exact records.kept other page here
  · intro other
    dsimp only
    rw [pins_on_cons]
    by_cases hit : other = fid
    · subst hit
      simp [sameFrame, noGuard]
    · simp [Function.update_of_ne hit, sameFrame, Ne.symm hit, records.pins other]
  · intro other member
    dsimp only
    rcases List.mem_cons.mp member with rfl | old
    · subst sameFrame
      simp [samePage]
    · rw [AList.lookup_insert_ne (pins_on_zero noGuard old)]
      exact records.guarded other old

theorem pin_page_records [Zero Data] (records : Records none bpm guards late)
    (pinned : bpm.pinPage pid = (some fid, after)) (samePage : guard.pageId = pid)
    (sameFrame : guard.frameId = fid) :
    Records none after (guard :: guards) late := by
  unfold BufferPoolManager.pinPage at pinned
  cases found : bpm.pageTable.lookup pid with
  | none =>
      simp only [found] at pinned
      obtain ⟨answer, middle, taken⟩ : ∃ answer middle, bpm.takeFrame = (answer, middle) :=
        ⟨_, _, rfl⟩
      cases answer with
      | none => simp [taken] at pinned
      | some frame =>
          simp only [taken, Prod.mk.injEq, Option.some.injEq] at pinned
          obtain ⟨rfl, rfl⟩ := pinned
          obtain ⟨middleRecords, unmapped, inside, absent⟩ := take_frame_records records taken
          exact load_page_records middleRecords unmapped (absent pid found) inside
            samePage sameFrame
  | some frame =>
      simp only [found, Option.some.injEq, Prod.mk.injEq] at pinned
      obtain ⟨rfl, rfl⟩ := pinned
      have mapped := (records.inverse _ _).mp found
      obtain ⟨flag, entry⟩ := records_mapped records mapped
      obtain ⟨entries, lists⟩ := ArcReplacer.set_evictable_alive records.replacer false entry
      have held : (bpm.replacer.setEvictable frame false).entry frame = some (pid, false) := by
        simp [entries]
      obtain ⟨recorded, recordedInv⟩ := ArcReplacer.record_access_alive lists pid held
      refine records_mark records mapped recordedInv (recorded.trans entries) ?_ ?_
        (by simp) (by simp)
        fun _ _ here => here
      · intro other
        rw [pins_on_cons]
        by_cases hit : other = frame
        · subst hit
          simp [sameFrame, records.pins]
        · simp [Function.update_of_ne hit, sameFrame, Ne.symm hit, records.pins other]
      · intro other member
        rcases List.mem_cons.mp member with rfl | old
        · rw [samePage, sameFrame]
          exact mapped
        · exact records.guarded other old

theorem pin_page_refused [Zero Data] (lists : ArcReplacer.AliveInv bpm.replacer)
    (refused : bpm.pinPage pid = (none, after)) : after = bpm := by
  unfold BufferPoolManager.pinPage at refused
  cases found : bpm.pageTable.lookup pid with
  | some frame => simp [found] at refused
  | none =>
      simp only [found] at refused
      obtain ⟨answer, middle, taken⟩ : ∃ answer middle, bpm.takeFrame = (answer, middle) :=
        ⟨_, _, rfl⟩
      cases answer with
      | some frame => simp [taken] at refused
      | none =>
          simp only [taken, Prod.mk.injEq, true_and] at refused
          rw [← refused]
          exact take_frame_refused lists taken

theorem unlatch_frame_records (records : Records reserved bpm guards late) (kind : GuardKind)
    (fid : FrameId) :
    Records reserved (bpm.unlatchFrame kind fid) guards late :=
  records_congr records rfl rfl rfl rfl rfl (update_same FrameHeader.pinCount (by rfl))

/-- A guard gives back its pin; until the replacer knows, its frame is late. -/
theorem unpin_frame_records (records : Records reserved bpm (guard :: guards) late) :
    Records reserved (bpm.unpinFrame guard.frameId) guards
      (fun fid => fid = guard.frameId ∨ late fid) := by
  have mapped := records.guarded guard List.mem_cons_self
  have own := records.pins guard.frameId
  rw [pins_on_cons, if_pos rfl] at own
  obtain ⟨flag, entry⟩ := records_mapped records mapped
  have same : bpm.replacer.entry =
      update bpm.replacer.entry guard.frameId (some (guard.pageId, flag)) := by
    rw [← entry, Function.update_eq_self]
  refine records_mark records mapped records.replacer same ?_ ?_ ?_ ?_ fun _ _ here => Or.inr here
  · intro other
    by_cases hit : other = guard.frameId
    · subst hit
      simp [own]
    · rw [Function.update_of_ne hit, records.pins, pins_on_cons, if_neg (Ne.symm hit)]
      rfl
  · exact fun other member => records.guarded other (List.mem_cons_of_mem _ member)
  · rintro rfl
    have unpinned := records.evictable _ _ entry
    omega
  · exact fun _ => Or.inr (Or.inl rfl)

/-- The latched part of a drop, whatever has happened to the frame meanwhile. -/
theorem settle_frame_records
    (records : Records reserved bpm guards (fun other => other = fid ∨ late other)) :
    Records reserved (bpm.settleFrame fid) guards late := by
  -- without the late drop only the frame itself needs another reason
  have others (settled : ∀ pid, bpm.replacer.entry fid = some (pid, false) →
      (bpm.frames fid).pinCount ≠ 0) :
      Records reserved bpm guards late := by
    refine { records with kept := fun other pid entry => ?_ }
    by_cases hit : other = fid
    · subst hit
      exact Or.inl (settled pid entry)
    · exact (records.kept other pid entry).imp_right fun here => here.resolve_left hit
  unfold BufferPoolManager.settleFrame
  split
  · rename_i unpinned
    cases mapped : bpm.frameToPage.lookup fid with
    | none =>
        have gone := (records_unmapped records mapped).1
        have same : bpm.replacer.setEvictable fid true = bpm.replacer := by
          have absent : bpm.replacer.aliveMap fid = none := Option.map_eq_none_iff.mp gone
          simp [ArcReplacer.setEvictable, absent]
        rw [same]
        exact others fun pid entry => by cases gone.symm.trans entry
    | some pid =>
        obtain ⟨flag, entry⟩ := records_mapped records mapped
        obtain ⟨entries, lists⟩ := ArcReplacer.set_evictable_alive records.replacer true entry
        have marked : Records reserved
          { bpm with
            frames := update bpm.frames fid (bpm.frames fid)
            replacer := bpm.replacer.setEvictable fid true } guards late := by
          apply records_mark records mapped lists entries
          · simpa using records.pins
          · exact records.guarded
          · exact fun _ => unpinned
          · rintro ⟨⟩
          · exact fun other hit here => here.resolve_left hit
        rwa [Function.update_eq_self] at marked
  · rename_i pinned
    exact others fun _ _ => pinned

theorem flush_frame_records (records : Records reserved bpm guards late) :
    Records reserved (bpm.flushFrame pid fid) guards late := by
  unfold BufferPoolManager.flushFrame
  dsimp only
  split
  · exact records_congr records rfl rfl rfl rfl rfl (update_same FrameHeader.pinCount (by rfl))
  · exact records

theorem latch_frame_records (records : Records reserved bpm guards late) {kind : GuardKind}
    (latched : bpm.latchFrame kind fid = some after) : Records reserved after guards late := by
  cases kind with
  | read =>
      simp only [BufferPoolManager.latchFrame, Option.bind_eq_bind, Option.bind_eq_some_iff,
        Option.some.injEq] at latched
      obtain ⟨latch, _, rfl⟩ := latched
      exact records_congr records rfl rfl rfl rfl rfl (update_same FrameHeader.pinCount (by rfl))
  | write =>
      simp only [BufferPoolManager.latchFrame, Option.bind_eq_bind, Option.bind_eq_some_iff,
        Option.some.injEq] at latched
      obtain ⟨latch, _, rfl⟩ := latched
      exact records_congr records rfl rfl rfl rfl rfl (update_same FrameHeader.pinCount (by rfl))

theorem new_records [Zero Data] (numFrames : Nat) (disk : DiskManager Data)
    (late : FrameId → Prop) :
    Records none (BufferPoolManager.new numFrames disk) [] late where
  inverse := by simp [BufferPoolManager.new]
  inPool := by simp [BufferPoolManager.new]
  freeUnique := List.nodup_range
  freeExact := by simp [BufferPoolManager.new]
  replacer := ArcReplacer.new_alive_inv numFrames
  alive := by simp [BufferPoolManager.new, ArcReplacer.new_entry]
  evictable := by simp [BufferPoolManager.new, ArcReplacer.new_entry]
  kept := by simp [BufferPoolManager.new, ArcReplacer.new_entry]
  pins := by simp [BufferPoolManager.new, pinsOn]
  guarded := by simp

end Records

end BusTub.BufferBookkeeping
