import BusTub.ArcReplacer
import Mathlib.Data.List.AList
import Mathlib.Tactic.IntervalCases

/-!
The disk manager of `storage/disk/disk_manager.cpp`. The file is modelled as
page images at byte offsets: every offset is a multiple of the page size, so
two images never overlap. `DiskScheduler` queues a request and its caller waits
on the future, so a scheduled request is the disk manager's function itself.
-/

namespace BusTub

def BUSTUB_PAGE_SIZE : Nat := 8192

def DEFAULT_DB_IO_SIZE : Nat := 16

/-- `unordered_map`: the iteration order is the order of the entries. -/
abbrev UnorderedMap (Key Value : Type) := AList (fun _ : Key => Value)

structure DiskManager (Data : Type) where
  file : Nat → Data
  pageCapacity : Nat
  pages : UnorderedMap PageId Nat
  freeSlots : List Nat

namespace DiskManager

variable {Data : Type}

/-- A manager just opened on a file: no page has a slot yet. -/
def new (file : Nat → Data) : DiskManager Data where
  file := file
  pageCapacity := DEFAULT_DB_IO_SIZE
  pages := ∅
  freeSlots := []

/-- `GetFileSize` returns an `int`: the size read back from 32 bits. -/
def getFileSize (disk : DiskManager Data) : Int :=
  (BitVec.ofNat 32 ((disk.pageCapacity + 1) * BUSTUB_PAGE_SIZE)).toInt

/-- The newest free slot is used first; otherwise the file grows. -/
def allocatePage (disk : DiskManager Data) : Nat × DiskManager Data :=
  match disk.freeSlots.getLast? with
  | some offset => (offset, { disk with freeSlots := disk.freeSlots.dropLast })
  | none =>
      let pageCapacity :=
        if disk.pages.keys.length + 1 ≥ disk.pageCapacity then disk.pageCapacity * 2
        else disk.pageCapacity
      (disk.pages.keys.length * BUSTUB_PAGE_SIZE, { disk with pageCapacity := pageCapacity })

/-- The slot both `WritePage` and `ReadPage` use. -/
def slotOf (disk : DiskManager Data) (pid : PageId) : Nat × DiskManager Data :=
  match disk.pages.lookup pid with
  | some offset => (offset, disk)
  | none => disk.allocatePage

def writePage (disk : DiskManager Data) (pid : PageId) (data : Data) : DiskManager Data :=
  let (offset, disk) := disk.slotOf pid
  { disk with
    file := Function.update disk.file offset data
    pages := disk.pages.insert pid offset }

/-- What `page_data` holds afterwards: an error that is logged leaves it as it
was, and the slot that was allocated is not entered. -/
def readPage (disk : DiskManager Data) (pid : PageId) (pageData : Data) : Data × DiskManager Data :=
  let (offset, disk) := disk.slotOf pid
  if disk.getFileSize < 0 then (pageData, disk)
  else if (offset : Int) > disk.getFileSize then (pageData, disk)
  else (disk.file offset, { disk with pages := disk.pages.insert pid offset })

def deletePage (disk : DiskManager Data) (pid : PageId) : DiskManager Data :=
  match disk.pages.lookup pid with
  | none => disk
  | some offset =>
      { disk with freeSlots := disk.freeSlots ++ [offset], pages := disk.pages.erase pid }

/-- The slots handed out so far are the first ones of the file; each belongs to
one page or is free, and no other slot was ever written. -/
structure Slots (initial : Nat → Data) (disk : DiskManager Data) : Prop where
  ofOnePage : ∀ pid other offset, disk.pages.lookup pid = some offset →
    disk.pages.lookup other = some offset → pid = other
  freeUnique : disk.freeSlots.Nodup
  notFree : ∀ pid offset, disk.pages.lookup pid = some offset → offset ∉ disk.freeSlots
  usedBelow : ∀ pid offset, disk.pages.lookup pid = some offset →
    offset < (disk.pages.keys.length + disk.freeSlots.length) * BUSTUB_PAGE_SIZE
  freeBelow : ∀ offset ∈ disk.freeSlots,
    offset < (disk.pages.keys.length + disk.freeSlots.length) * BUSTUB_PAGE_SIZE
  untouched : ∀ offset, (disk.pages.keys.length + disk.freeSlots.length) *
    BUSTUB_PAGE_SIZE ≤ offset → disk.file offset = initial offset

/-- The file stays below 2 GiB, and the slots handed out lie inside it. -/
structure Sized (disk : DiskManager Data) : Prop where
  capacity : ∃ doublings ≤ 13, disk.pageCapacity = DEFAULT_DB_IO_SIZE <<< doublings
  room : disk.pages.keys.length + disk.freeSlots.length < disk.pageCapacity

/-- A read or a write of the page leaves the file below 2 GiB: it needs no new
slot, or fewer than 131071 pages have one. -/
def fits (disk : DiskManager Data) (pid : PageId) : Bool :=
  (disk.pages.lookup pid).isSome || !disk.freeSlots.isEmpty || disk.pages.keys.length + 1 < 131072

section Slots
variable {initial : Nat → Data} {disk moved : DiskManager Data} {pid other : PageId} {offset : Nat}

theorem new_slots (initial : Nat → Data) : Slots initial (new initial) where
  ofOnePage := by simp [new]
  freeUnique := by simp [new]
  notFree := by simp [new]
  usedBelow := by simp [new]
  freeBelow := by simp [new]
  untouched := by simp [new]

theorem slots_write (slots : Slots initial disk) (used : disk.pages.lookup pid = some offset)
    (data : Data) :
    Slots initial { disk with file := Function.update disk.file offset data } where
  ofOnePage := slots.ofOnePage
  freeUnique := slots.freeUnique
  notFree := slots.notFree
  usedBelow := slots.usedBelow
  freeBelow := slots.freeBelow
  untouched := by
    intro place beyond
    have below := slots.usedBelow pid offset used
    dsimp only at beyond ⊢
    rw [Function.update_of_ne (by omega)]
    exact slots.untouched place beyond

theorem slots_keys_fresh (absent : disk.pages.lookup pid = none) :
    (disk.pages.insert pid offset).keys.length = disk.pages.keys.length + 1 := by
  have fresh : pid ∉ disk.pages.keys := fun member => AList.lookup_eq_none.mp absent member
  rw [AList.keys_insert, List.length_cons, List.erase_of_not_mem fresh]

theorem slots_keys_used {place : Nat} (used : disk.pages.lookup pid = some place) (offset : Nat) :
    (disk.pages.insert pid offset).keys.length = disk.pages.keys.length := by
  have member : pid ∈ disk.pages.keys := by
    rw [← AList.mem_keys, ← AList.lookup_isSome, used]
    rfl
  have positive := List.length_pos_of_mem member
  rw [AList.keys_insert, List.length_cons, List.length_erase_of_mem member]
  omega

/-- A page gets a slot of its own: a free one, or the first beyond the others. -/
theorem allocate_slots (slots : Slots initial disk) (absent : disk.pages.lookup pid = none)
    (allocated : disk.allocatePage = (offset, moved)) :
    Slots initial { moved with pages := moved.pages.insert pid offset } ∧
      moved.file = disk.file ∧ moved.pages = disk.pages := by
  unfold allocatePage at allocated
  cases free : disk.freeSlots.getLast? with
  | none =>
      have empty : disk.freeSlots = [] := List.getLast?_eq_none_iff.mp free
      simp only [free, Prod.mk.injEq] at allocated
      obtain ⟨rfl, rfl⟩ := allocated
      have page : 0 < BUSTUB_PAGE_SIZE := by decide
      have grown : (disk.pages.keys.length + 1 + disk.freeSlots.length) * BUSTUB_PAGE_SIZE =
          (disk.pages.keys.length + disk.freeSlots.length) * BUSTUB_PAGE_SIZE +
            BUSTUB_PAGE_SIZE := by
        rw [Nat.add_right_comm, Nat.succ_mul]
      refine ⟨⟨?_, slots.freeUnique, ?_, ?_, ?_, ?_⟩, rfl, rfl⟩
      · intro first second place foundFirst foundSecond
        dsimp only at foundFirst foundSecond
        have below := slots.usedBelow
        simp only [empty, List.length_nil, Nat.add_zero] at below
        by_cases hitFirst : first = pid <;> by_cases hitSecond : second = pid
        · rw [hitFirst, hitSecond]
        · subst hitFirst
          rw [AList.lookup_insert, Option.some.injEq] at foundFirst
          rw [AList.lookup_insert_ne hitSecond] at foundSecond
          have used := below second place foundSecond
          omega
        · subst hitSecond
          rw [AList.lookup_insert, Option.some.injEq] at foundSecond
          rw [AList.lookup_insert_ne hitFirst] at foundFirst
          have used := below first place foundFirst
          omega
        · rw [AList.lookup_insert_ne hitFirst] at foundFirst
          rw [AList.lookup_insert_ne hitSecond] at foundSecond
          exact slots.ofOnePage first second place foundFirst foundSecond
      · simp [empty]
      · intro page place found
        dsimp only at found ⊢
        rw [slots_keys_fresh absent, grown]
        by_cases hit : page = pid
        · subst hit
          rw [AList.lookup_insert, Option.some.injEq] at found
          rw [empty, List.length_nil, Nat.add_zero]
          omega
        · rw [AList.lookup_insert_ne hit] at found
          have used := slots.usedBelow page place found
          omega
      · simp [empty]
      · intro place beyond
        dsimp only at beyond ⊢
        rw [slots_keys_fresh absent, grown] at beyond
        exact slots.untouched place (by omega)
  | some last =>
      obtain ⟨front, split⟩ := List.getLast?_eq_some_iff.mp free
      simp only [free, Prod.mk.injEq] at allocated
      obtain ⟨rfl, rfl⟩ := allocated
      have unique := slots.freeUnique
      rw [split, List.nodup_append] at unique
      have inFront : last ∉ front := fun member => unique.2.2 last member last (by simp) rfl
      have lastFree : last ∈ disk.freeSlots := by simp [split]
      have total : (disk.pages.insert pid last).keys.length + disk.freeSlots.dropLast.length =
          disk.pages.keys.length + disk.freeSlots.length := by
        rw [slots_keys_fresh absent, split]
        simp only [List.dropLast_concat, List.length_append, List.length_singleton]
        omega
      have shorter {place : Nat} (member : place ∈ disk.freeSlots.dropLast) : place ∈
        disk.freeSlots :=
        (List.dropLast_subset _) member
      refine ⟨⟨?_, slots.freeUnique.sublist (List.dropLast_sublist _), ?_, ?_, ?_, ?_⟩, rfl, rfl⟩
      · intro first second place foundFirst foundSecond
        dsimp only at foundFirst foundSecond
        by_cases hitFirst : first = pid <;> by_cases hitSecond : second = pid
        · rw [hitFirst, hitSecond]
        · subst hitFirst
          rw [AList.lookup_insert, Option.some.injEq] at foundFirst
          rw [AList.lookup_insert_ne hitSecond] at foundSecond
          exact absurd (foundFirst ▸ lastFree) (slots.notFree second place foundSecond)
        · subst hitSecond
          rw [AList.lookup_insert, Option.some.injEq] at foundSecond
          rw [AList.lookup_insert_ne hitFirst] at foundFirst
          exact absurd (foundSecond ▸ lastFree) (slots.notFree first place foundFirst)
        · rw [AList.lookup_insert_ne hitFirst] at foundFirst
          rw [AList.lookup_insert_ne hitSecond] at foundSecond
          exact slots.ofOnePage first second place foundFirst foundSecond
      · intro page place found member
        dsimp only at found member
        by_cases hit : page = pid
        · subst hit
          rw [AList.lookup_insert, Option.some.injEq] at found
          rw [split, List.dropLast_concat, ← found] at member
          exact inFront member
        · rw [AList.lookup_insert_ne hit] at found
          exact slots.notFree page place found (shorter member)
      · intro page place found
        dsimp only at found ⊢
        rw [total]
        by_cases hit : page = pid
        · subst hit
          rw [AList.lookup_insert, Option.some.injEq] at found
          exact slots.freeBelow place (found ▸ lastFree)
        · rw [AList.lookup_insert_ne hit] at found
          exact slots.usedBelow page place found
      · intro place member
        dsimp only at member ⊢
        rw [total]
        exact slots.freeBelow place (shorter member)
      · intro place beyond
        dsimp only at beyond ⊢
        rw [total] at beyond
        exact slots.untouched place beyond

theorem lookup_insert_used (used : disk.pages.lookup pid = some offset) (page : PageId) :
    (disk.pages.insert pid offset).lookup page = disk.pages.lookup page := by
  by_cases hit : page = pid
  · subst hit
    simp [used]
  · rw [AList.lookup_insert_ne hit]

/-- The slot of a read or a write, entered for its page. -/
theorem slot_of_slots (slots : Slots initial disk) (slot : disk.slotOf pid = (offset, moved)) :
    Slots initial { moved with pages := moved.pages.insert pid offset } ∧
      moved.file = disk.file ∧ moved.pages = disk.pages ∧
      (disk.pages.lookup pid = some offset ∨ disk.pages.lookup pid = none ∧
        (disk.freeSlots = [] → disk.file offset = initial offset)) := by
  unfold slotOf at slot
  cases found : disk.pages.lookup pid with
  | some place =>
      simp only [found, Prod.mk.injEq] at slot
      obtain ⟨rfl, rfl⟩ := slot
      have same := lookup_insert_used found
      have keys := slots_keys_used found place
      refine ⟨⟨?_, slots.freeUnique, ?_, ?_, ?_, ?_⟩, rfl, rfl, Or.inl rfl⟩
      all_goals simp only [same, keys]
      · exact slots.ofOnePage
      · exact slots.notFree
      · exact slots.usedBelow
      · exact slots.freeBelow
      · exact slots.untouched
  | none =>
      simp only [found] at slot
      obtain ⟨entered, file, pages⟩ := allocate_slots slots found slot
      refine ⟨entered, file, pages, Or.inr ⟨rfl, ?_⟩⟩
      intro empty
      unfold allocatePage at slot
      simp only [empty, List.getLast?_nil, Prod.mk.injEq] at slot
      obtain ⟨rfl, _⟩ := slot
      exact slots.untouched _ (by simp [empty])

/-- A page that has a slot is written there and nowhere else. -/
theorem write_page_used (slots : Slots initial disk) (used : disk.pages.lookup pid = some offset)
    (data : Data) :
    Slots initial (disk.writePage pid data) ∧
      (disk.writePage pid data).file = Function.update disk.file offset data ∧
      (disk.writePage pid data).freeSlots = disk.freeSlots ∧
      ∀ page, (disk.writePage pid data).pages.lookup page = disk.pages.lookup page := by
  have slot : disk.slotOf pid = (offset, disk) := by simp [slotOf, used]
  have written : disk.writePage pid data =
      { disk with
        file := Function.update disk.file offset data
        pages := disk.pages.insert pid offset } := by
    simp only [writePage, slot]
  rw [written]
  have entered : (disk.pages.insert pid offset).lookup pid = some offset := by simp
  exact ⟨slots_write (slot_of_slots slots slot).1 entered data, rfl, rfl, lookup_insert_used used⟩

theorem capacity_small {doublings : Nat} (few : doublings ≤ 13) :
    DEFAULT_DB_IO_SIZE <<< doublings ≤ 131072 := by
  interval_cases doublings <;> decide

theorem sized_capacity (sized : Sized disk) : disk.pageCapacity ≤ 131072 := by
  obtain ⟨doublings, few, capacity⟩ := sized.capacity
  rw [capacity]
  exact capacity_small few

theorem capacity_doubled
    (capacity : ∃ doublings ≤ 13, disk.pageCapacity = DEFAULT_DB_IO_SIZE <<< doublings)
    (small : disk.pageCapacity < 131072) :
    ∃ doublings ≤ 13, disk.pageCapacity * 2 = DEFAULT_DB_IO_SIZE <<< doublings := by
  obtain ⟨doublings, few, same⟩ := capacity
  have fewer : doublings ≠ 13 := by
    rintro rfl
    have last : disk.pageCapacity = 131072 := same.trans (by decide)
    omega
  refine ⟨doublings + 1, by omega, ?_⟩
  rw [same, Nat.shiftLeft_succ, Nat.mul_comm]

theorem sized_file_size (sized : Sized disk) :
    disk.getFileSize = ((disk.pageCapacity + 1) * BUSTUB_PAGE_SIZE : Nat) := by
  have capacity := sized_capacity sized
  rw [getFileSize, BitVec.toInt_ofNat']
  unfold BUSTUB_PAGE_SIZE
  exact Int.bmod_eq_of_le (by omega) (by omega)

theorem fits_iff : disk.fits pid = true ↔
    (disk.pages.lookup pid = none → disk.freeSlots = [] → disk.pages.keys.length + 1 < 131072) := by
  cases used : disk.pages.lookup pid <;> cases free : disk.freeSlots <;> simp [fits, used, free]

theorem fits_congr (free : moved.freeSlots = disk.freeSlots)
    (pages : ∀ page, moved.pages.lookup page = disk.pages.lookup page) :
    moved.fits pid = disk.fits pid := by
  have sameKeys : moved.pages.keys.Perm disk.pages.keys := by
    rw [List.perm_ext_iff_of_nodup moved.pages.keys_nodup disk.pages.keys_nodup]
    intro page
    rw [← AList.mem_keys, ← AList.mem_keys, ← AList.lookup_isSome, ← AList.lookup_isSome, pages]
  rw [fits, fits, free, pages, sameKeys.length_eq]

theorem new_sized (initial : Nat → Data) : Sized (new initial) where
  capacity := ⟨0, by omega, rfl⟩
  room := by simp [new, DEFAULT_DB_IO_SIZE]

theorem write_page_sized (sized : Sized disk) (used : disk.pages.lookup pid = some offset)
    (data : Data) :
    Sized (disk.writePage pid data) := by
  have keys := slots_keys_used used offset
  have room := sized.room
  have slot : disk.slotOf pid = (offset, disk) := by simp [slotOf, used]
  simp only [writePage, slot]
  exact ⟨sized.capacity, by dsimp only; omega⟩

/-- A slot that fits is handed out inside the file. -/
theorem slot_of_sized (sized : Sized disk) (fits : disk.fits pid = true)
    (slot : disk.slotOf pid = (offset, moved)) :
    Sized { moved with pages := moved.pages.insert pid offset } := by
  have room := sized.room
  unfold slotOf at slot
  cases used : disk.pages.lookup pid with
  | some place =>
      simp only [used, Prod.mk.injEq] at slot
      obtain ⟨rfl, rfl⟩ := slot
      have keys := slots_keys_used used place
      exact ⟨sized.capacity, by dsimp only; omega⟩
  | none =>
      simp only [used] at slot
      have keys := @slots_keys_fresh Data disk pid offset used
      unfold allocatePage at slot
      cases free : disk.freeSlots.getLast? with
      | some last =>
          simp only [free, Prod.mk.injEq] at slot
          obtain ⟨rfl, rfl⟩ := slot
          have positive := List.length_pos_of_mem (List.mem_of_getLast? free)
          exact ⟨sized.capacity, by dsimp only; rw [List.length_dropLast]; omega⟩
      | none =>
          simp only [free, Prod.mk.injEq] at slot
          obtain ⟨rfl, rfl⟩ := slot
          have empty : disk.freeSlots = [] := List.getLast?_eq_none_iff.mp free
          have small := fits_iff.mp fits used empty
          rw [empty, List.length_nil] at room
          by_cases full : disk.pageCapacity ≤ disk.pages.keys.length + 1
          · have doubled := capacity_doubled sized.capacity (by omega)
            exact ⟨by
              simpa [full] using doubled, by
              simp only [ge_iff_le, full, if_true, empty, List.length_nil]; omega⟩
          · exact ⟨by simpa [full] using sized.capacity,
              by simp only [ge_iff_le, full, if_false, empty, List.length_nil]; omega⟩

/-- A read that fits comes through. -/
theorem read_page_slots (slots : Slots initial disk) (sized : Sized disk)
    (fits : disk.fits pid = true) {pageData data : Data}
    (read : disk.readPage pid pageData = (data, moved)) :
    ∃ offset, Slots initial moved ∧ Sized moved ∧ moved.file = disk.file ∧ data = disk.file offset ∧
      moved.pages.lookup pid = some offset ∧
      (∀ page, page ≠ pid → moved.pages.lookup page = disk.pages.lookup page) ∧
      (disk.pages.lookup pid = some offset ∨ disk.pages.lookup pid = none ∧
        (disk.freeSlots = [] → disk.file offset = initial offset)) := by
  obtain ⟨offset, placed, slot⟩ : ∃ offset placed, disk.slotOf pid = (offset, placed) := ⟨_, _, rfl⟩
  obtain ⟨entered, file, pages, cause⟩ := slot_of_slots slots slot
  have stays := slot_of_sized sized fits slot
  -- the slot lies in the file, whose size is not negative
  have fileSize : placed.getFileSize = ((placed.pageCapacity + 1) * BUSTUB_PAGE_SIZE : Nat) := by
    simpa [getFileSize] using sized_file_size stays
  have below := entered.usedBelow pid offset (by simp)
  have inside : offset < (placed.pageCapacity + 1) * BUSTUB_PAGE_SIZE :=
    Nat.lt_of_lt_of_le below (Nat.mul_le_mul_right _ (Nat.le_of_lt (Nat.lt_succ_of_lt stays.room)))
  have positive : ¬ placed.getFileSize < 0 := by omega
  have inFile : ¬ (offset : Int) > placed.getFileSize := by omega
  simp only [readPage, slot, positive, inFile, if_false] at read
  obtain ⟨rfl, rfl⟩ := Prod.mk.inj read
  refine ⟨offset, entered, stays, file, by rw [file], by simp, ?_, cause⟩
  intro page different
  dsimp only
  rw [AList.lookup_insert_ne different, pages]

theorem delete_page_sized (sized : Sized disk) (pid : PageId) : Sized (disk.deletePage pid) := by
  have room := sized.room
  unfold deletePage
  cases found : disk.pages.lookup pid with
  | none => exact sized
  | some offset =>
      have member : pid ∈ disk.pages.keys := by
        rw [← AList.mem_keys, ← AList.lookup_isSome, found]
        rfl
      have positive := List.length_pos_of_mem member
      refine ⟨sized.capacity, ?_⟩
      dsimp only
      rw [AList.keys_erase, List.length_erase_of_mem member, List.length_append,
        List.length_singleton]
      omega

theorem delete_page_slots (slots : Slots initial disk) (pid : PageId) :
    Slots initial (disk.deletePage pid) := by
  unfold deletePage
  cases found : disk.pages.lookup pid with
  | none => exact slots
  | some offset =>
      have member : pid ∈ disk.pages.keys := by
        rw [← AList.mem_keys, ← AList.lookup_isSome, found]
        rfl
      have positive := List.length_pos_of_mem member
      have total : (disk.pages.erase pid).keys.length + (disk.freeSlots ++ [offset]).length =
          disk.pages.keys.length + disk.freeSlots.length := by
        rw [AList.keys_erase, List.length_erase_of_mem member, List.length_append,
          List.length_singleton]
        omega
      have kept {page : PageId} {place : Nat}
        (left : (disk.pages.erase pid).lookup page = some place) :
        page ≠ pid ∧ disk.pages.lookup page = some place := by
        by_cases hit : page = pid
        · subst hit
          simp at left
        · exact ⟨hit, by rwa [AList.lookup_erase_ne hit] at left⟩
      constructor
      · intro first second place foundFirst foundSecond
        exact slots.ofOnePage first second place (kept foundFirst).2 (kept foundSecond).2
      · refine List.nodup_append.mpr ⟨slots.freeUnique, by simp, ?_⟩
        intro place free single same
        rintro rfl
        rw [List.mem_singleton.mp same] at free
        exact slots.notFree pid offset found free
      · intro page place left
        dsimp only
        rw [List.mem_append, List.mem_singleton]
        rintro (free | same)
        · exact slots.notFree page place (kept left).2 free
        · subst same
          exact (kept left).1 (slots.ofOnePage page pid place (kept left).2 found)
      · intro page place left
        dsimp only
        rw [total]
        exact slots.usedBelow page place (kept left).2
      · intro place free
        dsimp only at free ⊢
        rw [total]
        rcases List.mem_append.mp free with old | same
        · exact slots.freeBelow place old
        · rw [List.mem_singleton.mp same]
          exact slots.usedBelow pid offset found
      · intro place beyond
        dsimp only at beyond ⊢
        rw [total] at beyond
        exact slots.untouched place beyond

end Slots

end DiskManager

end BusTub
