import BusTub.DiskManager
import BusTub.TransitionSystem

/-!
The disk manager over the bytes of its file, with the arithmetic of the source:
offsets and capacities are of `size_t`, `GetFileSize` answers an `int`. As long as
the file stays below 2 GiB it hands out slots as `DiskManager` does, keeps the
pages apart and gives every page back as it was written last.
-/

namespace BusTub.DiskRoundTrip

open TransitionSystem

def sizeT (value : Nat) : Nat := value % UInt64.size

structure File where
  size : Nat
  byte : Nat → UInt8

abbrev Page := Fin BUSTUB_PAGE_SIZE → UInt8

namespace File

def resize (file : File) (size : Nat) : File where
  size := size
  byte place := if place < file.size then file.byte place else 0

def write (file : File) (offset : Nat) (data : Page) : File where
  size := max file.size (offset + BUSTUB_PAGE_SIZE)
  byte place :=
    if inside : offset ≤ place ∧ place - offset < BUSTUB_PAGE_SIZE then
      data ⟨place - offset, inside.2⟩
    else if place < file.size then file.byte place
    else 0

/-- A read that hits the end of the file is filled up with zeros. -/
def read (file : File) (offset : Nat) : Page :=
  fun index => if offset + index < file.size then file.byte (offset + index) else 0

end File

structure Manager where
  db : File
  pageCapacity : Nat
  pages : UnorderedMap PageId Nat
  freeSlots : List Nat

namespace Manager

def opened (found : File) : Manager where
  db := found.resize ((DEFAULT_DB_IO_SIZE + 1) * BUSTUB_PAGE_SIZE)
  pageCapacity := DEFAULT_DB_IO_SIZE
  pages := ∅
  freeSlots := []

def getFileSize (disk : Manager) : Int := (BitVec.ofNat 32 disk.db.size).toInt

def grow (disk : Manager) : Manager :=
  if disk.pageCapacity ≤ sizeT (disk.pages.keys.length + 1) then
    let pageCapacity := sizeT (disk.pageCapacity * 2)
    { disk with
      pageCapacity := pageCapacity
      db := disk.db.resize (sizeT (sizeT (pageCapacity + 1) * BUSTUB_PAGE_SIZE)) }
  else disk

def allocatePage (disk : Manager) : Nat × Manager :=
  match disk.freeSlots.getLast? with
  | some offset => (offset, { disk with freeSlots := disk.freeSlots.dropLast })
  | none => (sizeT (disk.pages.keys.length * BUSTUB_PAGE_SIZE), disk.grow)

def slotOf (disk : Manager) (pid : PageId) : Nat × Manager :=
  match disk.pages.lookup pid with
  | some offset => (offset, disk)
  | none => disk.allocatePage

def writePage (disk : Manager) (pid : PageId) (data : Page) : Manager :=
  let (offset, disk) := disk.slotOf pid
  { disk with db := disk.db.write offset data, pages := disk.pages.insert pid offset }

/-- What `page_data` holds afterwards: an error leaves it as it was, and the slot
that was allocated is not entered. -/
def readPage (disk : Manager) (pid : PageId) (pageData : Page) : Page × Manager :=
  let (offset, disk) := disk.slotOf pid
  if disk.getFileSize < 0 ∨ disk.getFileSize < offset then (pageData, disk)
  else (disk.db.read offset, { disk with pages := disk.pages.insert pid offset })

def deletePage (disk : Manager) (pid : PageId) : Manager :=
  match disk.pages.lookup pid with
  | none => disk
  | some offset =>
      { disk with freeSlots := disk.freeSlots ++ [offset], pages := disk.pages.erase pid }

end Manager

inductive Call where
  | writePage (pid : PageId) (data : Page)
  | readPage (pid : PageId) (pageData : Page)
  | deletePage (pid : PageId)

/-- The manager, and what was written last to each page since it was last deleted. -/
structure History where
  disk : Manager
  lastWritten : PageId → Option Page

namespace History

def opened (found : File) : History := ⟨Manager.opened found, fun _ => none⟩

def step (history : History) : Call → History
  | .writePage pid data =>
    ⟨history.disk.writePage pid data, Function.update history.lastWritten pid (some data)⟩
  | .readPage pid pageData => ⟨(history.disk.readPage pid pageData).2, history.lastWritten⟩
  | .deletePage pid => ⟨history.disk.deletePage pid, Function.update history.lastWritten pid none⟩

/-- Slots of pages and free slots are pages of the file, all of them apart. -/
structure SlotsApart (disk : Manager) : Prop where
  ofOnePage : ∀ pid other offset, disk.pages.lookup pid = some offset →
    disk.pages.lookup other = some offset → pid = other
  notFree : ∀ pid offset, disk.pages.lookup pid = some offset → offset ∉ disk.freeSlots
  freeUnique : disk.freeSlots.Nodup
  usedInside : ∀ pid offset, disk.pages.lookup pid = some offset →
    BUSTUB_PAGE_SIZE ∣ offset ∧ offset + BUSTUB_PAGE_SIZE ≤ disk.db.size
  freeInside : ∀ offset ∈ disk.freeSlots, BUSTUB_PAGE_SIZE ∣ offset ∧
    offset + BUSTUB_PAGE_SIZE ≤ disk.db.size

/-- The numbers that the next call computes are the ones meant. -/
structure Exact (disk : Manager) : Prop where
  count : sizeT (disk.pages.keys.length + 1) = disk.pages.keys.length + 1
  offset : sizeT (disk.pages.keys.length * BUSTUB_PAGE_SIZE) = disk.pages.keys.length *
    BUSTUB_PAGE_SIZE
  capacity : sizeT (disk.pageCapacity * 2) = disk.pageCapacity * 2
  size : sizeT (sizeT (disk.pageCapacity * 2 + 1) * BUSTUB_PAGE_SIZE) =
    (disk.pageCapacity * 2 + 1) * BUSTUB_PAGE_SIZE
  fileSize : disk.getFileSize = disk.db.size

def ReadsBack (history : History) : Prop :=
  ∀ pid data pageData, history.lastWritten pid = some data →
    (history.disk.readPage pid pageData).1 = data

/-- The call leaves the file below 2 GiB: it needs no new slot, or fewer than
131071 pages have one. -/
def Small (history : History) : Call → Prop
  | .writePage pid _ | .readPage pid _ =>
      history.disk.pages.lookup pid = none → history.disk.freeSlots = [] →
        history.disk.pages.keys.length + 1 < 131072
  | .deletePage _ => True

end History

/-! ### Bytes -/

namespace File

theorem read_resize (file : File) {size : Nat} (larger : file.size ≤ size) (offset : Nat) :
    (file.resize size).read offset = file.read offset := by
  funext index
  by_cases inside : offset + index < file.size
  · simp [read, resize, inside, Nat.lt_of_lt_of_le inside larger]
  · simp [read, resize, inside]

theorem read_written (file : File) (offset : Nat) (data : Page) :
    (file.write offset data).read offset = data := by
  funext index
  have below := index.isLt
  have inside : offset ≤ offset + index ∧ offset + index - offset < BUSTUB_PAGE_SIZE := by omega
  simp only [read, write, inside, ↓reduceIte, show offset + ↑index < max file.size
    (offset + BUSTUB_PAGE_SIZE) by omega]
  simp

/-- Pages at other multiples of the page size are not touched. -/
theorem read_apart (file : File) {offset other : Nat} (data : Page)
    (aligned : BUSTUB_PAGE_SIZE ∣ offset) (aligned' : BUSTUB_PAGE_SIZE ∣ other)
    (apart : offset ≠ other) :
    (file.write offset data).read other = file.read other := by
  obtain ⟨place, rfl⟩ := aligned
  obtain ⟨place', rfl⟩ := aligned'
  funext index
  have below := index.isLt
  have outside : ¬ (BUSTUB_PAGE_SIZE * place ≤ BUSTUB_PAGE_SIZE * place' + index ∧
      BUSTUB_PAGE_SIZE * place' + index - BUSTUB_PAGE_SIZE * place < BUSTUB_PAGE_SIZE) := by
    unfold BUSTUB_PAGE_SIZE at *
    omega
  by_cases inside : BUSTUB_PAGE_SIZE * place' + index < file.size
  · simp only [read, write, outside, ↓reduceDIte, inside, ↓reduceIte,
      Nat.lt_of_lt_of_le inside (Nat.le_max_left _ _)]
  · simp only [read, write, outside, ↓reduceDIte, inside, ↓reduceIte, ite_self]

end File

/-! ### Slots -/

namespace Manager

def shape (disk : Manager) : DiskManager Unit :=
  ⟨fun _ => (), disk.pageCapacity, disk.pages, disk.freeSlots⟩

structure Sound (disk : Manager) : Prop where
  slots : DiskManager.Slots (fun _ => ()) disk.shape
  usedAligned : ∀ pid offset, disk.pages.lookup pid = some offset → BUSTUB_PAGE_SIZE ∣ offset
  freeAligned : ∀ offset ∈ disk.freeSlots, BUSTUB_PAGE_SIZE ∣ offset
  size : disk.db.size = (disk.pageCapacity + 1) * BUSTUB_PAGE_SIZE
  sized : DiskManager.Sized disk.shape

variable {disk moved : Manager} {pid : PageId} {offset : Nat}

theorem sound_capacity (sound : Sound disk) : disk.pageCapacity ≤ 131072 :=
  DiskManager.sized_capacity sound.sized

theorem sound_room (sound : Sound disk) :
    disk.pages.keys.length + disk.freeSlots.length < disk.pageCapacity :=
  sound.sized.room

theorem size_t_small {value : Nat} (small : value < 4294967296) : sizeT value = value :=
  Nat.mod_eq_of_lt (Nat.lt_trans small (by decide))

theorem sound_exact (sound : Sound disk) : History.Exact disk := by
  have capacity := sound_capacity sound
  have room := sound_room sound
  have size := sound.size
  unfold BUSTUB_PAGE_SIZE at size
  constructor
  · exact size_t_small (by omega)
  · exact size_t_small (by unfold BUSTUB_PAGE_SIZE; omega)
  · exact size_t_small (by omega)
  · have wide : sizeT (disk.pageCapacity * 2 + 1) = disk.pageCapacity * 2 + 1 :=
      size_t_small (by omega)
    rw [wide]
    exact size_t_small (by unfold BUSTUB_PAGE_SIZE; omega)
  · rw [getFileSize, size, BitVec.toInt_ofNat']
    exact Int.bmod_eq_of_le (by omega) (by omega)

theorem aligned_below {count : Nat} (aligned : BUSTUB_PAGE_SIZE ∣ offset)
    (below : offset < count * BUSTUB_PAGE_SIZE) :
    offset + BUSTUB_PAGE_SIZE ≤ count * BUSTUB_PAGE_SIZE := by
  obtain ⟨place, rfl⟩ := aligned
  unfold BUSTUB_PAGE_SIZE at *
  omega

theorem sound_apart (sound : Sound disk) : History.SlotsApart disk := by
  have room := sound_room sound
  have inside : ∀ offset, BUSTUB_PAGE_SIZE ∣ offset →
      offset < (disk.pages.keys.length + disk.freeSlots.length) * BUSTUB_PAGE_SIZE →
        offset + BUSTUB_PAGE_SIZE ≤ disk.db.size := by
    intro offset aligned below
    rw [sound.size]
    exact Nat.le_trans (aligned_below aligned below) (Nat.mul_le_mul_right _ (by omega))
  constructor
  · exact sound.slots.ofOnePage
  · exact sound.slots.notFree
  · exact sound.slots.freeUnique
  · intro pid offset used
    have aligned := sound.usedAligned pid offset used
    exact ⟨aligned, inside offset aligned (sound.slots.usedBelow pid offset used)⟩
  · intro offset free
    have aligned := sound.freeAligned offset free
    exact ⟨aligned, inside offset aligned (sound.slots.freeBelow offset free)⟩

theorem opened_sound (found : File) : Sound (opened found) where
  slots := DiskManager.new_slots _
  usedAligned := by simp [opened]
  freeAligned := by simp [opened]
  size := rfl
  sized := DiskManager.new_sized _

theorem grow_pages (disk : Manager) : disk.grow.pages = disk.pages ∧
    disk.grow.freeSlots = disk.freeSlots := by
  unfold grow
  split <;> exact ⟨rfl, rfl⟩

theorem shape_slot (sound : Sound disk) (slot : disk.slotOf pid = (offset, moved)) :
    disk.shape.slotOf pid = (offset, moved.shape) := by
  have exact := sound_exact sound
  unfold slotOf at slot
  cases used : disk.pages.lookup pid with
  | some place =>
      simp only [used, Prod.mk.injEq] at slot
      obtain ⟨rfl, rfl⟩ := slot
      simp [DiskManager.slotOf, shape, used]
  | none =>
      simp only [used] at slot
      unfold allocatePage at slot
      cases free : disk.freeSlots.getLast? with
      | some last =>
          simp only [free, Prod.mk.injEq] at slot
          obtain ⟨rfl, rfl⟩ := slot
          simp [DiskManager.slotOf, DiskManager.allocatePage, shape, used, free]
      | none =>
          simp only [free, Prod.mk.injEq] at slot
          obtain ⟨rfl, rfl⟩ := slot
          rw [exact.offset]
          by_cases full : disk.pageCapacity ≤ disk.pages.keys.length + 1 <;>
            simp [DiskManager.slotOf, DiskManager.allocatePage, shape, used, free, grow,
              exact.count, exact.capacity, full]

theorem grow_sound (sound : Sound disk) :
    disk.grow.db.size = (disk.grow.pageCapacity + 1) * BUSTUB_PAGE_SIZE ∧
      ∀ offset, disk.grow.db.read offset = disk.db.read offset := by
  have exact := sound_exact sound
  have room := sound_room sound
  have size := sound.size
  by_cases full : disk.pageCapacity ≤ disk.pages.keys.length + 1
  · have larger : disk.db.size ≤ (disk.pageCapacity * 2 + 1) * BUSTUB_PAGE_SIZE := by
      rw [size]
      exact Nat.mul_le_mul_right _ (by omega)
    rw [grow, if_pos (by rwa [exact.count])]
    dsimp only
    rw [exact.capacity, exact.size]
    exact ⟨rfl, File.read_resize _ larger⟩
  · rw [grow, if_neg (by rwa [exact.count])]
    exact ⟨size, fun _ => rfl⟩

theorem slot_sound (sound : Sound disk)
    (small : disk.pages.lookup pid = none → disk.freeSlots = [] →
      disk.pages.keys.length + 1 < 131072)
    (slot : disk.slotOf pid = (offset, moved)) :
    Sound { moved with pages := moved.pages.insert pid offset } ∧ moved.pages = disk.pages ∧
      ∀ place, moved.db.read place = disk.db.read place := by
  obtain ⟨slots, -, pages, -⟩ := DiskManager.slot_of_slots sound.slots (shape_slot sound slot)
  have sized :=
    DiskManager.slot_of_sized sound.sized (DiskManager.fits_iff.mpr small) (shape_slot sound slot)
  -- the other pages keep their slots
  have aligned (here : BUSTUB_PAGE_SIZE ∣ offset) : ∀ page place,
      (moved.pages.insert pid offset).lookup page = some place → BUSTUB_PAGE_SIZE ∣ place := by
    intro page place found
    by_cases hit : page = pid
    · subst hit
      obtain rfl : offset = place := by simpa using found
      exact here
    · rw [AList.lookup_insert_ne hit, show moved.pages = disk.pages from pages] at found
      exact sound.usedAligned page place found
  have exact := sound_exact sound
  unfold slotOf at slot
  cases used : disk.pages.lookup pid with
  | some place =>
      simp only [used, Prod.mk.injEq] at slot
      obtain ⟨rfl, rfl⟩ := slot
      exact ⟨⟨slots, aligned (sound.usedAligned pid place used), sound.freeAligned,
          sound.size, sized⟩, rfl, fun _ => rfl⟩
  | none =>
      simp only [used] at slot
      unfold allocatePage at slot
      cases free : disk.freeSlots.getLast? with
      | some last =>
          simp only [free, Prod.mk.injEq] at slot
          obtain ⟨rfl, rfl⟩ := slot
          have member : last ∈ disk.freeSlots := List.mem_of_getLast? free
          refine ⟨⟨slots, aligned (sound.freeAligned last member), fun place member => ?_,
              sound.size, sized⟩, rfl, fun _ => rfl⟩
          exact sound.freeAligned place (List.dropLast_subset _ member)
      | none =>
          simp only [free, Prod.mk.injEq] at slot
          obtain ⟨rfl, rfl⟩ := slot
          have empty : disk.freeSlots = [] := List.getLast?_eq_none_iff.mp free
          obtain ⟨size, reads⟩ := grow_sound sound
          obtain ⟨samePages, sameFree⟩ := grow_pages disk
          have here : BUSTUB_PAGE_SIZE ∣ sizeT (disk.pages.keys.length * BUSTUB_PAGE_SIZE) := by
            rw [exact.offset]
            exact Nat.dvd_mul_left _ _
          refine ⟨⟨slots, aligned here, ?_, size, sized⟩, samePages, reads⟩
          rw [sameFree]
          exact sound.freeAligned

theorem read_sound (sound : Sound disk)
    (small : disk.pages.lookup pid = none → disk.freeSlots = [] →
      disk.pages.keys.length + 1 < 131072)
    (slot : disk.slotOf pid = (offset, moved)) (pageData : Page) :
    disk.readPage pid pageData =
      (disk.db.read offset, { moved with pages := moved.pages.insert pid offset }) := by
  obtain ⟨entered, -, reads⟩ := slot_sound sound small slot
  have fileSize : moved.getFileSize = moved.db.size := (sound_exact entered).fileSize
  have inside : offset + BUSTUB_PAGE_SIZE ≤ moved.db.size :=
    ((sound_apart entered).usedInside pid offset (by simp)).2
  have fits : ¬ (moved.getFileSize < 0 ∨ moved.getFileSize < offset) := by omega
  simp only [readPage, slot, fits, ↓reduceIte, reads]

theorem write_sound (sound : Sound disk) (used : disk.pages.lookup pid = some offset)
    (data : Page) :
    Sound { disk with db := disk.db.write offset data } := by
  have inside := ((sound_apart sound).usedInside pid offset used).2
  have size : (disk.db.write offset data).size = disk.db.size := by
    simp only [File.write]
    omega
  exact ⟨sound.slots, sound.usedAligned, sound.freeAligned, size.trans sound.size, sound.sized⟩

theorem delete_sound (sound : Sound disk) (pid : PageId) : Sound (disk.deletePage pid) := by
  have slots := DiskManager.delete_page_slots sound.slots pid
  have sized := DiskManager.delete_page_sized sound.sized pid
  have same : (disk.deletePage pid).shape = disk.shape.deletePage pid := by
    unfold deletePage DiskManager.deletePage
    cases used : disk.pages.lookup pid <;> simp [shape, used]
  rw [← same] at slots sized
  unfold deletePage at slots sized ⊢
  cases used : disk.pages.lookup pid with
  | none => exact sound
  | some offset =>
      simp only [used] at slots sized ⊢
      refine ⟨slots, ?_, ?_, sound.size, sized⟩
      · intro page place left
        dsimp only at left
        by_cases hit : page = pid
        · subst hit
          simp at left
        · rw [AList.lookup_erase_ne hit] at left
          exact sound.usedAligned page place left
      · intro place free
        rcases List.mem_append.mp free with old | same
        · exact sound.freeAligned place old
        · rw [List.mem_singleton.mp same]
          exact sound.usedAligned pid offset used

theorem read_refused (size : disk.db.size = 262145 * BUSTUB_PAGE_SIZE) (pid : PageId)
    (pageData : Page) (roomy : sizeT (disk.pages.keys.length + 1) < disk.pageCapacity) :
    (disk.readPage pid pageData).1 = pageData := by
  obtain ⟨offset, moved, slot⟩ : ∃ offset moved, disk.slotOf pid = (offset, moved) := ⟨_, _, rfl⟩
  have same : moved.db = disk.db := by
    unfold slotOf at slot
    cases used : disk.pages.lookup pid with
    | some place =>
        simp only [used, Prod.mk.injEq] at slot
        rw [slot.2]
    | none =>
        simp only [used] at slot
        unfold allocatePage at slot
        cases free : disk.freeSlots.getLast? with
        | some last =>
            simp only [free, Prod.mk.injEq] at slot
            rw [← slot.2]
        | none =>
            simp only [free, Prod.mk.injEq] at slot
            rw [← slot.2, grow, if_neg (by omega)]
  have negative : moved.getFileSize < 0 := by
    rw [getFileSize, same, size]
    decide
  simp only [readPage, slot, negative, true_or, ↓reduceIte]

theorem grow_too_large (sound : Sound disk) (large : ¬ disk.pages.keys.length + 1 < 131072) :
    disk.pages.keys.length = 131071 ∧ disk.grow.db.size = 262145 * BUSTUB_PAGE_SIZE ∧
      disk.grow.pageCapacity = 262144 ∧ ∀ place, disk.grow.db.read place = disk.db.read place := by
  have exact := sound_exact sound
  have capacity := sound_capacity sound
  have room := sound_room sound
  have length : disk.pages.keys.length = 131071 := by omega
  have full : disk.pageCapacity = 131072 := by omega
  obtain ⟨size, reads⟩ := grow_sound sound
  have doubled : disk.grow.pageCapacity = 262144 := by
    rw [grow, if_pos (by rw [exact.count]; omega)]
    dsimp only
    rw [exact.capacity, full]
  exact ⟨length, by rw [size, doubled], doubled, reads⟩

end Manager

/-! ### Runs -/

namespace History

open Manager

variable {history : History}

structure Kept (history : History) : Prop where
  sound : Sound history.disk
  written : ∀ pid data, history.lastWritten pid = some data →
    ∃ offset, history.disk.pages.lookup pid = some offset ∧ history.disk.db.read offset = data

theorem step_kept (kept : Kept history) (call : Call) (small : Small history call) :
    Kept (history.step call) := by
  have sound := kept.sound
  cases call with
  | writePage pid data =>
      obtain ⟨offset, moved, slot⟩ : ∃ offset moved, history.disk.slotOf pid = (offset, moved) :=
        ⟨_, _, rfl⟩
      obtain ⟨entered, pages, reads⟩ := slot_sound sound small slot
      have written := write_sound entered (AList.lookup_insert _) data
      have same : (history.step (.writePage pid data)).disk =
          { moved with
            db := moved.db.write offset data
            pages := moved.pages.insert pid offset } := by
        simp only [step, writePage, slot]
      refine ⟨same ▸ written, fun page value last => ?_⟩
      rw [same]
      by_cases hit : page = pid
      · subst hit
        obtain rfl : data = value := by simpa [step] using last
        exact ⟨offset, by simp, File.read_written _ _ _⟩
      · have before : history.lastWritten page = some value := by simpa [step, hit] using last
        obtain ⟨place, used, shown⟩ := kept.written page value before
        have found : (moved.pages.insert pid offset).lookup page = some place := by
          rw [AList.lookup_insert_ne hit, pages, used]
        refine ⟨place, found, ?_⟩
        have apart : offset ≠ place := fun equal =>
          hit (entered.slots.ofOnePage page pid place found (equal ▸ AList.lookup_insert _))
        rw [File.read_apart _ _ (entered.usedAligned pid offset (AList.lookup_insert _))
          (entered.usedAligned page place found) apart, reads, shown]
  | readPage pid pageData =>
      obtain ⟨offset, moved, slot⟩ : ∃ offset moved, history.disk.slotOf pid = (offset, moved) :=
        ⟨_, _, rfl⟩
      obtain ⟨entered, pages, reads⟩ := slot_sound sound small slot
      have same : (history.step (.readPage pid pageData)).disk =
          { moved with pages := moved.pages.insert pid offset } := by
        simp only [step, read_sound sound small slot]
      refine ⟨same ▸ entered, fun page value last => ?_⟩
      obtain ⟨place, used, shown⟩ := kept.written page value last
      rw [same]
      refine ⟨place, ?_, by rw [reads, shown]⟩
      by_cases hit : page = pid
      · subst hit
        have here : history.disk.slotOf page = (place, history.disk) := by simp [slotOf, used]
        obtain ⟨rfl, -⟩ := Prod.mk.inj (slot.symm.trans here)
        simp
      · rw [AList.lookup_insert_ne hit, pages, used]
  | deletePage pid =>
      refine ⟨delete_sound sound pid, fun page value last => ?_⟩
      by_cases hit : page = pid
      · subst hit
        simp [step] at last
      · have before : history.lastWritten page = some value := by simpa [step, hit] using last
        obtain ⟨place, used, shown⟩ := kept.written page value before
        simp only [step, deletePage]
        cases found : history.disk.pages.lookup pid with
        | none => exact ⟨place, used, shown⟩
        | some offset => exact ⟨place, by simpa [AList.lookup_erase_ne hit] using used, shown⟩

theorem kept_reads_back (kept : Kept history) : ReadsBack history := by
  intro pid data pageData last
  obtain ⟨offset, used, shown⟩ := kept.written pid data last
  have slot : history.disk.slotOf pid = (offset, history.disk) := by simp [slotOf, used]
  rw [read_sound kept.sound (by simp [used]) slot pageData, shown]

theorem large_step_refuses (kept : Kept history) {call : Call} (large : ¬ Small history call)
    (pid : PageId)
    (pageData : Page) : ((history.step call).disk.readPage pid pageData).1 = pageData := by
  have slot {page : PageId} (absent : history.disk.pages.lookup page = none)
    (empty : history.disk.freeSlots = []) :
    history.disk.slotOf page =
      (sizeT (history.disk.pages.keys.length * BUSTUB_PAGE_SIZE), history.disk.grow) := by
    simp [slotOf, absent, allocatePage, empty]
  have samePages := (grow_pages history.disk).1
  cases call with
  | writePage page data =>
      simp only [Small, Classical.not_imp] at large
      obtain ⟨absent, empty, many⟩ := large
      obtain ⟨length, size, capacity, -⟩ := grow_too_large kept.sound many
      have keys := @DiskManager.slots_keys_fresh Unit history.disk.shape page
        (sizeT (history.disk.pages.keys.length * BUSTUB_PAGE_SIZE)) absent
      simp only [step, writePage, slot absent empty]
      apply read_refused
      · simp only [File.write, size, length]
        decide
      · dsimp only [shape] at keys ⊢
        rw [samePages, keys, length, capacity]
        decide
  | readPage page found =>
      simp only [Small, Classical.not_imp] at large
      obtain ⟨absent, empty, many⟩ := large
      obtain ⟨length, size, capacity, -⟩ := grow_too_large kept.sound many
      have negative : history.disk.grow.getFileSize < 0 := by
        rw [getFileSize, size]
        decide
      simp only [step, readPage, slot absent empty, negative, true_or, ↓reduceIte]
      apply read_refused size
      rw [samePages, length, capacity]
      decide
  | deletePage page => simp [Small] at large

/-- In every run of small calls the slots are apart and inside the file, the
numbers are exact and every written page is read back; and a call that is not
small leaves a manager that reads no page. -/
theorem pages_round_trip {found : File} (reached : Reachable (· = opened found)
      (guarded Small fun before call after => after = before.step call) history) :
    SlotsApart history.disk ∧ Exact history.disk ∧ ReadsBack history ∧
      ∀ call, ¬ Small history call →
        ∀ pid pageData, ((history.step call).disk.readPage pid pageData).1 = pageData := by
  have kept : Kept history := by
    refine reachable_preserves Kept ?_ ?_ reached
    · rintro _ rfl
      exact ⟨opened_sound found, by simp [opened]⟩
    · rintro before call _ kept ⟨small, rfl⟩
      exact step_kept kept call small
  exact ⟨sound_apart kept.sound, sound_exact kept.sound, kept_reads_back kept,
    fun call large => large_step_refuses kept large⟩

/-! A file that is filled page by page. -/

def emptyFile : File := ⟨0, fun _ => 0⟩

def onesPage : Page := fun _ => 1

def filled : Nat → History
  | 0 => opened emptyFile
  | count + 1 => (filled count).step (.writePage count onesPage)

theorem filled_spec {count : Nat} (few : count ≤ 131071) :
    Reachable (· = opened emptyFile) (guarded Small fun before call after =>
      after = before.step call)
      (filled count) ∧
      (filled count).disk.pages.keys.length = count ∧ (filled count).disk.freeSlots = [] ∧
        (∀ pid : PageId, (count : Int) ≤ pid → (filled count).disk.pages.lookup pid = none) ∧
          (0 < count → (filled count).lastWritten 0 = some onesPage) := by
  induction count with
  | zero =>
      exact ⟨reachable_start rfl, rfl, rfl,
        fun _ _ => by simp [filled, opened, Manager.opened], (by simp)⟩
  | succ count ih =>
      obtain ⟨reached, length, empty, fresh, first⟩ := ih (by omega)
      have absent := fresh (count : Int) (Int.le_refl _)
      have slot : (filled count).disk.slotOf (count : Int) =
          (sizeT ((filled count).disk.pages.keys.length * BUSTUB_PAGE_SIZE),
            (filled count).disk.grow) := by
        simp [slotOf, absent, allocatePage, empty]
      obtain ⟨samePages, sameFree⟩ := grow_pages (filled count).disk
      have pages : (filled (count + 1)).disk.pages = (filled count).disk.pages.insert (count : Int)
        (sizeT ((filled count).disk.pages.keys.length * BUSTUB_PAGE_SIZE)) := by
        simp only [filled, step, writePage, slot, samePages]
      have small : Small (filled count) (.writePage (count : Int) onesPage) := fun _ _ => by omega
      have keys := @DiskManager.slots_keys_fresh Unit (filled count).disk.shape (count : Int)
        (sizeT ((filled count).disk.pages.keys.length * BUSTUB_PAGE_SIZE)) absent
      refine ⟨reachable_step reached ⟨small, rfl⟩, ?_, ?_, ?_, ?_⟩
      · rw [pages]
        exact keys.trans (congrArg (· + 1) length)
      · simp only [filled, step, writePage, slot, sameFree, empty]
      · intro pid beyond
        have other : pid ≠ (count : Int) := by
          rintro rfl
          omega
        rw [pages, AList.lookup_insert_ne other]
        exact fresh pid (by push_cast at beyond; lia)
      · intro _
        by_cases zero : count = 0
        · subst zero
          simp [filled, step]
        · have before := first (by omega)
          simpa [filled, step,
            Function.update_of_ne (show (0 : PageId) ≠ (count : Int) by lia)] using before

theorem one_page_round_trip : SlotsApart (filled 1).disk ∧ Exact (filled 1).disk ∧
    ReadsBack (filled 1) ∧ ∀ call, ¬ Small (filled 1) call →
      ∀ pid pageData, (((filled 1).step call).disk.readPage pid pageData).1 = pageData :=
  pages_round_trip (filled_spec (by omega)).1

/-- The page with which the file grows to 2 GiB: the first page is not read any more. -/
theorem large_file_loses_pages : ¬ ∀ history,
    Reachable (· = opened emptyFile) (fun before call after => after = before.step call) history →
      ReadsBack history := by
  intro claimed
  obtain ⟨⟨start, calls, begun, run⟩, length, empty, fresh, first⟩ :=
    filled_spec (Nat.le_refl 131071)
  have kept : Kept (filled 131071) := by
    refine run_preserves ?_ run (by rw [begun]; exact ⟨opened_sound emptyFile, by simp [opened]⟩)
    rintro before call _ kept ⟨small, rfl⟩
    exact step_kept kept call small
  have large : ¬ Small (filled 131071) (.writePage 131071 onesPage) := by
    intro small
    have few := small (fresh 131071 (by decide)) empty
    omega
  have reached := reachable_step (show Reachable (· = opened emptyFile)
    (fun before (call : Call) after => after = before.step call) (filled 131071) from
      ⟨start, calls, begun, run_mono (fun _ _ _ step => step.2) run⟩)
    (show (filled 131071).step (.writePage 131071 onesPage) = (filled 131071).step
      (.writePage 131071 onesPage) from rfl)
  have last : ((filled 131071).step (.writePage 131071 onesPage)).lastWritten 0 =
      some onesPage := by
    simpa [step] using first (by omega)
  have read := claimed _ reached 0 onesPage (fun _ => 0) last
  rw [large_step_refuses kept large] at read
  exact absurd (congrFun read ⟨0, by decide⟩) (by decide)

end History

end BusTub.DiskRoundTrip
