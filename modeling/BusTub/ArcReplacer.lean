import BusTub.StdList
import Mathlib.Logic.Function.Basic

/-!
The ARC replacer of `buffer/arc_replacer.cpp`. Alive frames stand in `mru` and
`mfu`, evicted pages in the two ghost lists; a status record keeps the iterator
of its node. The latch is left out: every function runs under it from its first
line to its last. `AccessType` is left out: no function reads it.
-/

namespace BusTub

abbrev FrameId := Nat
abbrev PageId := Int

inductive ArcStatus where
  | mru
  | mfu
  | mruGhost
  | mfuGhost
  deriving DecidableEq, Repr

/-- The iterators are singular, here zero, until the source assigns them. -/
structure FrameStatus where
  pageId : PageId
  frameId : FrameId
  evictable : Bool
  arcStatus : ArcStatus
  aliveIter : Nat := 0
  ghostIter : Nat := 0

structure ArcReplacer where
  mru : StdList FrameId
  mfu : StdList FrameId
  mruGhost : StdList PageId
  mfuGhost : StdList PageId
  aliveMap : FrameId → Option FrameStatus
  ghostMap : PageId → Option FrameStatus
  currSize : Nat
  mruTargetSize : Nat
  replacerSize : Nat

namespace ArcReplacer

open Function (update)

def new (numFrames : Nat) : ArcReplacer where
  mru := StdList.empty
  mfu := StdList.empty
  mruGhost := StdList.empty
  mfuGhost := StdList.empty
  aliveMap := fun _ => none
  ghostMap := fun _ => none
  currSize := 0
  mruTargetSize := 0
  replacerSize := numFrames

def isEvictable (aliveMap : FrameId → Option FrameStatus) (fid : FrameId) : Bool :=
  match aliveMap fid with
  | some status => status.evictable
  | none => false

/-- The last node of the list whose frame is evictable. -/
def victim? (arc : ArcReplacer) (list : StdList FrameId) : Option (Nat × FrameId) :=
  list.nodes.reverse.find? fun node => isEvictable arc.aliveMap node.2

/-- The common text of the two lambdas of `Evict`; `store` puts the shortened
alive list and the lengthened ghost list back. -/
def tryEvict (arc : ArcReplacer) (list : StdList FrameId) (ghosts : StdList PageId)
    (ghostStatus : ArcStatus) (store : StdList FrameId → StdList PageId → ArcReplacer) :
    Option FrameId × ArcReplacer :=
  match arc.victim? list with
  | none => (none, arc)
  | some (iter, fid) =>
      match arc.aliveMap fid with
      | none => (none, arc)
      | some status =>
          let pid := status.pageId
          let ghosts := ghosts.pushFront pid
          let ghost : FrameStatus :=
            { pageId := pid, frameId := fid, evictable := false, arcStatus := ghostStatus,
              ghostIter := ghosts.begin }
          (some fid, { store (list.erase iter) ghosts with
            ghostMap := update arc.ghostMap pid (some ghost)
            aliveMap := update arc.aliveMap fid none
            currSize := arc.currSize - 1 })

def tryEvictFromMru (arc : ArcReplacer) : Option FrameId × ArcReplacer :=
  arc.tryEvict arc.mru arc.mruGhost .mruGhost fun list ghosts =>
    { arc with mru := list, mruGhost := ghosts }

def tryEvictFromMfu (arc : ArcReplacer) : Option FrameId × ArcReplacer :=
  arc.tryEvict arc.mfu arc.mfuGhost .mfuGhost fun list ghosts =>
    { arc with mfu := list, mfuGhost := ghosts }

/-- `if (result) return result;` before the other list is tried. -/
def orTry (result : Option FrameId × ArcReplacer)
    (second : ArcReplacer → Option FrameId × ArcReplacer) :
    Option FrameId × ArcReplacer :=
  match result with
  | (some fid, arc) => (some fid, arc)
  | (none, arc) => second arc

def evict (arc : ArcReplacer) : Option FrameId × ArcReplacer :=
  if arc.currSize = 0 then (none, arc)
  else if arc.mru.size ≥ arc.mruTargetSize then orTry arc.tryEvictFromMru tryEvictFromMfu
  else orTry arc.tryEvictFromMfu tryEvictFromMru

/-- Cases 2 and 3 of `RecordAccess`: the target size after a ghost hit. -/
def adaptedTarget (arc : ArcReplacer) (ghostStatus : ArcStatus) : Nat :=
  let mruGhostSize := arc.mruGhost.size
  let mfuGhostSize := arc.mfuGhost.size
  if ghostStatus = .mruGhost then
    if mruGhostSize ≥ mfuGhostSize then min (arc.mruTargetSize + 1) arc.replacerSize
    else min (arc.mruTargetSize + mfuGhostSize / mruGhostSize) arc.replacerSize
  else if mfuGhostSize ≥ mruGhostSize then
    if arc.mruTargetSize > 0 then arc.mruTargetSize - 1 else 0
  else arc.mruTargetSize

def dropGhost (ghostMap : PageId → Option FrameStatus) : Option PageId → PageId → Option FrameStatus
  | some pid => update ghostMap pid none
  | none => ghostMap

/-- Case 4 of `RecordAccess`, before the frame enters `mru`. -/
def trimGhosts (arc : ArcReplacer) : ArcReplacer :=
  let mruTotal := arc.mru.size + arc.mruGhost.size
  if mruTotal = arc.replacerSize then
    { arc with
      ghostMap := dropGhost arc.ghostMap arc.mruGhost.back?
      mruGhost := arc.mruGhost.popBack }
  else if mruTotal + arc.mfu.size + arc.mfuGhost.size = 2 * arc.replacerSize then
    { arc with
      ghostMap := dropGhost arc.ghostMap arc.mfuGhost.back?
      mfuGhost := arc.mfuGhost.popBack }
  else arc

def recordAccess (arc : ArcReplacer) (fid : FrameId) (pid : PageId) : ArcReplacer :=
  match arc.aliveMap fid with
  | some status =>
      let arc :=
        if status.arcStatus = .mru then { arc with mru := arc.mru.erase status.aliveIter }
        else { arc with mfu := arc.mfu.erase status.aliveIter }
      let mfu := arc.mfu.pushFront fid
      { arc with
        mfu := mfu
        aliveMap := update arc.aliveMap fid
          (some { status with aliveIter := mfu.begin, arcStatus := .mfu }) }
  | none =>
      match arc.ghostMap pid with
      | some ghost =>
          let target := arc.adaptedTarget ghost.arcStatus
          let arc :=
            if ghost.arcStatus = .mruGhost then
              { arc with mruGhost := arc.mruGhost.erase ghost.ghostIter }
            else { arc with mfuGhost := arc.mfuGhost.erase ghost.ghostIter }
          let mfu := arc.mfu.pushFront fid
          { arc with
            mruTargetSize := target
            ghostMap := update arc.ghostMap pid none
            mfu := mfu
            aliveMap := update arc.aliveMap fid
              (some { pageId := pid, frameId := fid, evictable := false, arcStatus := .mfu,
                      aliveIter := mfu.begin }) }
      | none =>
          let arc := arc.trimGhosts
          let mru := arc.mru.pushFront fid
          { arc with
            mru := mru
            aliveMap := update arc.aliveMap fid
              (some { pageId := pid, frameId := fid, evictable := false, arcStatus := .mru,
                      aliveIter := mru.begin }) }

def setEvictable (arc : ArcReplacer) (fid : FrameId) (flag : Bool) : ArcReplacer :=
  match arc.aliveMap fid with
  | none => arc
  | some status =>
      if status.evictable = flag then arc
      else
        { arc with
          aliveMap := update arc.aliveMap fid (some { status with evictable := flag })
          currSize := if flag then arc.currSize + 1 else arc.currSize - 1 }

/-- `none` is the failed assertion on a frame that is not evictable. -/
def remove (arc : ArcReplacer) (fid : FrameId) : Option ArcReplacer :=
  match arc.aliveMap fid with
  | none => some arc
  | some status =>
      if status.evictable then
        let arc :=
          if status.arcStatus = .mru then { arc with mru := arc.mru.erase status.aliveIter }
          else { arc with mfu := arc.mfu.erase status.aliveIter }
        some { arc with aliveMap := update arc.aliveMap fid none, currSize := arc.currSize - 1 }
      else none

/-! What the rest of the buffer pool can see of the replacer: the alive frames,
the page each holds and whether it may be evicted. -/

def entry (arc : ArcReplacer) (fid : FrameId) : Option (PageId × Bool) :=
  (arc.aliveMap fid).map fun status => (status.pageId, status.evictable)

/-- One alive list and `alive_map_` describe the same frames, and each stored
iterator points at the node of its own frame. -/
structure Lists (list : StdList FrameId) (aliveMap : FrameId → Option FrameStatus)
    (side : ArcStatus) : Prop where
  unique : list.toList.Nodup
  node : ∀ iter fid, (iter, fid) ∈ list.nodes ↔
    ∃ status, aliveMap fid = some status ∧ status.arcStatus = side ∧ status.aliveIter = iter

/-- Both alive lists agree with `alive_map_`, an alive frame is on one of them,
and `curr_size_` counts the evictable frames. -/
structure AliveInv (arc : ArcReplacer) : Prop where
  mru : Lists arc.mru arc.aliveMap .mru
  mfu : Lists arc.mfu arc.aliveMap .mfu
  side : ∀ fid status, arc.aliveMap fid = some status →
    status.arcStatus = .mru ∨ status.arcStatus = .mfu
  size : arc.currSize = arc.mru.toList.countP (isEvictable arc.aliveMap) +
    arc.mfu.toList.countP (isEvictable arc.aliveMap)

section Lists
variable {list : StdList FrameId} {aliveMap : FrameId → Option FrameStatus} {side : ArcStatus}
  {fid : FrameId} {frames : List FrameId} {status : FrameStatus} {record : Option FrameStatus}

/-- The record, if there is one, stands on another list. -/
def OffSide (side : ArcStatus) (record : Option FrameStatus) : Prop :=
  ∀ status, record = some status → status.arcStatus ≠ side

theorem lists_mem (lists : Lists list aliveMap side) :
    fid ∈ list.toList ↔ ∃ status, aliveMap fid = some status ∧ status.arcStatus = side := by
  rw [StdList.mem_to_list]
  constructor
  · rintro ⟨iter, member⟩
    obtain ⟨status, found, same, _⟩ := (lists.node iter fid).mp member
    exact ⟨status, found, same⟩
  · rintro ⟨status, found, same⟩
    exact ⟨status.aliveIter, (lists.node _ fid).mpr ⟨status, found, same, rfl⟩⟩

theorem off_side_not_mem (lists : Lists list aliveMap side) (off : OffSide side (aliveMap fid)) :
    fid ∉ list.toList := by
  intro member
  obtain ⟨status, found, same⟩ := (lists_mem lists).mp member
  exact off status found same

theorem lists_erase (lists : Lists list aliveMap side) (found : aliveMap fid = some status)
    (same : status.arcStatus = side) (off : OffSide side record) :
    Lists (list.erase status.aliveIter) (update aliveMap fid record) side := by
  have own : (status.aliveIter, fid) ∈ list.nodes := (lists.node _ _).mpr ⟨status, found, same, rfl⟩
  constructor
  · rw [StdList.to_list_erase lists.unique own]
    exact lists.unique.erase fid
  · intro iter other
    rw [StdList.mem_nodes_erase, lists.node]
    by_cases hit : other = fid
    · subst hit
      constructor
      · rintro ⟨⟨present, found', _, place⟩, different⟩
        rw [found, Option.some.injEq] at found'
        exact absurd (found' ▸ place.symm) different
      · rintro ⟨present, found', same', _⟩
        exact absurd same' (off present (by simpa using found'))
    · rw [Function.update_of_ne hit]
      refine and_iff_left_of_imp ?_
      rintro ⟨present, found', same', place⟩ clash
      have node := (lists.node iter other).mpr ⟨present, found', same', place⟩
      simp only at clash
      rw [clash] at node
      exact hit (StdList.node_value_unique node own)

theorem lists_push (lists : Lists list aliveMap side) (off : OffSide side (aliveMap fid))
    (same : status.arcStatus = side) (place : status.aliveIter = list.next) :
    Lists (list.pushFront fid) (update aliveMap fid (some status)) side := by
  constructor
  · rw [StdList.to_list_push_front, List.nodup_cons]
    exact ⟨off_side_not_mem lists off, lists.unique⟩
  · intro iter other
    rw [StdList.mem_nodes_push_front, lists.node]
    by_cases hit : other = fid
    · subst hit
      constructor
      · rintro (front | ⟨present, found, same', _⟩)
        · exact ⟨status, by simp, same, by rw [place]; exact (Prod.mk.inj front).1.symm⟩
        · exact absurd same' (off present found)
      · rintro ⟨present, found, _, place'⟩
        rw [Function.update_self, Option.some.injEq] at found
        subst found
        exact Or.inl (by rw [← place', place])
    · rw [Function.update_of_ne hit]
      refine or_iff_right ?_
      intro front
      exact hit (Prod.mk.inj front).2

/-- The other list is not touched when a frame enters or leaves this one. -/
theorem lists_other (lists : Lists list aliveMap side) (off : OffSide side (aliveMap fid))
    (offNew : OffSide side record) :
    Lists list (update aliveMap fid record) side := by
  refine ⟨lists.unique, ?_⟩
  intro iter other
  rw [lists.node]
  by_cases hit : other = fid
  · subst hit
    rw [Function.update_self]
    constructor
    · rintro ⟨present, found, same, _⟩
      exact absurd same (off present found)
    · rintro ⟨present, found, same, _⟩
      exact absurd same (offNew present found)
  · rw [Function.update_of_ne hit]

theorem lists_relabel (lists : Lists list aliveMap side) {status status' : FrameStatus}
    (found : aliveMap fid = some status) (same : status'.arcStatus = status.arcStatus)
    (place : status'.aliveIter = status.aliveIter) :
    Lists list (update aliveMap fid (some status')) side := by
  refine ⟨lists.unique, ?_⟩
  intro iter other
  rw [lists.node]
  by_cases hit : other = fid
  · subst hit
    simp [found, same, place]
  · rw [Function.update_of_ne hit]

theorem count_off (absent : fid ∉ frames) (record : Option FrameStatus) :
    frames.countP (isEvictable (update aliveMap fid record)) =
      frames.countP (isEvictable aliveMap) := by
  refine List.countP_congr fun other member => ?_
  have different : other ≠ fid := fun hit => absent (hit ▸ member)
  simp [isEvictable, Function.update_of_ne different]

theorem count_erase (aliveMap : FrameId → Option FrameStatus) (unique : frames.Nodup)
    (member : fid ∈ frames) (record : Option FrameStatus) :
    (frames.erase fid).countP (isEvictable (update aliveMap fid record)) +
      (isEvictable aliveMap fid).toNat = frames.countP (isEvictable aliveMap) := by
  rw [count_off unique.not_mem_erase]
  have split := (List.perm_cons_erase member).countP_eq (isEvictable aliveMap)
  rw [split, List.countP_cons]
  cases isEvictable aliveMap fid <;> simp

theorem count_relabel (aliveMap : FrameId → Option FrameStatus) (unique : frames.Nodup)
    (member : fid ∈ frames) (record : Option FrameStatus) :
    frames.countP (isEvictable (update aliveMap fid record)) + (isEvictable aliveMap fid).toNat =
      frames.countP (isEvictable aliveMap) +
        (isEvictable (update aliveMap fid record) fid).toNat := by
  have before := count_erase aliveMap unique member record
  have after := count_erase (update aliveMap fid record) unique member record
  rw [Function.update_idem] at after
  omega

end Lists

/-! One lemma for each function: what it does to the alive entries, and that
it keeps the invariant. -/
section Operations
variable {arc after : ArcReplacer} {fid : FrameId} {pid : PageId} {list : StdList FrameId}
  {side : ArcStatus} {status : FrameStatus} {flag : Bool} {ghosts : StdList PageId}
  {ghostStatus : ArcStatus} {store : StdList FrameId → StdList PageId → ArcReplacer}
  {result : Option FrameId × ArcReplacer} {second : ArcReplacer → Option FrameId × ArcReplacer}

theorem new_alive_inv (numFrames : Nat) : AliveInv (new numFrames) where
  mru := ⟨by simp [new], by simp [new, StdList.empty]⟩
  mfu := ⟨by simp [new], by simp [new, StdList.empty]⟩
  side := by simp [new]
  size := by simp [new]

theorem new_entry (numFrames : Nat) : (new numFrames).entry fid = none := rfl

theorem entry_eq_some : arc.entry fid = some (pid, flag) ↔
    ∃ status, arc.aliveMap fid = some status ∧ status.pageId = pid ∧ status.evictable = flag := by
  simp [entry]

theorem entry_update (arc : ArcReplacer) {fid : FrameId} (record : Option FrameStatus)
    (same : after.aliveMap = update arc.aliveMap fid record) :
    after.entry =
      update arc.entry fid (record.map fun status => (status.pageId, status.evictable)) := by
  funext other
  by_cases hit : other = fid
  · subst hit
    simp [entry, same]
  · simp [entry, same, Function.update_of_ne hit]

theorem off_mfu_of_mru (same : status.arcStatus = .mru) :
    OffSide .mfu (some status) := by
  rintro present ⟨⟩
  simp [same]

theorem off_mru_of_mfu (same : status.arcStatus = .mfu) :
    OffSide .mru (some status) := by
  rintro present ⟨⟩
  simp [same]

theorem off_none (side : ArcStatus) : OffSide side none := by
  rintro present ⟨⟩

theorem evictable_of_found (found : arc.aliveMap fid = some status) :
    isEvictable arc.aliveMap fid = status.evictable := by
  simp [isEvictable, found]

/-- A frame leaves the alive side. -/
theorem leave_alive_inv (inv : AliveInv arc) (found : arc.aliveMap fid = some status)
    (mru : after.mru = if status.arcStatus = .mru then arc.mru.erase status.aliveIter else arc.mru)
    (mfu : after.mfu = if status.arcStatus = .mru then arc.mfu else arc.mfu.erase status.aliveIter)
    (map : after.aliveMap = update arc.aliveMap fid none)
    (size : after.currSize + status.evictable.toNat = arc.currSize) : AliveInv after := by
  have counted := evictable_of_found found
  have side : ∀ other present, after.aliveMap other = some present →
      present.arcStatus = .mru ∨ present.arcStatus = .mfu := by
    intro other present alive
    rw [map] at alive
    by_cases hit : other = fid
    · simp [hit] at alive
    · exact inv.side other present (by rwa [Function.update_of_ne hit] at alive)
  rcases inv.side fid status found with same | same
  · have off : OffSide .mfu (arc.aliveMap fid) := found ▸ off_mfu_of_mru same
    have member : fid ∈ arc.mru.toList := (lists_mem inv.mru).mpr ⟨status, found, same⟩
    have own := (inv.mru.node status.aliveIter fid).mpr ⟨status, found, same, rfl⟩
    have erased := count_erase arc.aliveMap inv.mru.unique member none
    rw [if_pos same] at mru mfu
    refine ⟨?_, ?_, side, ?_⟩
    · rw [mru, map]
      exact lists_erase inv.mru found same (off_none _)
    · rw [mfu, map]
      exact lists_other inv.mfu off (off_none _)
    · rw [inv.size, ← erased, counted] at size
      rw [mru, mfu, map, StdList.to_list_erase inv.mru.unique own,
        count_off (off_side_not_mem inv.mfu off)]
      omega
  · have off : OffSide .mru (arc.aliveMap fid) := found ▸ off_mru_of_mfu same
    have member : fid ∈ arc.mfu.toList := (lists_mem inv.mfu).mpr ⟨status, found, same⟩
    have own := (inv.mfu.node status.aliveIter fid).mpr ⟨status, found, same, rfl⟩
    have erased := count_erase arc.aliveMap inv.mfu.unique member none
    rw [if_neg (by simp [same])] at mru mfu
    refine ⟨?_, ?_, side, ?_⟩
    · rw [mru, map]
      exact lists_other inv.mru off (off_none _)
    · rw [mfu, map]
      exact lists_erase inv.mfu found same (off_none _)
    · rw [inv.size, ← erased, counted] at size
      rw [mru, mfu, map, StdList.to_list_erase inv.mfu.unique own,
        count_off (off_side_not_mem inv.mru off)]
      omega

theorem size_pos_of_evictable (inv : AliveInv arc)
    (found : arc.aliveMap fid = some status) : status.evictable.toNat ≤ arc.currSize := by
  rw [← evictable_of_found found, inv.size]
  rcases inv.side fid status found with same | same
  · have erased := count_erase arc.aliveMap inv.mru.unique
      ((lists_mem inv.mru).mpr ⟨status, found, same⟩) none
    omega
  · have erased := count_erase arc.aliveMap inv.mfu.unique
      ((lists_mem inv.mfu).mpr ⟨status, found, same⟩) none
    omega

/-- A frame that is not alive enters one list at the front. -/
theorem enter_alive_inv (inv : AliveInv arc) (absent : arc.aliveMap fid = none)
    (side : status.arcStatus = .mru ∨ status.arcStatus = .mfu)
    (place : status.aliveIter = if status.arcStatus = .mru then arc.mru.next else arc.mfu.next)
    (mru : after.mru = if status.arcStatus = .mru then arc.mru.pushFront fid else arc.mru)
    (mfu : after.mfu = if status.arcStatus = .mru then arc.mfu else arc.mfu.pushFront fid)
    (map : after.aliveMap = update arc.aliveMap fid (some status))
    (size : after.currSize = arc.currSize + status.evictable.toNat) : AliveInv after := by
  have off (list : ArcStatus) : OffSide list (arc.aliveMap fid) := absent ▸ off_none list
  have notMru := off_side_not_mem inv.mru (off _)
  have notMfu := off_side_not_mem inv.mfu (off _)
  have entered : isEvictable (update arc.aliveMap fid (some status)) fid = status.evictable := by
    simp [isEvictable]
  have sides : ∀ other present, after.aliveMap other = some present →
      present.arcStatus = .mru ∨ present.arcStatus = .mfu := by
    intro other present alive
    rw [map] at alive
    by_cases hit : other = fid
    · rw [hit, Function.update_self, Option.some.injEq] at alive
      exact alive ▸ side
    · exact inv.side other present (by rwa [Function.update_of_ne hit] at alive)
  rcases side with same | same
  · rw [if_pos same] at mru mfu place
    refine ⟨?_, ?_, sides, ?_⟩
    · rw [mru, map]
      exact lists_push inv.mru (off _) same place
    · rw [mfu, map]
      exact lists_other inv.mfu (off _) (off_mfu_of_mru same)
    · rw [size, mru, mfu, map, StdList.to_list_push_front, List.countP_cons, count_off notMru,
        count_off notMfu, entered, inv.size]
      cases status.evictable
      all_goals simp only [Bool.toNat_true, Bool.toNat_false, if_true, if_false, Bool.false_eq_true]
      all_goals omega
  · rw [if_neg (by simp [same])] at mru mfu place
    refine ⟨?_, ?_, sides, ?_⟩
    · rw [mru, map]
      exact lists_other inv.mru (off _) (off_mru_of_mfu same)
    · rw [mfu, map]
      exact lists_push inv.mfu (off _) same place
    · rw [size, mru, mfu, map, StdList.to_list_push_front, List.countP_cons, count_off notMru,
        count_off notMfu, entered, inv.size]
      cases status.evictable
      all_goals simp only [Bool.toNat_true, Bool.toNat_false, if_true, if_false, Bool.false_eq_true]
      all_goals omega

theorem victim_some (lists : Lists list arc.aliveMap side) {iter : Nat}
    (found : arc.victim? list = some (iter, fid)) :
    ∃ status, arc.aliveMap fid = some status ∧ status.arcStatus = side ∧
      status.aliveIter = iter ∧ status.evictable = true := by
  have member := List.mem_reverse.mp (List.mem_of_find?_eq_some found)
  have free := List.find?_some found
  obtain ⟨status, alive, same, place⟩ := (lists.node iter fid).mp member
  exact ⟨status, alive, same, place, by simpa [isEvictable, alive] using free⟩

theorem victim_none (found : arc.victim? list = none) (member : fid ∈ list.toList) :
    isEvictable arc.aliveMap fid = false := by
  obtain ⟨iter, inside⟩ := StdList.mem_to_list.mp member
  have free := List.find?_eq_none.mp found (iter, fid) (List.mem_reverse.mpr inside)
  simpa using free

/-- What an eviction from one list does, whichever list it is. -/
theorem try_evict_some (inv : AliveInv arc) (lists : Lists list arc.aliveMap side)
    (stored : ∀ iter ghosts, (store (list.erase iter) ghosts).mru =
        (if side = .mru then arc.mru.erase iter else arc.mru) ∧
      (store (list.erase iter) ghosts).mfu =
        (if side = .mru then arc.mfu else arc.mfu.erase iter))
    (evicted : arc.tryEvict list ghosts ghostStatus store = (some fid, after)) :
    (∃ pid, arc.entry fid = some (pid, true)) ∧ after.entry = update arc.entry fid none ∧
      AliveInv after := by
  unfold tryEvict at evicted
  cases chosen : arc.victim? list with
  | none => simp [chosen] at evicted
  | some node =>
      obtain ⟨iter, frame⟩ := node
      obtain ⟨status, alive, same, place, free⟩ := victim_some lists chosen
      simp only [chosen, alive, Option.some.injEq, Prod.mk.injEq] at evicted
      obtain ⟨rfl, rfl⟩ := evicted
      obtain ⟨mru, mfu⟩ := stored iter (ghosts.pushFront status.pageId)
      refine ⟨⟨status.pageId, entry_eq_some.mpr ⟨status, alive, rfl, free⟩⟩,
        entry_update arc none rfl, ?_⟩
      have room := size_pos_of_evictable inv alive
      refine leave_alive_inv inv alive (by rw [same, place]; exact mru)
        (by rw [same, place]; exact mfu)
        rfl ?_
      rw [free, Bool.toNat_true] at room ⊢
      show arc.currSize - 1 + 1 = arc.currSize
      omega

/-- A list without an evictable frame is searched and nothing else happens. -/
theorem try_evict_none (lists : Lists list arc.aliveMap side)
    (refused : arc.tryEvict list ghosts ghostStatus store = (none, after)) :
    after = arc ∧ ∀ fid ∈ list.toList, isEvictable arc.aliveMap fid = false := by
  unfold tryEvict at refused
  cases chosen : arc.victim? list with
  | none =>
      simp only [chosen, Prod.mk.injEq, true_and] at refused
      exact ⟨refused.symm, fun fid member => victim_none chosen member⟩
  | some node =>
      obtain ⟨iter, frame⟩ := node
      obtain ⟨status, alive, _⟩ := victim_some lists chosen
      simp [chosen, alive] at refused

theorem or_try_some (found : orTry result second = (some fid, after)) :
    result = (some fid, after) ∨ ∃ middle, result = (none, middle) ∧
      second middle = (some fid, after) := by
  obtain ⟨answer, middle⟩ := result
  cases answer with
  | none => exact Or.inr ⟨middle, rfl, found⟩
  | some _ => exact Or.inl found

theorem or_try_none (refused : orTry result second = (none, after)) :
    ∃ middle, result = (none, middle) ∧ second middle = (none, after) := by
  obtain ⟨answer, middle⟩ := result
  cases answer with
  | none => exact ⟨middle, rfl, refused⟩
  | some _ => simp [orTry] at refused

theorem evict_some (inv : AliveInv arc) (evicted : arc.evict = (some fid, after)) :
    (∃ pid, arc.entry fid = some (pid, true)) ∧ after.entry = update arc.entry fid none ∧
      AliveInv after := by
  have fromMru (h : arc.tryEvictFromMru = (some fid, after)) :=
    try_evict_some inv inv.mru (fun _ _ => ⟨rfl, rfl⟩) h
  have fromMfu (h : arc.tryEvictFromMfu = (some fid, after)) :=
    try_evict_some inv inv.mfu (fun _ _ => ⟨rfl, rfl⟩) h
  unfold evict at evicted
  split at evicted
  · simp at evicted
  · split at evicted
    · rcases or_try_some evicted with first | ⟨middle, refused, second⟩
      · exact fromMru first
      · rw [(try_evict_none inv.mru refused).1] at second
        exact fromMfu second
    · rcases or_try_some evicted with first | ⟨middle, refused, second⟩
      · exact fromMfu first
      · rw [(try_evict_none inv.mfu refused).1] at second
        exact fromMru second

/-- `Evict` finds nothing only when no alive frame is evictable, and then it
has changed nothing. -/
theorem evict_none (inv : AliveInv arc) (refused : arc.evict = (none, after)) :
    after = arc ∧ ∀ fid pid, arc.entry fid ≠ some (pid, true) := by
  have searched (both : (∀ fid ∈ arc.mru.toList, isEvictable arc.aliveMap fid = false) ∧
      ∀ fid ∈ arc.mfu.toList, isEvictable arc.aliveMap fid = false) (fid : FrameId) (pid : PageId) :
      arc.entry fid ≠ some (pid, true) := by
    intro present
    obtain ⟨status, found, _, free⟩ := entry_eq_some.mp present
    have counted := evictable_of_found found
    rcases inv.side fid status found with same | same
    · have stuck := both.1 fid ((lists_mem inv.mru).mpr ⟨status, found, same⟩)
      simp_all
    · have stuck := both.2 fid ((lists_mem inv.mfu).mpr ⟨status, found, same⟩)
      simp_all
  unfold evict at refused
  split at refused
  · rename_i noneFree
    refine ⟨(Prod.mk.inj refused).2.symm, ?_⟩
    have counted := inv.size
    rw [noneFree] at counted
    refine searched ⟨?_, ?_⟩
    · intro fid member
      have zero : arc.mru.toList.countP (isEvictable arc.aliveMap) = 0 := by omega
      simpa using List.countP_eq_zero.mp zero fid member
    · intro fid member
      have zero : arc.mfu.toList.countP (isEvictable arc.aliveMap) = 0 := by omega
      simpa using List.countP_eq_zero.mp zero fid member
  · split at refused
    · obtain ⟨middle, first, second⟩ := or_try_none refused
      obtain ⟨rfl, noMru⟩ := try_evict_none inv.mru first
      obtain ⟨rfl, noMfu⟩ := try_evict_none inv.mfu second
      exact ⟨rfl, searched ⟨noMru, noMfu⟩⟩
    · obtain ⟨middle, first, second⟩ := or_try_none refused
      obtain ⟨rfl, noMfu⟩ := try_evict_none inv.mfu first
      obtain ⟨rfl, noMru⟩ := try_evict_none inv.mru second
      exact ⟨rfl, searched ⟨noMru, noMfu⟩⟩

/-- An access to an alive frame changes no entry. -/
theorem record_access_alive (inv : AliveInv arc) (pid : PageId) {held : PageId}
    (alive : arc.entry fid = some (held, flag)) :
    (arc.recordAccess fid pid).entry = arc.entry ∧ AliveInv (arc.recordAccess fid pid) := by
  obtain ⟨status, found, samePage, sameFlag⟩ := entry_eq_some.mp alive
  have room := size_pos_of_evictable inv found
  constructor
  · have shape : (arc.recordAccess fid pid).aliveMap = update arc.aliveMap fid (some { status with
        aliveIter :=
          (if status.arcStatus = .mru then arc.mfu else arc.mfu.erase status.aliveIter).next
        arcStatus := .mfu }) := by
      simp only [recordAccess, found]
      split <;> simp_all
    rw [entry_update arc _ shape]
    funext other
    by_cases hit : other = fid
    · subst hit
      simp [alive, samePage, sameFlag]
    · simp [Function.update_of_ne hit]
  · -- the frame leaves its list and enters `mfu`, still as evictable as before
    let between : ArcReplacer :=
      { arc with
        mru := if status.arcStatus = .mru then arc.mru.erase status.aliveIter else arc.mru
        mfu := if status.arcStatus = .mru then arc.mfu else arc.mfu.erase status.aliveIter
        aliveMap := update arc.aliveMap fid none
        currSize := arc.currSize - status.evictable.toNat }
    have left : AliveInv between :=
      leave_alive_inv inv found rfl rfl rfl (Nat.sub_add_cancel room)
    let entering : FrameStatus := { status with aliveIter := between.mfu.next, arcStatus := .mfu }
    have gone : between.aliveMap fid = none := by simp [between]
    have side : entering.arcStatus = .mru ∨ entering.arcStatus = .mfu := Or.inr rfl
    refine enter_alive_inv left gone side (by simp [entering]) ?_ ?_ ?_ ?_
    · simp only [recordAccess, found, between, entering]
      split <;> simp_all
    · simp only [recordAccess, found, between, entering]
      split <;> simp_all
    · simp only [recordAccess, found, between, entering]
      split <;> simp_all
    · simp only [recordAccess, found, between, entering]
      split <;> simp_all

theorem trim_ghosts_alive (arc : ArcReplacer) : arc.trimGhosts.mru = arc.mru ∧
    arc.trimGhosts.mfu = arc.mfu ∧ arc.trimGhosts.aliveMap = arc.aliveMap ∧
    arc.trimGhosts.currSize = arc.currSize := by
  unfold trimGhosts
  dsimp only
  split
  · exact ⟨rfl, rfl, rfl, rfl⟩
  · split <;> exact ⟨rfl, rfl, rfl, rfl⟩

/-- An access to a frame that is not alive enters it with its page, pinned. -/
theorem record_access_new (inv : AliveInv arc) (pid : PageId) (absent : arc.entry fid = none) :
    (arc.recordAccess fid pid).entry = update arc.entry fid (some (pid, false)) ∧
      AliveInv (arc.recordAccess fid pid) := by
  have gone : arc.aliveMap fid = none := by simpa [entry] using absent
  cases ghosted : arc.ghostMap pid with
  | none =>
      obtain ⟨mru, mfu, map, size⟩ := trim_ghosts_alive arc
      have shape : (arc.recordAccess fid pid).aliveMap = update arc.aliveMap fid
        (some { pageId := pid, frameId := fid, evictable := false, arcStatus := .mru,
                aliveIter := arc.mru.next }) := by
        simp [recordAccess, gone, ghosted, mru, map]
      refine ⟨entry_update arc _ shape, ?_⟩
      refine enter_alive_inv inv gone (Or.inl rfl) (by simp) ?_ ?_ shape ?_
      · simp [recordAccess, gone, ghosted, mru]
      · simp [recordAccess, gone, ghosted, mfu]
      · simp [recordAccess, gone, ghosted, size]
  | some ghost =>
      have shape : (arc.recordAccess fid pid).aliveMap = update arc.aliveMap fid
        (some { pageId := pid, frameId := fid, evictable := false, arcStatus := .mfu,
                aliveIter := arc.mfu.next }) := by
        simp only [recordAccess, gone, ghosted]
        split <;> rfl
      refine ⟨entry_update arc _ shape, ?_⟩
      refine enter_alive_inv inv gone (Or.inr rfl) (by simp) ?_ ?_ shape ?_
      · simp only [recordAccess, gone, ghosted]
        split <;> rfl
      · simp only [recordAccess, gone, ghosted]
        split <;> rfl
      · simp only [recordAccess, gone, ghosted]
        split <;> rfl

theorem set_evictable_alive (inv : AliveInv arc) (flag : Bool) {old : Bool}
    (alive : arc.entry fid = some (pid, old)) :
    (arc.setEvictable fid flag).entry = update arc.entry fid (some (pid, flag)) ∧
      AliveInv (arc.setEvictable fid flag) := by
  obtain ⟨status, found, samePage, sameFlag⟩ := entry_eq_some.mp alive
  by_cases settled : status.evictable = flag
  · have same : arc.setEvictable fid flag = arc := by simp [setEvictable, found, settled]
    rw [same]
    refine ⟨?_, inv⟩
    rw [Function.eq_update_iff]
    exact ⟨by rw [alive, ← settled, sameFlag], fun _ _ => rfl⟩
  · have shape : (arc.setEvictable fid flag).aliveMap =
        update arc.aliveMap fid (some { status with evictable := flag }) := by
      simp [setEvictable, found, settled]
    have lists : (arc.setEvictable fid flag).mru = arc.mru ∧
        (arc.setEvictable fid flag).mfu = arc.mfu := by
      simp [setEvictable, found, settled]
    have size : (arc.setEvictable fid flag).currSize =
        if flag then arc.currSize + 1 else arc.currSize - 1 := by
      simp [setEvictable, found, settled]
    have room := size_pos_of_evictable inv found
    refine ⟨by rw [entry_update arc _ shape, ← samePage]; rfl, ?_, ?_, ?_, ?_⟩
    · rw [lists.1, shape]
      exact lists_relabel inv.mru found rfl rfl
    · rw [lists.2, shape]
      exact lists_relabel inv.mfu found rfl rfl
    · intro other present later
      rw [shape] at later
      by_cases hit : other = fid
      · rw [hit, Function.update_self, Option.some.injEq] at later
        exact later ▸ inv.side fid status found
      · exact inv.side other present (by rwa [Function.update_of_ne hit] at later)
    · have counted := evictable_of_found found
      have recounted : isEvictable
          (update arc.aliveMap fid (some { status with evictable := flag })) fid
          = flag := by simp [isEvictable]
      have flipped : status.evictable = !flag := by
        cases flag <;> cases present : status.evictable <;> simp_all
      rw [size, lists.1, lists.2, shape, inv.size]
      rw [flipped] at room counted
      rcases inv.side fid status found with same | same
      · have off : OffSide .mfu (arc.aliveMap fid) := found ▸ off_mfu_of_mru same
        have moved := count_relabel arc.aliveMap inv.mru.unique
          ((lists_mem inv.mru).mpr ⟨status, found, same⟩) (some { status with evictable := flag })
        rw [count_off (off_side_not_mem inv.mfu off)]
        rw [counted, recounted] at moved
        cases flag <;> simp at moved room ⊢ <;> omega
      · have off : OffSide .mru (arc.aliveMap fid) := found ▸ off_mru_of_mfu same
        have moved := count_relabel arc.aliveMap inv.mfu.unique
          ((lists_mem inv.mfu).mpr ⟨status, found, same⟩) (some { status with evictable := flag })
        rw [count_off (off_side_not_mem inv.mru off)]
        rw [counted, recounted] at moved
        cases flag <;> simp at moved room ⊢ <;> omega

/-- `Remove` of an evictable frame succeeds and takes its entry away. -/
theorem remove_alive (inv : AliveInv arc) (alive : arc.entry fid = some (pid, true)) :
    ∃ after, arc.remove fid = some after ∧ after.entry = update arc.entry fid none ∧
      AliveInv after := by
  obtain ⟨status, found, _, free⟩ := entry_eq_some.mp alive
  have room := size_pos_of_evictable inv found
  rw [free, Bool.toNat_true] at room
  refine ⟨_, by simp only [remove, found, free, if_true]; rfl, ?_, ?_⟩
  · refine entry_update arc none ?_
    split <;> rfl
  · refine leave_alive_inv inv found ?_ ?_ ?_ ?_
    · split <;> rfl
    · split <;> rfl
    · split <;> rfl
    · rw [free, Bool.toNat_true]
      split <;> exact Nat.sub_add_cancel room

end Operations

end ArcReplacer

end BusTub
