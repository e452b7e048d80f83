import BusTub.ArcReplacer
import BusTub.TransitionSystem

/-!
What holds of the replacer over every run of calls that a buffer pool can
issue: its lists and its maps tell the same story, the sizes stay within the
bounds of ARC, and `Evict` finds a victim whenever there is one.
-/

namespace BusTub.ArcReplacer

open Function (update)
open TransitionSystem (Reachable graph guarded)

inductive Call where
  | recordAccess (fid : FrameId) (pid : PageId)
  | setEvictable (fid : FrameId) (flag : Bool)
  | evict
  | remove (fid : FrameId)

def call (arc : ArcReplacer) : Call → Option ArcReplacer
  | .recordAccess fid pid => some (arc.recordAccess fid pid)
  | .setEvictable fid flag => some (arc.setEvictable fid flag)
  | .evict => some arc.evict.2
  | .remove fid => arc.remove fid

/-- The calls of a buffer pool: at most as many alive frames as the replacer has
room for, and one page for each. -/
def Issued (arc : ArcReplacer) : Call → Prop
  | .recordAccess fid pid =>
      match arc.aliveMap fid with
      | some status => status.pageId = pid
      | none => arc.mru.size + arc.mfu.size < arc.replacerSize ∧
          ∀ other status, arc.aliveMap other = some status → status.pageId ≠ pid
  | _ => True

def Reached (capacity : Nat) : ArcReplacer → Prop :=
  Reachable (· = new capacity) (guarded Issued (graph call))

def ghostPlace (ghostMap : PageId → Option FrameStatus) (side : ArcStatus)
    (pid : PageId) : Option Nat :=
  (ghostMap pid).bind fun status => if status.arcStatus = side then some status.ghostIter else none

structure GhostInv (arc : ArcReplacer) : Prop where
  mruGhost : arc.mruGhost.Indexed (ghostPlace arc.ghostMap .mruGhost)
  mfuGhost : arc.mfuGhost.Indexed (ghostPlace arc.ghostMap .mfuGhost)
  record : ∀ pid status, arc.ghostMap pid = some status →
    status.pageId = pid ∧ (status.arcStatus = .mruGhost ∨ status.arcStatus = .mfuGhost)
  frame : ∀ fid status, arc.aliveMap fid = some status → status.frameId = fid
  apart : ∀ fid status, arc.aliveMap fid = some status → arc.ghostMap status.pageId = none
  onePage : ∀ fid other status present, arc.aliveMap fid = some status →
    arc.aliveMap other = some present → status.pageId = present.pageId → fid = other

structure SizeInv (capacity : Nat) (arc : ArcReplacer) : Prop where
  room : arc.replacerSize = capacity
  alive : arc.mru.size + arc.mfu.size ≤ capacity
  recent : arc.mru.size + arc.mruGhost.size ≤ capacity
  all : arc.mru.size + arc.mfu.size + arc.mruGhost.size + arc.mfuGhost.size ≤ 2 * capacity
  target : arc.mruTargetSize ≤ capacity

structure Inv (capacity : Nat) (arc : ArcReplacer) : Prop where
  lists : AliveInv arc
  ghosts : GhostInv arc
  sizes : SizeInv capacity arc

section Ghosts
variable {arc after : ArcReplacer} {ghostMap : PageId → Option FrameStatus}
  {ghosts : StdList PageId} {side : ArcStatus} {status : FrameStatus} {pid : PageId} {fid : FrameId}
  {capacity : Nat}

theorem ghost_place_found (found : ghostMap pid = some status) (same : status.arcStatus = side) :
    ghostPlace ghostMap side pid = some status.ghostIter := by
  simp [ghostPlace, found, same]

theorem ghost_place_other (found : ghostMap pid = some status)
    (different : status.arcStatus ≠ side) :
    ghostPlace ghostMap side pid = none := by
  simp [ghostPlace, found, different]

theorem ghost_place_none (absent : ghostMap pid = none) : ghostPlace ghostMap side pid = none := by
  simp [ghostPlace, absent]

theorem ghost_place_update (ghostMap : PageId → Option FrameStatus) (side : ArcStatus)
    (pid : PageId) (record : Option FrameStatus) :
    ghostPlace (update ghostMap pid record) side = update (ghostPlace ghostMap side) pid
      (record.bind fun status => if status.arcStatus = side then some status.ghostIter
        else none) := by
  funext other
  by_cases hit : other = pid
  · subst hit
    simp [ghostPlace]
  · simp [ghostPlace, Function.update_of_ne hit]

theorem ghost_enters (indexed : ghosts.Indexed (ghostPlace ghostMap side))
    (absent : ghostMap pid = none) (same : status.arcStatus = side)
    (place : status.ghostIter = ghosts.next) :
    (ghosts.pushFront pid).Indexed (ghostPlace (update ghostMap pid (some status)) side) := by
  rw [ghost_place_update, Option.bind_some, if_pos same, place]
  exact StdList.indexed_push indexed (ghost_place_none absent)

theorem ghost_elsewhere (indexed : ghosts.Indexed (ghostPlace ghostMap side))
    (off : ghostPlace ghostMap side pid = none) {record : Option FrameStatus}
    (offNew : ∀ status, record = some status → status.arcStatus ≠ side) :
    ghosts.Indexed (ghostPlace (update ghostMap pid record) side) := by
  rw [ghost_place_update]
  have same : (record.bind fun status => if status.arcStatus = side then some status.ghostIter
      else none) = none := by
    cases record with
    | none => rfl
    | some status => simp [offNew status rfl]
  rw [same, ← off, Function.update_eq_self]
  exact indexed

theorem ghost_leaves (indexed : ghosts.Indexed (ghostPlace ghostMap side))
    (found : ghostMap pid = some status) (same : status.arcStatus = side) :
    (ghosts.erase status.ghostIter).Indexed (ghostPlace (update ghostMap pid none) side) := by
  rw [ghost_place_update, Option.bind_none]
  exact StdList.indexed_erase indexed (ghost_place_found found same)

end Ghosts

def demoted (arc : ArcReplacer) (fid : FrameId) (status : FrameStatus) : ArcReplacer :=
  let pid := status.pageId
  if status.arcStatus = .mru then
    { arc with
      mru := arc.mru.erase status.aliveIter
      mruGhost := arc.mruGhost.pushFront pid
      ghostMap := update arc.ghostMap pid (some
        { pageId := pid, frameId := fid, evictable := false, arcStatus := .mruGhost,
          ghostIter := arc.mruGhost.next })
      aliveMap := update arc.aliveMap fid none
      currSize := arc.currSize - 1 }
  else
    { arc with
      mfu := arc.mfu.erase status.aliveIter
      mfuGhost := arc.mfuGhost.pushFront pid
      ghostMap := update arc.ghostMap pid (some
        { pageId := pid, frameId := fid, evictable := false, arcStatus := .mfuGhost,
          ghostIter := arc.mfuGhost.next })
      aliveMap := update arc.aliveMap fid none
      currSize := arc.currSize - 1 }

section Evictions
variable {arc after : ArcReplacer} {list : StdList FrameId} {side : ArcStatus}
  {status : FrameStatus} {fid : FrameId} {pid : PageId} {capacity : Nat}

theorem try_evict_shape {ghosts : StdList PageId} {ghostStatus : ArcStatus}
    {store : StdList FrameId → StdList PageId → ArcReplacer} (lists : Lists list arc.aliveMap side)
    (evicted : arc.tryEvict list ghosts ghostStatus store = (some fid, after)) :
    ∃ status, arc.aliveMap fid = some status ∧ status.arcStatus = side ∧ status.evictable = true ∧
      after = { store (list.erase status.aliveIter) (ghosts.pushFront status.pageId) with
        ghostMap := update arc.ghostMap status.pageId (some
          { pageId := status.pageId, frameId := fid, evictable := false, arcStatus := ghostStatus,
            ghostIter := ghosts.next })
        aliveMap := update arc.aliveMap fid none
        currSize := arc.currSize - 1 } := by
  unfold tryEvict at evicted
  cases chosen : arc.victim? list with
  | none => simp [chosen] at evicted
  | some node =>
      obtain ⟨iter, frame⟩ := node
      obtain ⟨status, alive, same, place, free⟩ := victim_some lists chosen
      simp only [chosen, alive, StdList.begin_push_front, Option.some.injEq, Prod.mk.injEq]
        at evicted
      obtain ⟨rfl, rfl⟩ := evicted
      exact ⟨status, alive, same, free, by rw [place]⟩

/-- `Evict` demotes an evictable frame, whichever list it tries first. -/
theorem evict_demotes (lists : AliveInv arc) (evicted : arc.evict = (some fid, after)) :
    ∃ status, arc.aliveMap fid = some status ∧ status.evictable = true ∧
      after = arc.demoted fid status := by
  have fromMru (evicted : arc.tryEvictFromMru = (some fid, after)) :
      ∃ status, arc.aliveMap fid = some status ∧ status.evictable = true ∧
        after = arc.demoted fid status := by
    obtain ⟨status, alive, same, free, rfl⟩ := try_evict_shape lists.mru evicted
    exact ⟨status, alive, free, by simp [demoted, same]⟩
  have fromMfu (evicted : arc.tryEvictFromMfu = (some fid, after)) :
      ∃ status, arc.aliveMap fid = some status ∧ status.evictable = true ∧
        after = arc.demoted fid status := by
    obtain ⟨status, alive, same, free, rfl⟩ := try_evict_shape lists.mfu evicted
    exact ⟨status, alive, free, by simp [demoted, same]⟩
  unfold evict at evicted
  split at evicted
  · simp at evicted
  · split at evicted
    · rcases or_try_some evicted with first | ⟨middle, refused, second⟩
      · exact fromMru first
      · rw [(try_evict_none lists.mru refused).1] at second
        exact fromMfu second
    · rcases or_try_some evicted with first | ⟨middle, refused, second⟩
      · exact fromMfu first
      · rw [(try_evict_none lists.mfu refused).1] at second
        exact fromMru second

/-- Where an alive frame stands, and what its list loses with it. -/
theorem alive_size (lists : AliveInv arc) (found : arc.aliveMap fid = some status) :
    if status.arcStatus = .mru then (arc.mru.erase status.aliveIter).size + 1 = arc.mru.size
    else (arc.mfu.erase status.aliveIter).size + 1 = arc.mfu.size := by
  rcases lists.side fid status found with same | same
  · rw [if_pos same]
    exact StdList.size_erase ((lists.mru.node _ fid).mpr ⟨status, found, same, rfl⟩)
  · rw [if_neg (by simp [same])]
    exact StdList.size_erase ((lists.mfu.node _ fid).mpr ⟨status, found, same, rfl⟩)

theorem demoted_ghosts (ghosts : GhostInv arc) (found : arc.aliveMap fid = some status) :
    GhostInv (arc.demoted fid status) := by
  have fresh := ghosts.apart fid status found
  have left {other : FrameId} {present : FrameStatus} (alive : update arc.aliveMap fid none other =
      some present) :
      other ≠ fid ∧ arc.aliveMap other = some present := by
    by_cases hit : other = fid
    · simp [hit] at alive
    · exact ⟨hit, by rwa [Function.update_of_ne hit] at alive⟩
  have frame (other : FrameId) (present : FrameStatus) (alive : update arc.aliveMap fid none other =
      some present) :
      present.frameId = other := ghosts.frame other present (left alive).2
  have apart (record : FrameStatus) (other : FrameId) (present : FrameStatus)
    (alive : update arc.aliveMap fid none other = some present) :
    update arc.ghostMap status.pageId (some record) present.pageId = none := by
    obtain ⟨different, was⟩ := left alive
    rw [Function.update_of_ne]
    · exact ghosts.apart other present was
    · exact fun same => different (ghosts.onePage other fid present status was found same)
  have onePage (first second : FrameId) (one two : FrameStatus)
    (here : update arc.aliveMap fid none first = some one)
    (there : update arc.aliveMap fid none second = some two) (same : one.pageId = two.pageId) :
      first = second :=
    ghosts.onePage first second one two (left here).2 (left there).2 same
  have record (ghost : FrameStatus) (page : ghost.pageId = status.pageId)
    (kind : ghost.arcStatus = .mruGhost ∨ ghost.arcStatus = .mfuGhost) (pid : PageId)
      (present : FrameStatus)
    (known : update arc.ghostMap status.pageId (some ghost) pid = some present) :
    present.pageId = pid ∧ (present.arcStatus = .mruGhost ∨ present.arcStatus = .mfuGhost) := by
    by_cases hit : pid = status.pageId
    · rw [hit, Function.update_self, Option.some.injEq] at known
      exact known ▸ ⟨page.trans hit.symm, kind⟩
    · exact ghosts.record pid present (by rwa [Function.update_of_ne hit] at known)
  unfold demoted
  split
  · refine ⟨ghost_enters ghosts.mruGhost fresh rfl rfl, ?_, record _ rfl (Or.inl rfl), frame,
      apart _, onePage⟩
    apply ghost_elsewhere ghosts.mfuGhost (ghost_place_none fresh)
    rintro _ ⟨⟩
    simp
  · refine ⟨?_, ghost_enters ghosts.mfuGhost fresh rfl rfl, record _ rfl (Or.inr rfl), frame,
      apart _, onePage⟩
    apply ghost_elsewhere ghosts.mruGhost (ghost_place_none fresh)
    rintro _ ⟨⟩
    simp

theorem demoted_sizes (lists : AliveInv arc) (sizes : SizeInv capacity arc)
    (found : arc.aliveMap fid = some status) :
    SizeInv capacity (arc.demoted fid status) := by
  have smaller := alive_size lists found
  obtain ⟨room, alive, recent, all, target⟩ := sizes
  unfold demoted
  split
  · rename_i same
    rw [if_pos same] at smaller
    constructor <;> simp only [StdList.size_push_front] <;> omega
  · rename_i same
    rw [if_neg same] at smaller
    constructor <;> simp only [StdList.size_push_front] <;> omega

theorem evict_inv (inv : Inv capacity arc) : Inv capacity arc.evict.2 := by
  cases outcome : arc.evict with
  | mk victim after =>
      cases victim with
      | none =>
          obtain ⟨rfl, _⟩ := evict_none inv.lists outcome
          exact inv
      | some fid =>
          obtain ⟨_, _, lists⟩ := evict_some inv.lists outcome
          obtain ⟨status, found, _, rfl⟩ := evict_demotes inv.lists outcome
          exact ⟨lists, demoted_ghosts inv.ghosts found, demoted_sizes inv.lists inv.sizes found⟩

end Evictions

section Accesses
variable {arc after : ArcReplacer} {status ghost : FrameStatus} {fid : FrameId} {pid : PageId}
  {capacity : Nat}

/-- A record keeps its frame and its page while its frame is alive. -/
theorem relabelled_ghosts (ghosts : GhostInv arc) (found : arc.aliveMap fid = some status)
    (status' : FrameStatus) (page : status'.pageId = status.pageId)
    (frame : status'.frameId = status.frameId) (mruGhost : after.mruGhost = arc.mruGhost)
    (mfuGhost : after.mfuGhost = arc.mfuGhost) (ghostMap : after.ghostMap = arc.ghostMap)
    (aliveMap : after.aliveMap = update arc.aliveMap fid (some status')) :
    GhostInv after := by
  -- every record of the new map has the frame and the page of one of the old map
  have was (other : FrameId) (present : FrameStatus) (alive : after.aliveMap other = some present) :
      ∃ old, arc.aliveMap other = some old ∧ present.pageId = old.pageId ∧
        present.frameId = old.frameId := by
    rw [aliveMap] at alive
    by_cases hit : other = fid
    · rw [hit, Function.update_self, Option.some.injEq] at alive
      exact ⟨status, hit ▸ found, alive ▸ page, alive ▸ frame⟩
    · exact ⟨present, by rwa [Function.update_of_ne hit] at alive, rfl, rfl⟩
  constructor
  · rw [mruGhost, ghostMap]
    exact ghosts.mruGhost
  · rw [mfuGhost, ghostMap]
    exact ghosts.mfuGhost
  · rw [ghostMap]
    exact ghosts.record
  · intro other present alive
    obtain ⟨old, here, _, same⟩ := was other present alive
    rw [same]
    exact ghosts.frame other old here
  · intro other present alive
    obtain ⟨old, here, same, _⟩ := was other present alive
    rw [ghostMap, same]
    exact ghosts.apart other old here
  · intro first second one two here there same
    obtain ⟨old, here', page', _⟩ := was first one here
    obtain ⟨other, there', page'', _⟩ := was second two there
    exact ghosts.onePage first second old other here' there' (page'.symm.trans (same.trans page''))

/-- A page that is alive nowhere comes alive and is no ghost any more. -/
theorem entered_ghosts (ghosts : GhostInv arc) (absent : arc.aliveMap fid = none)
    (nowhere : ∀ other status, arc.aliveMap other = some status → status.pageId ≠ pid)
    (frame : status.frameId = fid) (page : status.pageId = pid)
    (mruGhost : after.mruGhost.Indexed (ghostPlace after.ghostMap .mruGhost))
    (mfuGhost : after.mfuGhost.Indexed (ghostPlace after.ghostMap .mfuGhost))
    (fewer : ∀ other ghost, after.ghostMap other = some ghost → arc.ghostMap other = some ghost)
    (gone : after.ghostMap pid = none)
    (aliveMap : after.aliveMap = update arc.aliveMap fid (some status)) :
    GhostInv after := by
  have entry (other : FrameId) (present : FrameStatus)
    (alive : after.aliveMap other = some present) :
    (other = fid ∧ present = status) ∨ (other ≠ fid ∧ arc.aliveMap other = some present) := by
    rw [aliveMap] at alive
    by_cases hit : other = fid
    · rw [hit, Function.update_self, Option.some.injEq] at alive
      exact Or.inl ⟨hit, alive.symm⟩
    · exact Or.inr ⟨hit, by rwa [Function.update_of_ne hit] at alive⟩
  refine ⟨mruGhost, mfuGhost, fun other ghost here =>
    ghosts.record other ghost (fewer other ghost here), ?_, ?_, ?_⟩
  · intro other present alive
    rcases entry other present alive with ⟨rfl, rfl⟩ | ⟨_, was⟩
    · exact frame
    · exact ghosts.frame other present was
  · intro other present alive
    rcases entry other present alive with ⟨rfl, rfl⟩ | ⟨_, was⟩
    · rw [page, gone]
    · cases here : after.ghostMap present.pageId with
      | none => rfl
      | some ghost => cases (ghosts.apart other present was).symm.trans (fewer _ ghost here)
  · intro first second one two here there same
    rcases entry first one here with ⟨rfl, rfl⟩ | ⟨_, was⟩ <;>
      rcases entry second two there with ⟨rfl, rfl⟩ | ⟨_, was'⟩
    · rfl
    · exact absurd (same.symm.trans page) (nowhere second two was')
    · exact absurd (same.trans page) (nowhere first one was)
    · exact ghosts.onePage first second one two was was' same

theorem promoted_inv (inv : Inv capacity arc) (found : arc.aliveMap fid = some status) :
    Inv capacity (arc.recordAccess fid pid) := by
  have entry : arc.entry fid = some (status.pageId, status.evictable) := by simp [entry, found]
  obtain ⟨_, lists⟩ := record_access_alive inv.lists pid entry
  have smaller := alive_size inv.lists found
  obtain ⟨room, alive, recent, all, target⟩ := inv.sizes
  refine ⟨lists, ?_, ?_⟩
  · refine relabelled_ghosts inv.ghosts found { status with
      aliveIter :=
        (if status.arcStatus = .mru then arc.mfu else arc.mfu.erase status.aliveIter).next
      arcStatus := .mfu } rfl rfl ?_ ?_ ?_ ?_
    all_goals
      simp only [recordAccess, found]
      split <;> simp_all
  · simp only [recordAccess, found]
    split
    · rename_i same
      rw [if_pos same] at smaller
      constructor <;> simp only [StdList.size_push_front] <;> omega
    · rename_i same
      rw [if_neg same] at smaller
      constructor <;> simp only [StdList.size_push_front] <;> omega

/-- The target size moves by one step of ARC and stays within the capacity. -/
theorem adapted_target_le (sizes : SizeInv capacity arc) (kind : ArcStatus) :
    arc.adaptedTarget kind ≤ capacity := by
  obtain ⟨room, _, _, _, target⟩ := sizes
  unfold adaptedTarget
  dsimp only
  split
  · split <;> omega
  · split
    · split <;> omega
    · exact target

/-- A page that was a ghost comes back to the front of `mfu`. -/
theorem revived_inv (inv : Inv capacity arc) (absent : arc.aliveMap fid = none)
    (space : arc.mru.size + arc.mfu.size < capacity)
    (nowhere : ∀ other status, arc.aliveMap other = some status → status.pageId ≠ pid)
    (hit : arc.ghostMap pid = some ghost) : Inv capacity (arc.recordAccess fid pid) := by
  have entry : arc.entry fid = none := by simp [entry, absent]
  obtain ⟨_, lists⟩ := record_access_new inv.lists pid entry
  have target := adapted_target_le inv.sizes ghost.arcStatus
  obtain ⟨page, kind⟩ := inv.ghosts.record pid ghost hit
  have fewer (other : PageId) (present : FrameStatus) (here : update arc.ghostMap pid none other =
      some present) :
      arc.ghostMap other = some present := by
    by_cases same : other = pid
    · simp [same] at here
    · rwa [Function.update_of_ne same] at here
  have gone : update arc.ghostMap pid none pid = none := Function.update_self ..
  have off (record : FrameStatus) (none : (Option.none : Option FrameStatus) = some record)
      (side : ArcStatus) :
      record.arcStatus ≠ side := by cases none
  obtain ⟨room, alive, recent, all, _⟩ := inv.sizes
  refine ⟨lists, ?_, ?_⟩
  · simp only [recordAccess, absent, hit]
    rcases kind with same | same
    · rw [if_pos same]
      refine entered_ghosts inv.ghosts absent nowhere rfl rfl ?_ ?_ fewer gone rfl
      · exact ghost_leaves inv.ghosts.mruGhost hit same
      · exact ghost_elsewhere inv.ghosts.mfuGhost (ghost_place_other hit (by simp [same]))
          fun record none => off record none .mfuGhost
    · rw [if_neg (by simp [same])]
      refine entered_ghosts inv.ghosts absent nowhere rfl rfl ?_ ?_ fewer gone rfl
      · exact ghost_elsewhere inv.ghosts.mruGhost (ghost_place_other hit (by simp [same]))
          fun record none => off record none .mruGhost
      · exact ghost_leaves inv.ghosts.mfuGhost hit same
  · simp only [recordAccess, absent, hit]
    rcases kind with same | same
    · have smaller :=
        StdList.size_erase ((inv.ghosts.mruGhost _ pid).mpr (ghost_place_found hit same))
      rw [if_pos same]
      constructor <;> simp only [StdList.size_push_front] <;> omega
    · have smaller :=
        StdList.size_erase ((inv.ghosts.mfuGhost _ pid).mpr (ghost_place_found hit same))
      rw [if_neg (by simp [same])]
      constructor <;> simp only [StdList.size_push_front] <;> omega

/-- What the trimming before a miss leaves on the ghost side. -/
theorem trim_ghosts_ghosts (ghosts : GhostInv arc) :
    arc.trimGhosts.mruGhost.Indexed (ghostPlace arc.trimGhosts.ghostMap .mruGhost) ∧
      arc.trimGhosts.mfuGhost.Indexed (ghostPlace arc.trimGhosts.ghostMap .mfuGhost) ∧
      ∀ pid ghost, arc.trimGhosts.ghostMap pid = some ghost → arc.ghostMap pid = some ghost := by
  have fewer (last : Option PageId) (pid : PageId) (ghost : FrameStatus)
    (here : dropGhost arc.ghostMap last pid = some ghost) : arc.ghostMap pid = some ghost := by
    cases last with
    | none => exact here
    | some victim =>
        by_cases same : pid = victim
        · simp [dropGhost, same] at here
        · simpa [dropGhost, same] using here
  -- the last node of a ghost list is on that list only
  have off {side other : ArcStatus} {list : StdList PageId} (apart : side ≠ other)
    (indexed : list.Indexed (ghostPlace arc.ghostMap side)) (victim : PageId)
      (last : list.back? = some victim) :
    ghostPlace arc.ghostMap other victim = none := by
    obtain ⟨iter, place⟩ := Option.isSome_iff_exists.mp
      ((StdList.indexed_mem indexed).mp (List.mem_of_getLast? last))
    obtain ⟨status, found, same⟩ := Option.bind_eq_some_iff.mp place
    split at same
    · rename_i kind
      exact ghost_place_other found (by rw [kind]; exact apart)
    · cases same
  have popped {side : ArcStatus} {list : StdList PageId}
    (indexed : list.Indexed (ghostPlace arc.ghostMap side)) :
    list.popBack.Indexed (ghostPlace (dropGhost arc.ghostMap list.back?) side) := by
    have after := StdList.indexed_pop_back indexed
    cases last : list.back? with
    | none =>
        rw [last] at after
        exact after
    | some victim =>
        rw [last] at after
        simpa [dropGhost, ghost_place_update] using after
  have kept {side other : ArcStatus} {list beside : StdList PageId} (apart : side ≠ other)
    (indexed : list.Indexed (ghostPlace arc.ghostMap side))
      (along : beside.Indexed (ghostPlace arc.ghostMap other)) :
    beside.Indexed (ghostPlace (dropGhost arc.ghostMap list.back?) other) := by
    cases last : list.back? with
    | none => exact along
    | some victim =>
        apply ghost_elsewhere along (off apart indexed victim last)
        rintro _ ⟨⟩
  unfold trimGhosts
  dsimp only
  split
  · exact ⟨popped ghosts.mruGhost, kept (by decide) ghosts.mruGhost ghosts.mfuGhost, fewer _⟩
  · split
    · exact ⟨kept (by decide) ghosts.mfuGhost ghosts.mruGhost, popped ghosts.mfuGhost, fewer _⟩
    · exact ⟨ghosts.mruGhost, ghosts.mfuGhost, fun _ _ here => here⟩

/-- After the trimming there is room for one more frame in `mru`. -/
theorem trim_ghosts_sizes (sizes : SizeInv capacity arc)
    (space : arc.mru.size + arc.mfu.size < capacity) :
    arc.trimGhosts.replacerSize = capacity ∧ arc.trimGhosts.mruTargetSize ≤ capacity ∧
      arc.mru.size + arc.trimGhosts.mruGhost.size < capacity ∧
      arc.mru.size + arc.mfu.size + arc.trimGhosts.mruGhost.size + arc.trimGhosts.mfuGhost.size <
        2 * capacity := by
  obtain ⟨room, alive, recent, all, target⟩ := sizes
  unfold trimGhosts
  dsimp only
  split
  · refine ⟨room, target, ?_, ?_⟩ <;> simp only [StdList.size_pop_back] <;> omega
  · split
    · refine ⟨room, target, ?_, ?_⟩ <;> simp only [StdList.size_pop_back] <;> omega
    · exact ⟨room, target, by omega, by omega⟩

theorem missed_inv (inv : Inv capacity arc) (absent : arc.aliveMap fid = none)
    (space : arc.mru.size + arc.mfu.size < capacity)
    (nowhere : ∀ other status, arc.aliveMap other = some status → status.pageId ≠ pid)
    (miss : arc.ghostMap pid = none) : Inv capacity (arc.recordAccess fid pid) := by
  have entry : arc.entry fid = none := by simp [entry, absent]
  obtain ⟨_, lists⟩ := record_access_new inv.lists pid entry
  obtain ⟨mruGhost, mfuGhost, fewer⟩ := trim_ghosts_ghosts inv.ghosts
  obtain ⟨mru, mfu, map, _⟩ := trim_ghosts_alive arc
  obtain ⟨room, target, recent, all⟩ := trim_ghosts_sizes inv.sizes space
  refine ⟨lists, ?_, ?_⟩
  · simp only [recordAccess, absent, miss]
    refine entered_ghosts inv.ghosts absent nowhere rfl rfl mruGhost mfuGhost fewer ?_ (by rw [map])
    cases here : arc.trimGhosts.ghostMap pid with
    | none => rfl
    | some ghost => cases miss.symm.trans (fewer pid ghost here)
  · simp only [recordAccess, absent, miss]
    constructor <;> simp only [StdList.size_push_front, mru, mfu] <;> omega

theorem record_access_inv (inv : Inv capacity arc) (issued : Issued arc (.recordAccess fid pid)) :
    Inv capacity (arc.recordAccess fid pid) := by
  unfold Issued at issued
  dsimp only at issued
  cases alive : arc.aliveMap fid with
  | some status => exact promoted_inv inv alive
  | none =>
      rw [alive] at issued
      obtain ⟨space, nowhere⟩ := issued
      rw [inv.sizes.room] at space
      cases ghosted : arc.ghostMap pid with
      | none => exact missed_inv inv alive space nowhere ghosted
      | some ghost => exact revived_inv inv alive space nowhere ghosted

theorem set_evictable_inv (inv : Inv capacity arc) (flag : Bool) :
    Inv capacity (arc.setEvictable fid flag) := by
  cases found : arc.aliveMap fid with
  | none =>
      simp only [setEvictable, found]
      exact inv
  | some status =>
      have entry : arc.entry fid = some (status.pageId, status.evictable) := by simp [entry, found]
      obtain ⟨_, lists⟩ := set_evictable_alive inv.lists flag entry
      by_cases settled : status.evictable = flag
      · simp only [setEvictable, found, settled, if_true]
        exact inv
      · refine ⟨lists, ?_, ?_⟩
        · refine relabelled_ghosts inv.ghosts found { status with evictable := flag } rfl
            rfl ?_ ?_ ?_ ?_
          all_goals simp [setEvictable, found, settled]
        · obtain ⟨room, alive, recent, all, target⟩ := inv.sizes
          simp only [setEvictable, found, settled, if_false]
          exact ⟨room, alive, recent, all, target⟩

theorem remove_inv (inv : Inv capacity arc) (removed : arc.remove fid = some after) :
    Inv capacity after := by
  cases found : arc.aliveMap fid with
  | none =>
      simp only [remove, found, Option.some.injEq] at removed
      exact removed ▸ inv
  | some status =>
      by_cases free : status.evictable = true
      · have entry : arc.entry fid = some (status.pageId, true) := by simp [entry, found, free]
        obtain ⟨result, same, _, lists⟩ := remove_alive inv.lists entry
        obtain rfl : result = after := Option.some.inj (same.symm.trans removed)
        have smaller := alive_size inv.lists found
        obtain ⟨room, alive, recent, all, target⟩ := inv.sizes
        simp only [remove, found, free, if_true, Option.some.injEq] at removed
        subst removed
        refine ⟨lists, ?_, ?_⟩
        · have left {other : FrameId} {present : FrameStatus}
            (alive : update arc.aliveMap fid none other = some present) : arc.aliveMap other =
              some present := by
            by_cases hit : other = fid
            · simp [hit] at alive
            · rwa [Function.update_of_ne hit] at alive
          obtain ⟨mruGhost, mfuGhost, record, frame, apart, onePage⟩ := inv.ghosts
          split
          all_goals exact ⟨mruGhost, mfuGhost, record, fun other present alive =>
            frame other present (left alive), fun other present alive =>
              apart other present (left alive),
            fun first second one two here there =>
              onePage first second one two (left here) (left there)⟩
        · split
          · rename_i same
            rw [if_pos same] at smaller
            constructor <;> simp only <;> omega
          · rename_i same
            rw [if_neg same] at smaller
            constructor <;> simp only <;> omega
      · simp [remove, found, free] at removed

theorem new_inv (capacity : Nat) : Inv capacity (new capacity) := by
  refine ⟨new_alive_inv capacity, ?_, ?_⟩
  · refine ⟨?_, ?_, ?_, ?_, ?_, ?_⟩
    · intro iter pid
      simp [new, StdList.empty, ghostPlace]
    · intro iter pid
      simp [new, StdList.empty, ghostPlace]
    all_goals simp [new]
  · constructor <;> simp [new, StdList.size, StdList.empty]

theorem call_inv (inv : Inv capacity arc) {op : Call} (issued : Issued arc op)
    (called : arc.call op = some after) :
    Inv capacity after := by
  cases op with
  | recordAccess fid pid =>
      obtain rfl := Option.some.inj called
      exact record_access_inv inv issued
  | setEvictable fid flag =>
      obtain rfl := Option.some.inj called
      exact set_evictable_inv inv flag
  | evict =>
      obtain rfl := Option.some.inj called
      exact evict_inv inv
  | remove fid => exact remove_inv inv called

theorem reached_inv (reached : Reached capacity arc) : Inv capacity arc := by
  apply TransitionSystem.reachable_preserves (Inv capacity) _ _ reached
  · rintro _ rfl
    exact new_inv capacity
  · rintro before op later inv ⟨issued, called⟩
    exact call_inv inv issued called

end Accesses

def pagesOn (arc : ArcReplacer) (list : StdList FrameId) : List PageId :=
  list.toList.filterMap fun fid => (arc.aliveMap fid).map FrameStatus.pageId

/-- The four lists, the two maps, the stored iterators and the counters agree. -/
structure Consistent (capacity : Nat) (arc : ArcReplacer) : Prop where
  frames : (arc.mru.toList ++ arc.mfu.toList).Nodup
  pages : (arc.pagesOn arc.mru ++ arc.pagesOn arc.mfu ++ arc.mruGhost.toList ++
    arc.mfuGhost.toList).Nodup
  mru : ∀ iter fid, (iter, fid) ∈ arc.mru.nodes ↔
    ∃ status, arc.aliveMap fid = some status ∧ status.arcStatus = .mru ∧ status.aliveIter = iter
  mfu : ∀ iter fid, (iter, fid) ∈ arc.mfu.nodes ↔
    ∃ status, arc.aliveMap fid = some status ∧ status.arcStatus = .mfu ∧ status.aliveIter = iter
  mruGhost : ∀ iter pid, (iter, pid) ∈ arc.mruGhost.nodes ↔
    ∃ status, arc.ghostMap pid = some status ∧ status.arcStatus = .mruGhost ∧
      status.ghostIter = iter
  mfuGhost : ∀ iter pid, (iter, pid) ∈ arc.mfuGhost.nodes ↔
    ∃ status, arc.ghostMap pid = some status ∧ status.arcStatus = .mfuGhost ∧
      status.ghostIter = iter
  alive : ∀ fid status, arc.aliveMap fid = some status →
    status.frameId = fid ∧ (status.arcStatus = .mru ∨ status.arcStatus = .mfu)
  ghosts : ∀ pid status, arc.ghostMap pid = some status →
    status.pageId = pid ∧ (status.arcStatus = .mruGhost ∨ status.arcStatus = .mfuGhost)
  currSize : arc.currSize = (arc.mru.toList ++ arc.mfu.toList).countP (isEvictable arc.aliveMap)
  sizes : SizeInv capacity arc

/-- No call divides by an empty ghost list or takes one from a size that is zero. -/
def NoFault (arc : ArcReplacer) : Call → Prop
  | .recordAccess fid pid => ∀ ghost, arc.aliveMap fid = none → arc.ghostMap pid = some ghost →
      ghost.arcStatus = .mruGhost → arc.mruGhost.size ≠ 0
  | .setEvictable fid flag =>
      ∀ status, arc.aliveMap fid = some status → status.evictable = true → flag = false →
        0 < arc.currSize
  | .evict => arc.evict.1 ≠ none → 0 < arc.currSize
  | .remove fid =>
      ∀ status, arc.aliveMap fid = some status → status.evictable = true → 0 < arc.currSize

/-- `Evict` answers null exactly when no alive frame is evictable; otherwise it
demotes one that is. -/
structure EvictsRight (arc : ArcReplacer) : Prop where
  refuses : arc.evict.1 = none ↔ ∀ fid, isEvictable arc.aliveMap fid = false
  unchanged : arc.evict.1 = none → arc.evict.2 = arc
  demotes : ∀ fid, arc.evict.1 = some fid →
    ∃ status, arc.aliveMap fid = some status ∧ status.evictable = true ∧
      arc.evict.2 = arc.demoted fid status

section Results
variable {arc : ArcReplacer} {capacity : Nat} {fid : FrameId} {pid : PageId} {side : ArcStatus}
  {list : StdList FrameId}

theorem evictable_entry : isEvictable arc.aliveMap fid = true ↔
    ∃ status, arc.aliveMap fid = some status ∧ status.evictable = true := by
  unfold isEvictable
  cases arc.aliveMap fid <;> simp

theorem mem_pages_on (lists : Lists list arc.aliveMap side) :
    pid ∈ arc.pagesOn list ↔
      ∃ fid status, arc.aliveMap fid = some status ∧ status.arcStatus = side ∧
      status.pageId = pid := by
  simp only [pagesOn, List.mem_filterMap, Option.map_eq_some_iff, lists_mem lists]
  constructor
  · rintro ⟨fid, ⟨status, found, same⟩, present, here, page⟩
    obtain rfl : status = present := Option.some.inj (found.symm.trans here)
    exact ⟨fid, status, found, same, page⟩
  · rintro ⟨fid, status, found, same, page⟩
    exact ⟨fid, ⟨status, found, same⟩, status, found, page⟩

theorem pages_on_nodup (lists : Lists list arc.aliveMap side) (ghosts : GhostInv arc) :
    (arc.pagesOn list).Nodup := by
  apply lists.unique.filterMap
  intro first second page one two
  obtain ⟨status, found, same⟩ := Option.map_eq_some_iff.mp one
  obtain ⟨present, here, same'⟩ := Option.map_eq_some_iff.mp two
  exact ghosts.onePage first second status present found here (same.trans same'.symm)

theorem frames_nodup (lists : AliveInv arc) : (arc.mru.toList ++ arc.mfu.toList).Nodup := by
  rw [List.nodup_append]
  refine ⟨lists.mru.unique, lists.mfu.unique, ?_⟩
  rintro fid recent _ frequent rfl
  obtain ⟨status, found, same⟩ := (lists_mem lists.mru).mp recent
  obtain ⟨present, here, same'⟩ := (lists_mem lists.mfu).mp frequent
  obtain rfl : status = present := Option.some.inj (found.symm.trans here)
  cases same.symm.trans same'

theorem ghost_nodes {list : StdList PageId} (indexed : list.Indexed (ghostPlace arc.ghostMap side))
    (iter : Nat) (pid : PageId) :
    (iter, pid) ∈ list.nodes ↔ ∃ status, arc.ghostMap pid = some status ∧ status.arcStatus = side ∧
      status.ghostIter = iter := by
  rw [indexed]
  unfold ghostPlace
  rw [Option.bind_eq_some_iff]
  apply exists_congr
  intro status
  split
  · rename_i same
    simp [same]
  · rename_i different
    simp [different]

theorem pages_nodup (inv : Inv capacity arc) :
    (arc.pagesOn arc.mru ++ arc.pagesOn arc.mfu ++ arc.mruGhost.toList ++
      arc.mfuGhost.toList).Nodup := by
  have ghost {list : StdList PageId} {side : ArcStatus}
    (indexed : list.Indexed (ghostPlace arc.ghostMap side))
    (pid : PageId) (member : pid ∈ list.toList) :
    ∃ status, arc.ghostMap pid = some status ∧ status.arcStatus = side := by
    obtain ⟨iter, node⟩ := StdList.mem_to_list.mp member
    obtain ⟨status, found, same, _⟩ := (ghost_nodes indexed iter pid).mp node
    exact ⟨status, found, same⟩
  -- an alive page is no ghost
  have living {list : StdList FrameId} {side : ArcStatus} (lists : Lists list arc.aliveMap side)
    (pid : PageId)
    (member : pid ∈ arc.pagesOn list) : arc.ghostMap pid = none := by
    obtain ⟨fid, status, found, _, rfl⟩ := (mem_pages_on lists).mp member
    exact inv.ghosts.apart fid status found
  simp only [List.nodup_append, List.mem_append]
  refine ⟨⟨⟨pages_on_nodup inv.lists.mru inv.ghosts, pages_on_nodup inv.lists.mfu inv.ghosts, ?_⟩,
    StdList.indexed_nodup inv.ghosts.mruGhost, ?_⟩, StdList.indexed_nodup inv.ghosts.mfuGhost, ?_⟩
  · rintro pid recent _ frequent rfl
    obtain ⟨fid, status, found, same, page⟩ := (mem_pages_on inv.lists.mru).mp recent
    obtain ⟨other, present, here, same', page'⟩ := (mem_pages_on inv.lists.mfu).mp frequent
    obtain rfl := inv.ghosts.onePage fid other status present found here (page.trans page'.symm)
    obtain rfl : status = present := Option.some.inj (found.symm.trans here)
    cases same.symm.trans same'
  · rintro pid (recent | frequent) _ gone rfl
    · obtain ⟨status, found, _⟩ := ghost inv.ghosts.mruGhost pid gone
      cases (living inv.lists.mru pid recent).symm.trans found
    · obtain ⟨status, found, _⟩ := ghost inv.ghosts.mruGhost pid gone
      cases (living inv.lists.mfu pid frequent).symm.trans found
  · rintro pid ((recent | frequent) | first) _ gone rfl
    · obtain ⟨status, found, _⟩ := ghost inv.ghosts.mfuGhost pid gone
      cases (living inv.lists.mru pid recent).symm.trans found
    · obtain ⟨status, found, _⟩ := ghost inv.ghosts.mfuGhost pid gone
      cases (living inv.lists.mfu pid frequent).symm.trans found
    · obtain ⟨status, found, same⟩ := ghost inv.ghosts.mruGhost pid first
      obtain ⟨present, here, same'⟩ := ghost inv.ghosts.mfuGhost pid gone
      obtain rfl : status = present := Option.some.inj (found.symm.trans here)
      cases same.symm.trans same'

theorem consistent (inv : Inv capacity arc) : Consistent capacity arc where
  frames := frames_nodup inv.lists
  pages := pages_nodup inv
  mru := inv.lists.mru.node
  mfu := inv.lists.mfu.node
  mruGhost := ghost_nodes inv.ghosts.mruGhost
  mfuGhost := ghost_nodes inv.ghosts.mfuGhost
  alive :=
    fun fid status found => ⟨inv.ghosts.frame fid status found, inv.lists.side fid status found⟩
  ghosts := inv.ghosts.record
  currSize := by rw [List.countP_append, inv.lists.size]
  sizes := inv.sizes

theorem no_fault (inv : Inv capacity arc) (op : Call) : NoFault arc op := by
  have counted (fid : FrameId) (status : FrameStatus) (found : arc.aliveMap fid = some status)
    (free : status.evictable = true) : 0 < arc.currSize := by
    have room := size_pos_of_evictable inv.lists found
    rw [free] at room
    exact room
  cases op with
  | recordAccess fid pid =>
      intro ghost _ hit same
      apply Nat.ne_of_gt
      apply StdList.indexed_size_pos inv.ghosts.mruGhost
      rw [ghost_place_found hit same]
      rfl
  | setEvictable fid flag => exact fun status found free _ => counted fid status found free
  | evict =>
      intro chosen
      by_contra zero
      apply chosen
      simp [evict, Nat.eq_zero_of_not_pos zero]
  | remove fid => exact counted fid

theorem evicts_right (inv : Inv capacity arc) : EvictsRight arc := by
  cases outcome : arc.evict with
  | mk victim after =>
      cases victim with
      | none =>
          obtain ⟨rfl, stuck⟩ := evict_none inv.lists outcome
          refine ⟨⟨fun _ fid => ?_, fun _ => by rw [outcome]⟩, fun _ => by rw [outcome], ?_⟩
          · by_contra free
            obtain ⟨status, found, free'⟩ := evictable_entry.mp (by simpa using free)
            exact stuck fid status.pageId (by simp [entry, found, free'])
          · rw [outcome]
            rintro fid ⟨⟩
      | some fid =>
          obtain ⟨status, found, free, rfl⟩ := evict_demotes inv.lists outcome
          have evictable := evictable_entry.mpr ⟨status, found, free⟩
          refine ⟨⟨?_, fun stuck => ?_⟩, ?_, ?_⟩
          · rw [outcome]
            rintro ⟨⟩
          · rw [stuck fid] at evictable
            cases evictable
          · rw [outcome]
            rintro ⟨⟩
          · rw [outcome]
            rintro other ⟨⟩
            exact ⟨status, found, free, rfl⟩

/-- Every run of calls that a buffer pool can issue. -/
theorem replacer_invariant (reached : Reached capacity arc) :
    Consistent capacity arc ∧ (∀ op, Issued arc op → NoFault arc op) ∧ EvictsRight arc :=
  have inv := reached_inv reached
  ⟨consistent inv, fun op _ => no_fault inv op, evicts_right inv⟩

end Results

def oneFrame : ArcReplacer := ((new 1).recordAccess 0 7).setEvictable 0 true

theorem one_frame_reached : Reached 1 oneFrame := by
  have access : guarded Issued (graph call) (new 1) (.recordAccess 0 7)
    ((new 1).recordAccess 0 7) :=
    ⟨⟨by decide, fun _ _ found => by cases found⟩, rfl⟩
  have release : guarded Issued (graph call) ((new 1).recordAccess 0 7)
    (.setEvictable 0 true) oneFrame :=
    ⟨trivial, rfl⟩
  exact TransitionSystem.reachable_step
    (TransitionSystem.reachable_step (TransitionSystem.reachable_start rfl) access) release

theorem one_frame_replacer :
    Consistent 1 oneFrame ∧ (∀ op, Issued oneFrame op → NoFault oneFrame op) ∧
      EvictsRight oneFrame :=
  replacer_invariant one_frame_reached

end BusTub.ArcReplacer
