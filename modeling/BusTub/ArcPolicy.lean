import BusTub.ArcBounds

/-!
The ARC policy over plain lists, and the replacer against it. `Policy` knows no
maps, iterators or ghost records: the four lists stand most recent first, and
an alive frame carries its page and its flag. Ratios of sizes are those of
`size_t`, rounded down.
-/

namespace BusTub.ArcReplacer

open Function (update)
open TransitionSystem (Run graph guarded)

structure Resident where
  frame : FrameId
  page : PageId
  evictable : Bool
  deriving DecidableEq

structure Policy where
  t1 : List Resident
  t2 : List Resident
  b1 : List PageId
  b2 : List PageId
  /-- The target size `p` of `t1`. -/
  target : Nat
  capacity : Nat
  deriving DecidableEq

def without (fid : FrameId) (list : List Resident) : List Resident := list.filter fun resident =>
    resident.frame ≠ fid

def lru? (list : List Resident) : Option Resident := list.reverse.find? Resident.evictable

namespace Policy

def new (capacity : Nat) : Policy := ⟨[], [], [], [], 0, capacity⟩

def trim (arc : Policy) : Policy :=
  if arc.t1.length + arc.b1.length = arc.capacity then { arc with b1 := arc.b1.dropLast }
  else if arc.t1.length + arc.b1.length + arc.t2.length + arc.b2.length = 2 * arc.capacity then
    { arc with b2 := arc.b2.dropLast }
  else arc

def recordAccess (arc : Policy) (fid : FrameId) (pid : PageId) : Policy :=
  match (arc.t1 ++ arc.t2).find? fun resident => resident.frame = fid with
  | some hit => { arc with t1 := without fid arc.t1, t2 := hit :: without fid arc.t2 }
  | none =>
      if pid ∈ arc.b1 then
        { arc with
          target := min (arc.target + max 1 (arc.b2.length / arc.b1.length)) arc.capacity
          b1 := arc.b1.erase pid
          t2 := ⟨fid, pid, false⟩ :: arc.t2 }
      else if pid ∈ arc.b2 then
        { arc with
          target := arc.target - max 1 (arc.b1.length / arc.b2.length)
          b2 := arc.b2.erase pid
          t2 := ⟨fid, pid, false⟩ :: arc.t2 }
      else { arc.trim with t1 := ⟨fid, pid, false⟩ :: arc.t1 }

def flagged (fid : FrameId) (flag : Bool) (resident : Resident) : Resident :=
  if resident.frame = fid then { resident with evictable := flag } else resident

def setEvictable (arc : Policy) (fid : FrameId) (flag : Bool) : Policy :=
  { arc with t1 := arc.t1.map (flagged fid flag), t2 := arc.t2.map (flagged fid flag) }

def evictT1 (arc : Policy) : Option (FrameId × Policy) :=
  (lru? arc.t1).map fun victim =>
    (victim.frame, { arc with t1 := without victim.frame arc.t1, b1 := victim.page :: arc.b1 })

def evictT2 (arc : Policy) : Option (FrameId × Policy) :=
  (lru? arc.t2).map fun victim =>
    (victim.frame, { arc with t2 := without victim.frame arc.t2, b2 := victim.page :: arc.b2 })

def evict (arc : Policy) : Option (FrameId × Policy) :=
  if arc.target ≤ arc.t1.length then arc.evictT1.or arc.evictT2 else arc.evictT2.or arc.evictT1

def remove (arc : Policy) (fid : FrameId) : Policy :=
  { arc with t1 := without fid arc.t1, t2 := without fid arc.t2 }

def call (arc : Policy) : Call → Policy
  | .recordAccess fid pid => arc.recordAccess fid pid
  | .setEvictable fid flag => arc.setEvictable fid flag
  | .evict => (arc.evict.map Prod.snd).getD arc
  | .remove fid => arc.remove fid

def run (arc : Policy) (calls : List Call) : Policy := calls.foldl call arc

end Policy

/-! What the replacer's lists and maps say in these terms. -/

def resident (aliveMap : FrameId → Option FrameStatus) (fid : FrameId) : Option Resident :=
  (aliveMap fid).map fun status => ⟨fid, status.pageId, status.evictable⟩

def policyOf (arc : ArcReplacer) : Policy where
  t1 := arc.mru.toList.filterMap (resident arc.aliveMap)
  t2 := arc.mfu.toList.filterMap (resident arc.aliveMap)
  b1 := arc.mruGhost.toList
  b2 := arc.mfuGhost.toList
  target := arc.mruTargetSize
  capacity := arc.replacerSize

section Residents
variable {aliveMap : FrameId → Option FrameStatus} {fid : FrameId} {frames : List FrameId}
  {status : FrameStatus}

theorem resident_found (found : aliveMap fid = some status) :
    resident aliveMap fid = some ⟨fid, status.pageId, status.evictable⟩ := by
  simp [resident, found]

theorem resident_other {other : FrameId} (different : other ≠ fid) (record : Option FrameStatus) :
    resident (update aliveMap fid record) other = resident aliveMap other := by
  simp [resident, Function.update_of_ne different]

theorem residents_off (absent : fid ∉ frames) (record : Option FrameStatus) :
    frames.filterMap (resident (update aliveMap fid record)) =
      frames.filterMap (resident aliveMap) := by
  apply List.filterMap_congr
  intro other member
  exact resident_other (ne_of_mem_of_not_mem member absent) record

theorem without_residents (aliveMap : FrameId → Option FrameStatus) (fid : FrameId)
    (frames : List FrameId) :
    without fid (frames.filterMap (resident aliveMap)) =
      (frames.filter fun other => other ≠ fid).filterMap (resident aliveMap) := by
  induction frames with
  | nil => rfl
  | cons other rest ih =>
      cases here : resident aliveMap other with
      | none =>
          rw [List.filterMap_cons_none here, ih]
          by_cases same : other = fid
          · rw [List.filter_cons_of_neg (by simpa using same)]
          · rw [List.filter_cons_of_pos (by simpa using same), List.filterMap_cons_none here]
      | some record =>
          have frame : record.frame = other := by
            obtain ⟨status, _, rfl⟩ := Option.map_eq_some_iff.mp here
            rfl
          rw [List.filterMap_cons_some here]
          by_cases same : other = fid
          · rw [List.filter_cons_of_neg (by simpa using same), ← ih]
            exact List.filter_cons_of_neg (by simpa [frame] using same)
          · rw [List.filter_cons_of_pos (by simpa using same), List.filterMap_cons_some here, ← ih]
            exact List.filter_cons_of_pos (by simpa [frame] using same)

theorem residents_erase (unique : frames.Nodup) (record : Option FrameStatus) :
    (frames.erase fid).filterMap (resident (update aliveMap fid record)) =
      without fid (frames.filterMap (resident aliveMap)) := by
  rw [residents_off unique.not_mem_erase, without_residents, unique.erase_eq_filter]
  apply congrArg
  apply List.filter_congr
  intro other _
  by_cases same : other = fid
  all_goals simp [same]

theorem without_absent (aliveMap : FrameId → Option FrameStatus) (absent : fid ∉ frames) :
    without fid (frames.filterMap (resident aliveMap)) = frames.filterMap (resident aliveMap) := by
  rw [without_residents, List.filter_eq_self.mpr]
  intro other member
  simpa using ne_of_mem_of_not_mem member absent

theorem find_resident (aliveMap : FrameId → Option FrameStatus) (fid : FrameId)
    (frames : List FrameId) :
    ((frames.filterMap (resident aliveMap)).find? fun record => record.frame = fid) =
      if fid ∈ frames then resident aliveMap fid else none := by
  induction frames with
  | nil => rfl
  | cons other rest ih =>
      cases here : resident aliveMap other with
      | none =>
          rw [List.filterMap_cons_none here, ih]
          by_cases same : fid = other
          · simp [same, here]
          · simp [same]
      | some record =>
          have frame : record.frame = other := by
            obtain ⟨status, _, rfl⟩ := Option.map_eq_some_iff.mp here
            rfl
          rw [List.filterMap_cons_some here]
          by_cases same : fid = other
          · simp [same, frame, here]
          · rw [List.find?_cons_of_neg (by simpa [frame] using fun hit => same hit.symm), ih]
            simp [same]

theorem find_evictable (aliveMap : FrameId → Option FrameStatus) (nodes : List (Nat × FrameId)) :
    ((nodes.map Prod.snd).filterMap (resident aliveMap)).find? Resident.evictable =
      (nodes.find? fun node => isEvictable aliveMap node.2).bind fun node =>
        resident aliveMap node.2 := by
  induction nodes with
  | nil => rfl
  | cons node rest ih =>
      rw [List.map_cons]
      cases found : aliveMap node.2 with
      | none =>
          rw [List.filterMap_cons_none (by simp [resident, found]), ih,
            List.find?_cons_of_neg (by simp [isEvictable, found])]
      | some status =>
          rw [List.filterMap_cons_some (resident_found found)]
          by_cases free : status.evictable = true
          · rw [List.find?_cons_of_pos (by exact free), List.find?_cons_of_pos
              (by simpa [isEvictable, found] using free)]
            exact (resident_found found).symm
          · rw [List.find?_cons_of_neg (by simpa using free), ih,
              List.find?_cons_of_neg (by simpa [isEvictable, found] using free)]

theorem lru_victim (arc : ArcReplacer) (list : StdList FrameId) :
    lru? (list.toList.filterMap (resident arc.aliveMap)) =
      (arc.victim? list).bind fun node => resident arc.aliveMap node.2 := by
  unfold lru? victim?
  rw [← List.filterMap_reverse, StdList.toList, ← List.map_reverse]
  exact find_evictable arc.aliveMap _

theorem residents_length {list : StdList FrameId} {side : ArcStatus}
    (lists : Lists list aliveMap side) :
    (list.toList.filterMap (resident aliveMap)).length = list.size := by
  rw [StdList.size_eq_length, List.length_filterMap_eq_countP, List.countP_eq_length]
  intro fid member
  obtain ⟨status, found, _⟩ := (lists_mem lists).mp member
  simp [resident_found found]

theorem residents_flagged (found : aliveMap fid = some status) (flag : Bool)
    (frames : List FrameId) :
    frames.filterMap (resident (update aliveMap fid (some { status with evictable := flag }))) =
      (frames.filterMap (resident aliveMap)).map (Policy.flagged fid flag) := by
  rw [List.map_filterMap]
  apply List.filterMap_congr
  intro other _
  by_cases same : other = fid
  · simp [same, resident, found, Policy.flagged]
  · rw [resident_other same]
    cases here : aliveMap other with
    | none => simp [resident, here]
    | some record => simp [resident, here, Policy.flagged, same]

theorem residents_push (list : StdList FrameId) (status : FrameStatus) :
    (list.pushFront fid).toList.filterMap (resident (update aliveMap fid (some status))) =
      ⟨fid, status.pageId, status.evictable⟩ ::
        list.toList.filterMap (resident (update aliveMap fid (some status))) := by
  rw [StdList.to_list_push_front,
    List.filterMap_cons_some (resident_found (Function.update_self ..))]

end Residents

/-- The hits of `RecordAccess` at which the replacer leaves ARC: the page is in
`b2`, `b2` is the shorter ghost list, and the target could be lowered. -/
def Unlowered (arc : ArcReplacer) : Call → Prop
  | .recordAccess fid pid => arc.aliveMap fid = none ∧ pid ∈ arc.mfuGhost.toList ∧
      arc.mfuGhost.size < arc.mruGhost.size ∧ 0 < arc.mruTargetSize
  | _ => False

section Steps
variable {arc after : ArcReplacer} {status ghost : FrameStatus} {fid : FrameId} {pid : PageId}
  {capacity : Nat}

theorem find_alive (lists : AliveInv arc) (fid : FrameId) :
    (((policyOf arc).t1 ++ (policyOf arc).t2).find? fun record => record.frame = fid) =
      resident arc.aliveMap fid := by
  rw [List.find?_append, policyOf, find_resident, find_resident]
  cases found : arc.aliveMap fid with
  | none => simp [resident, found]
  | some status =>
      rcases lists.side fid status found with same | same
      · simp [(lists_mem lists.mru).mpr ⟨status, found, same⟩, resident, found]
      · have there := (lists_mem lists.mfu).mpr ⟨status, found, same⟩
        by_cases here : fid ∈ arc.mru.toList
        · simp [here, resident, found]
        · simp [here, there, resident, found]

theorem hit_agrees (lists : AliveInv arc) (found : arc.aliveMap fid = some status) (pid : PageId) :
    policyOf (arc.recordAccess fid pid) = (policyOf arc).recordAccess fid pid := by
  unfold Policy.recordAccess
  rw [find_alive lists, resident_found found]
  simp only [recordAccess, found]
  rcases lists.side fid status found with same | same
  · have own := (lists.mru.node status.aliveIter fid).mpr ⟨status, found, same, rfl⟩
    have absent : fid ∉ arc.mfu.toList := off_side_not_mem lists.mfu (found ▸ off_mfu_of_mru same)
    rw [if_pos same]
    simp only [policyOf, Policy.mk.injEq, and_true]
    constructor
    · rw [StdList.to_list_erase lists.mru.unique own, residents_erase lists.mru.unique]
    · rw [residents_push, residents_off absent, without_absent _ absent]
  · have own := (lists.mfu.node status.aliveIter fid).mpr ⟨status, found, same, rfl⟩
    have absent : fid ∉ arc.mru.toList := off_side_not_mem lists.mru (found ▸ off_mru_of_mfu same)
    rw [if_neg (by simp [same])]
    simp only [policyOf, Policy.mk.injEq, and_true]
    constructor
    · rw [residents_off absent, without_absent _ absent]
    · rw [residents_push, StdList.to_list_erase lists.mfu.unique own,
        residents_erase lists.mfu.unique]

theorem ghost_member {side : ArcStatus} {list : StdList PageId}
    (indexed : list.Indexed (ghostPlace arc.ghostMap side)) :
    pid ∈ list.toList ↔ ∃ ghost, arc.ghostMap pid = some ghost ∧ ghost.arcStatus = side := by
  rw [StdList.indexed_mem indexed, ghostPlace]
  cases arc.ghostMap pid with
  | none => simp
  | some ghost => by_cases same : ghost.arcStatus = side <;> simp [same]

theorem raised_target (arc : ArcReplacer) (some : 0 < arc.mruGhost.size) :
    arc.adaptedTarget .mruGhost =
      min (arc.mruTargetSize + max 1 (arc.mfuGhost.size / arc.mruGhost.size)) arc.replacerSize := by
  simp only [adaptedTarget, if_true]
  split
  · rename_i longer
    have small : arc.mfuGhost.size / arc.mruGhost.size ≤ 1 := by
      calc arc.mfuGhost.size / arc.mruGhost.size ≤ arc.mruGhost.size / arc.mruGhost.size :=
        Nat.div_le_div_right longer
        _ = 1 := Nat.div_self some
    rw [Nat.max_eq_left small]
  · rename_i shorter
    have large : 1 ≤ arc.mfuGhost.size / arc.mruGhost.size :=
      (Nat.one_le_div_iff some).mpr (by omega)
    rw [Nat.max_eq_right large]

/-- The target after a hit in `b2`, as long as `b2` is not the shorter list. -/
theorem lowered_target (arc : ArcReplacer) (longer : arc.mruGhost.size ≤ arc.mfuGhost.size)
    (some : 0 < arc.mfuGhost.size) :
    arc.adaptedTarget .mfuGhost =
      arc.mruTargetSize - max 1 (arc.mruGhost.size / arc.mfuGhost.size) := by
  have small : arc.mruGhost.size / arc.mfuGhost.size ≤ 1 := by
    calc
      arc.mruGhost.size / arc.mfuGhost.size ≤ arc.mfuGhost.size / arc.mfuGhost.size :=
        Nat.div_le_div_right longer
      _ = 1 := Nat.div_self some
  simp only [adaptedTarget, reduceCtorEq, if_false, ge_iff_le, longer, if_true,
    Nat.max_eq_left small]
  split <;> omega

theorem kept_target (arc : ArcReplacer) (shorter : arc.mfuGhost.size < arc.mruGhost.size) :
    arc.adaptedTarget .mfuGhost = arc.mruTargetSize := by
  simp [adaptedTarget, Nat.not_le_of_lt shorter]

/-- Everything but the target is as ARC has it after a ghost hit. -/
theorem ghost_hit_agrees (inv : Inv capacity arc) (absent : arc.aliveMap fid = none)
    (hit : arc.ghostMap pid = some ghost) :
    { policyOf (arc.recordAccess fid pid) with target := 0 } =
      { (policyOf arc).recordAccess fid pid with target := 0 } ∧
      (policyOf (arc.recordAccess fid pid)).target = arc.adaptedTarget ghost.arcStatus ∧
      ((policyOf arc).recordAccess fid pid).target =
        if ghost.arcStatus = .mruGhost then
          min (arc.mruTargetSize + max 1 (arc.mfuGhost.size / arc.mruGhost.size)) arc.replacerSize
        else arc.mruTargetSize - max 1 (arc.mruGhost.size / arc.mfuGhost.size) := by
  have notMru : fid ∉ arc.mru.toList := off_side_not_mem inv.lists.mru (absent ▸ off_none _)
  have notMfu : fid ∉ arc.mfu.toList := off_side_not_mem inv.lists.mfu (absent ▸ off_none _)
  unfold Policy.recordAccess
  rw [find_alive inv.lists, show resident arc.aliveMap fid = none by simp [resident, absent]]
  simp only [recordAccess, absent, hit]
  rcases (inv.ghosts.record pid ghost hit).2 with same | same
  · have member : pid ∈ (policyOf arc).b1 :=
      (ghost_member inv.ghosts.mruGhost).mpr ⟨ghost, hit, same⟩
    have own := (inv.ghosts.mruGhost _ pid).mpr (ghost_place_found hit same)
    rw [if_pos member, if_pos same, if_pos same]
    refine ⟨?_, rfl, ?_⟩
    · simp only [policyOf, Policy.mk.injEq, and_true]
      refine ⟨residents_off notMru _, ?_, ?_⟩
      · rw [residents_push, residents_off notMfu]
      · exact StdList.to_list_erase (StdList.indexed_nodup inv.ghosts.mruGhost) own
    · simp only [policyOf, StdList.size_eq_length]
  · have member : pid ∈ (policyOf arc).b2 :=
      (ghost_member inv.ghosts.mfuGhost).mpr ⟨ghost, hit, same⟩
    have other : pid ∉ (policyOf arc).b1 := by
      intro there
      obtain ⟨record, here, first⟩ := (ghost_member inv.ghosts.mruGhost).mp there
      obtain rfl : ghost = record := Option.some.inj (hit.symm.trans here)
      rw [same] at first
      cases first
    have own := (inv.ghosts.mfuGhost _ pid).mpr (ghost_place_found hit same)
    rw [if_neg other, if_pos member, if_neg (by simp [same]), if_neg (by simp [same])]
    refine ⟨?_, rfl, ?_⟩
    · simp only [policyOf, Policy.mk.injEq, and_true, true_and]
      refine ⟨residents_off notMru _, ?_, ?_⟩
      · rw [residents_push, residents_off notMfu]
      · exact StdList.to_list_erase (StdList.indexed_nodup inv.ghosts.mfuGhost) own
    · simp only [policyOf, StdList.size_eq_length]

theorem trim_agrees (lists : AliveInv arc) : policyOf arc.trimGhosts = (policyOf arc).trim := by
  have t1 : (policyOf arc).t1.length = arc.mru.size := residents_length lists.mru
  have t2 : (policyOf arc).t2.length = arc.mfu.size := residents_length lists.mfu
  have b1 : (policyOf arc).b1.length = arc.mruGhost.size := (StdList.size_eq_length _).symm
  have b2 : (policyOf arc).b2.length = arc.mfuGhost.size := (StdList.size_eq_length _).symm
  have room : (policyOf arc).capacity = arc.replacerSize := rfl
  unfold Policy.trim trimGhosts
  rw [t1, t2, b1, b2, room]
  dsimp only
  split
  · simp only [policyOf, StdList.to_list_pop_back]
  · split
    · simp only [policyOf, StdList.to_list_pop_back]
    · rfl

theorem miss_agrees (inv : Inv capacity arc) (absent : arc.aliveMap fid = none)
    (miss : arc.ghostMap pid = none) :
    policyOf (arc.recordAccess fid pid) = (policyOf arc).recordAccess fid pid := by
  have notMru : fid ∉ arc.mru.toList := off_side_not_mem inv.lists.mru (absent ▸ off_none _)
  have notMfu : fid ∉ arc.mfu.toList := off_side_not_mem inv.lists.mfu (absent ▸ off_none _)
  have notB1 : pid ∉ (policyOf arc).b1 := by
    intro there
    obtain ⟨ghost, here, _⟩ := (ghost_member inv.ghosts.mruGhost).mp there
    cases miss.symm.trans here
  have notB2 : pid ∉ (policyOf arc).b2 := by
    intro there
    obtain ⟨ghost, here, _⟩ := (ghost_member inv.ghosts.mfuGhost).mp there
    cases miss.symm.trans here
  obtain ⟨mru, mfu, map, _⟩ := trim_ghosts_alive arc
  unfold Policy.recordAccess
  rw [find_alive inv.lists, show resident arc.aliveMap fid = none by simp [resident, absent]]
  simp only [recordAccess, absent, miss, if_neg notB1, if_neg notB2, ← trim_agrees inv.lists]
  simp only [policyOf, Policy.mk.injEq, and_true, mru, mfu, map]
  constructor
  · rw [residents_push, residents_off notMru]
  · exact residents_off notMfu _

theorem access_agrees (inv : Inv capacity arc) (lowered : ¬Unlowered arc (.recordAccess fid pid)) :
    policyOf (arc.recordAccess fid pid) = (policyOf arc).recordAccess fid pid := by
  cases alive : arc.aliveMap fid with
  | some status => exact hit_agrees inv.lists alive pid
  | none =>
      cases hit : arc.ghostMap pid with
      | none => exact miss_agrees inv alive hit
      | some ghost =>
          obtain ⟨rest, code, reference⟩ := ghost_hit_agrees inv alive hit
          have target : (policyOf (arc.recordAccess fid pid)).target =
            ((policyOf arc).recordAccess fid pid).target := by
            rw [code, reference]
            rcases (inv.ghosts.record pid ghost hit).2 with same | same
            · have some :=
                StdList.indexed_size_pos inv.ghosts.mruGhost
                  (by rw [ghost_place_found hit same]; rfl)
              rw [if_pos same, same, raised_target arc some]
            · have some :=
                StdList.indexed_size_pos inv.ghosts.mfuGhost
                  (by rw [ghost_place_found hit same]; rfl)
              have member := (ghost_member inv.ghosts.mfuGhost).mpr ⟨ghost, hit, same⟩
              rw [if_neg (by simp [same]), same]
              by_cases shorter : arc.mfuGhost.size < arc.mruGhost.size
              · -- nothing is lowered, and there is nothing to lower
                rw [kept_target arc shorter]
                have zero : ¬0 < arc.mruTargetSize :=
                  fun some => lowered ⟨alive, member, shorter, some⟩
                omega
              · exact lowered_target arc (by omega) some
          generalize policyOf (arc.recordAccess fid pid) = mine at rest target
          generalize (policyOf arc).recordAccess fid pid = theirs at rest target
          cases mine
          cases theirs
          simp_all

theorem unlowered_differs (inv : Inv capacity arc)
    (unlowered : Unlowered arc (.recordAccess fid pid)) :
    policyOf (arc.recordAccess fid pid) ≠ (policyOf arc).recordAccess fid pid := by
  obtain ⟨alive, member, shorter, some⟩ := unlowered
  obtain ⟨ghost, hit, same⟩ := (ghost_member inv.ghosts.mfuGhost).mp member
  obtain ⟨_, code, reference⟩ := ghost_hit_agrees inv alive hit
  intro agrees
  rw [agrees, reference, if_neg (by simp [same]), same, kept_target arc shorter] at code
  have := Nat.le_max_left 1 (arc.mruGhost.size / arc.mfuGhost.size)
  omega

theorem set_evictable_agrees (arc : ArcReplacer) (fid : FrameId) (flag : Bool) :
    policyOf (arc.setEvictable fid flag) = (policyOf arc).setEvictable fid flag := by
  have unchanged (frames : List FrameId)
    (keeps : ∀ other ∈ frames.filterMap (resident arc.aliveMap),
      Policy.flagged fid flag other = other) :
    frames.filterMap (resident arc.aliveMap) =
      (frames.filterMap (resident arc.aliveMap)).map (Policy.flagged fid flag) := by
    rw [List.map_congr_left (g := id) keeps, List.map_id]
  have same : setEvictable arc fid flag = arc →
      (∀ other ∈ (policyOf arc).t1, Policy.flagged fid flag other = other) →
        (∀ other ∈ (policyOf arc).t2, Policy.flagged fid flag other = other) →
          policyOf (arc.setEvictable fid flag) = (policyOf arc).setEvictable fid flag := by
    intro stays t1 t2
    rw [stays]
    simp only [Policy.setEvictable, policyOf, Policy.mk.injEq, and_true]
    exact ⟨unchanged _ t1, unchanged _ t2⟩
  have record (frames : List FrameId) (other : Resident)
    (member : other ∈ frames.filterMap (resident arc.aliveMap)) :
    ∃ status, arc.aliveMap other.frame = some status ∧ other.evictable = status.evictable := by
    obtain ⟨frame, _, here⟩ := List.mem_filterMap.mp member
    obtain ⟨status, found, rfl⟩ := Option.map_eq_some_iff.mp here
    exact ⟨status, found, rfl⟩
  cases found : arc.aliveMap fid with
  | none =>
      have keeps (frames : List FrameId) (other : Resident)
        (member : other ∈ frames.filterMap (resident arc.aliveMap)) :
          Policy.flagged fid flag other = other := by
        obtain ⟨status, here, _⟩ := record frames other member
        have different : other.frame ≠ fid := fun same => by simp [same, found] at here
        simp [Policy.flagged, different]
      exact same (by simp [setEvictable, found]) (keeps _) (keeps _)
  | some status =>
      by_cases settled : status.evictable = flag
      · have keeps (frames : List FrameId) (other : Resident)
          (member : other ∈ frames.filterMap (resident arc.aliveMap)) :
            Policy.flagged fid flag other = other := by
          obtain ⟨here, alive, free⟩ := record frames other member
          by_cases same : other.frame = fid
          · obtain rfl : status = here := Option.some.inj (found.symm.trans (same ▸ alive))
            simp [Policy.flagged, ← settled, ← free]
          · simp [Policy.flagged, same]
        exact same (by simp [setEvictable, found, settled]) (keeps _) (keeps _)
      · simp only [setEvictable, found, settled, if_false, Policy.setEvictable, policyOf,
          Policy.mk.injEq, and_true]
        exact ⟨residents_flagged found flag _, residents_flagged found flag _⟩

/-- A frame leaves the alive side: what is left of the two lists. -/
theorem residents_left (lists : AliveInv arc) (found : arc.aliveMap fid = some status) :
    ((if status.arcStatus = .mru then arc.mru.erase status.aliveIter else arc.mru).toList.filterMap
        (resident (update arc.aliveMap fid none)) = without fid (policyOf arc).t1) ∧
      ((if status.arcStatus = .mru then arc.mfu
        else arc.mfu.erase status.aliveIter).toList.filterMap
        (resident (update arc.aliveMap fid none)) = without fid (policyOf arc).t2) := by
  rcases lists.side fid status found with same | same
  · have own := (lists.mru.node status.aliveIter fid).mpr ⟨status, found, same, rfl⟩
    have absent : fid ∉ arc.mfu.toList := off_side_not_mem lists.mfu (found ▸ off_mfu_of_mru same)
    rw [if_pos same, if_pos same]
    constructor
    · rw [StdList.to_list_erase lists.mru.unique own, residents_erase lists.mru.unique]
      rfl
    · rw [residents_off absent, policyOf, without_absent _ absent]
  · have own := (lists.mfu.node status.aliveIter fid).mpr ⟨status, found, same, rfl⟩
    have absent : fid ∉ arc.mru.toList := off_side_not_mem lists.mru (found ▸ off_mru_of_mfu same)
    rw [if_neg (by simp [same]), if_neg (by simp [same])]
    constructor
    · rw [residents_off absent, policyOf, without_absent _ absent]
    · rw [StdList.to_list_erase lists.mfu.unique own, residents_erase lists.mfu.unique]
      rfl

theorem remove_agrees (lists : AliveInv arc) (removed : arc.remove fid = some after) :
    policyOf after = (policyOf arc).remove fid := by
  cases found : arc.aliveMap fid with
  | none =>
      have notMru : fid ∉ arc.mru.toList := off_side_not_mem lists.mru (found ▸ off_none _)
      have notMfu : fid ∉ arc.mfu.toList := off_side_not_mem lists.mfu (found ▸ off_none _)
      simp only [remove, found, Option.some.injEq] at removed
      rw [← removed]
      simp only [Policy.remove, policyOf, without_absent _ notMru, without_absent _ notMfu]
  | some status =>
      by_cases free : status.evictable = true
      · obtain ⟨t1, t2⟩ := residents_left lists found
        simp only [remove, found, free, if_true, Option.some.injEq] at removed
        subst removed
        simp only [Policy.remove, ← t1, ← t2]
        split <;> rfl
      · simp [remove, found, free] at removed

def seen (result : Option FrameId × ArcReplacer) : Option (FrameId × Policy) :=
  result.1.map fun fid => (fid, policyOf result.2)

theorem seen_or (result : Option FrameId × ArcReplacer)
    (second : ArcReplacer → Option FrameId × ArcReplacer) :
    seen (orTry result second) = (seen result).or (seen (second result.2)) := by
  obtain ⟨answer, middle⟩ := result
  cases answer <;> rfl

theorem t1_agrees (lists : AliveInv arc) : seen arc.tryEvictFromMru = (policyOf arc).evictT1 := by
  have chosen := lru_victim arc arc.mru
  unfold Policy.evictT1
  cases victim : arc.victim? arc.mru with
  | none =>
      rw [show lru? (policyOf arc).t1 = none by rw [policyOf, chosen, victim]; rfl]
      simp [seen, tryEvictFromMru, tryEvict, victim]
  | some node =>
      obtain ⟨status, found, same, place, free⟩ := victim_some lists.mru victim
      obtain ⟨t1, t2⟩ := residents_left lists found
      rw [if_pos same] at t1 t2
      rw [show lru? (policyOf arc).t1 = some ⟨node.2, status.pageId, status.evictable⟩ by
        rw [policyOf, chosen, victim, Option.bind_some, resident_found found]]
      simp only [seen, tryEvictFromMru, tryEvict, victim, found, Option.map_some, ← place,
        Option.some.injEq, Prod.mk.injEq, true_and, ← t1]
      simp only [policyOf, Policy.mk.injEq, and_true, true_and, StdList.to_list_push_front]
      rw [t2, policyOf, without_absent _ (off_side_not_mem lists.mfu (found ▸ off_mfu_of_mru same))]

theorem t2_agrees (lists : AliveInv arc) : seen arc.tryEvictFromMfu = (policyOf arc).evictT2 := by
  have chosen := lru_victim arc arc.mfu
  unfold Policy.evictT2
  cases victim : arc.victim? arc.mfu with
  | none =>
      rw [show lru? (policyOf arc).t2 = none by rw [policyOf, chosen, victim]; rfl]
      simp [seen, tryEvictFromMfu, tryEvict, victim]
  | some node =>
      obtain ⟨status, found, same, place, free⟩ := victim_some lists.mfu victim
      obtain ⟨t1, t2⟩ := residents_left lists found
      rw [if_neg (by simp [same])] at t1 t2
      rw [show lru? (policyOf arc).t2 = some ⟨node.2, status.pageId, status.evictable⟩ by
        rw [policyOf, chosen, victim, Option.bind_some, resident_found found]]
      simp only [seen, tryEvictFromMfu, tryEvict, victim, found, Option.map_some, ← place,
        Option.some.injEq, Prod.mk.injEq, true_and, ← t2]
      simp only [policyOf, Policy.mk.injEq, and_true, StdList.to_list_push_front]
      rw [t1, policyOf, without_absent _ (off_side_not_mem lists.mru (found ▸ off_mru_of_mfu same))]

theorem evict_agrees (lists : AliveInv arc) : seen arc.evict = (policyOf arc).evict := by
  have t1 : (policyOf arc).t1.length = arc.mru.size := residents_length lists.mru
  have target : (policyOf arc).target = arc.mruTargetSize := rfl
  -- a search that finds nothing leaves the replacer as it was
  have fromMru : seen (orTry arc.tryEvictFromMru tryEvictFromMfu) =
    (policyOf arc).evictT1.or (policyOf arc).evictT2 := by
    rw [seen_or, t1_agrees lists]
    cases first : arc.tryEvictFromMru with
    | mk answer middle =>
        cases answer with
        | none => rw [(try_evict_none lists.mru first).1, t2_agrees lists]
        | some fid =>
            rw [← t1_agrees lists, first]
            rfl
  have fromMfu : seen (orTry arc.tryEvictFromMfu tryEvictFromMru) =
    (policyOf arc).evictT2.or (policyOf arc).evictT1 := by
    rw [seen_or, t2_agrees lists]
    cases first : arc.tryEvictFromMfu with
    | mk answer middle =>
        cases answer with
        | none => rw [(try_evict_none lists.mfu first).1, t1_agrees lists]
        | some fid =>
            rw [← t2_agrees lists, first]
            rfl
  unfold evict Policy.evict
  rw [t1, target]
  by_cases empty : arc.currSize = 0
  · rw [if_pos empty]
    have nothing {side : ArcStatus} {list : StdList FrameId}
      (lists' : Lists list arc.aliveMap side) :
      lru? (list.toList.filterMap (resident arc.aliveMap)) = none := by
      rw [lru_victim]
      cases victim : arc.victim? list with
      | none => rfl
      | some node =>
          obtain ⟨status, found, _, _, free⟩ := victim_some lists' victim
          have counted := size_pos_of_evictable lists found
          rw [free, empty] at counted
          simp at counted
    have noT1 : (policyOf arc).evictT1 = none := by
      rw [Policy.evictT1, policyOf, nothing lists.mru]
      rfl
    have noT2 : (policyOf arc).evictT2 = none := by
      rw [Policy.evictT2, policyOf, nothing lists.mfu]
      rfl
    rw [noT1, noT2, ite_self]
    rfl
  · rw [if_neg empty]
    split
    · rw [fromMru]
    · rw [fromMfu]

theorem call_agrees (inv : Inv capacity arc) {op : Call} (lowered : ¬Unlowered arc op)
    (called : arc.call op = some after) :
    policyOf after = (policyOf arc).call op := by
  cases op with
  | recordAccess fid pid =>
      obtain rfl := Option.some.inj called
      exact access_agrees inv lowered
  | setEvictable fid flag =>
      obtain rfl := Option.some.inj called
      exact set_evictable_agrees _ fid flag
  | evict =>
      obtain rfl := Option.some.inj called
      rw [Policy.call, ← evict_agrees inv.lists, seen]
      cases outcome : arc.evict with
      | mk answer middle =>
          cases answer with
          | none => rw [(evict_none inv.lists outcome).1]; rfl
          | some fid => rfl
  | remove fid => exact remove_agrees inv.lists called

end Steps

/-- The lists, the target and the flags are those of the policy, and the next
`Evict` would take the policy's victim. -/
structure Follows (arc : ArcReplacer) (reference : Policy) : Prop where
  state : policyOf arc = reference
  victim : arc.evict.1 = reference.evict.map Prod.fst

section Runs
variable {arc start last middle : ArcReplacer} {reference : Policy} {capacity : Nat}
  {calls done : List Call}

theorem follows_of_state (inv : Inv capacity arc) (state : policyOf arc = reference) :
    Follows arc reference := by
  refine ⟨state, ?_⟩
  rw [← state, ← evict_agrees inv.lists, seen, Option.map_map]
  simp [Function.comp_def]

theorem run_inv (inv : Inv capacity start)
    (run : Run (guarded Issued (graph call)) start calls last) :
    Inv capacity last := by
  refine @TransitionSystem.run_preserves _ _ _ (Inv capacity) ?_ _ _ _ run inv
  rintro before op after held ⟨issued, called⟩
  exact call_inv held issued called

theorem issued_run_unique {other : ArcReplacer}
    (run : Run (guarded Issued (graph call)) start calls last)
    (second : Run (guarded Issued (graph call)) start calls other) : last = other :=
  TransitionSystem.run_unique (fun _ _ _ _ one two =>
    Option.some.inj (one.2.symm.trans two.2)) run second

theorem lowered_run_agrees (inv : Inv capacity start) (state : policyOf start = reference)
    (run : Run (guarded Issued (graph call)) start calls last)
    (lowered : ∀ done op left middle, calls = done ++ op :: left →
      Run (guarded Issued (graph call)) start done middle → ¬Unlowered middle op) :
    policyOf last = reference.run calls := by
  induction run generalizing reference with
  | refl _ => exact state
  | @next before middle after op rest step later ih =>
      have here := call_agrees inv (lowered [] op rest before rfl (Run.refl before)) step.2
      apply ih (call_inv inv step.1 step.2) (here.trans (by rw [state]))
      intro done next left stop split front
      exact lowered (op :: done) next left stop (by rw [split, List.cons_append])
        (Run.next step front)

/-- Over a run of calls that a buffer pool can issue, the replacer is the ARC
policy after every call exactly when no hit is `Unlowered`. -/
theorem follows_policy_iff_lowered (capacity : Nat) (calls : List Call) (last : ArcReplacer)
    (run : Run (guarded Issued (graph call)) (new capacity) calls last) :
    (∀ done left middle, calls = done ++ left →
        Run (guarded Issued (graph call)) (new capacity) done middle →
        Follows middle ((Policy.new capacity).run done)) ↔
      ∀ done op left middle, calls = done ++ op :: left →
        Run (guarded Issued (graph call)) (new capacity) done middle → ¬Unlowered middle op := by
  have first : policyOf (new capacity) = Policy.new capacity := by simp [policyOf, new, Policy.new]
  constructor
  · intro follows done op left middle split front unlowered
    have inv := run_inv (new_inv capacity) front
    obtain ⟨stop, upTo, rest⟩ := TransitionSystem.run_split (split ▸ run)
    obtain rfl := issued_run_unique front upTo
    cases rest with
    | @next _ after _ _ _ step later =>
        have before := (follows done (op :: left) middle split front).state
        have behind := (follows (done ++ [op]) left after (by rw [split, List.append_assoc]; rfl)
          (TransitionSystem.run_snoc front step)).state
        cases op with
        | recordAccess fid pid =>
            obtain rfl := Option.some.inj step.2
            apply unlowered_differs inv unlowered
            rw [behind, before, Policy.run, List.foldl_append]
            rfl
        | setEvictable fid flag => exact unlowered
        | evict => exact unlowered
        | remove fid => exact unlowered
  · intro lowered done left middle split front
    apply follows_of_state (run_inv (new_inv capacity) front)
    apply lowered_run_agrees (new_inv capacity) first front
    intro early op later stop split' upTo
    exact lowered early op (later ++ left) stop (by rw [split, split', List.append_assoc]; rfl) upTo

theorem one_frame_follows :
    Follows oneFrame ((Policy.new 1).run [.recordAccess 0 7, .setEvictable 0 true]) := by
  have access : guarded Issued (graph call) (new 1) (.recordAccess 0 7)
    ((new 1).recordAccess 0 7) :=
    ⟨⟨by decide, fun _ _ found => by cases found⟩, rfl⟩
  have release : guarded Issued (graph call) ((new 1).recordAccess 0 7)
    (.setEvictable 0 true) oneFrame :=
    ⟨trivial, rfl⟩
  have run := Run.next access (Run.next release (Run.refl oneFrame))
  refine (follows_policy_iff_lowered 1 _ oneFrame run).mpr ?_ _ [] oneFrame
    (List.append_nil _).symm run
  -- the first page is no ghost, and the second call is no access
  intro done op left middle split front unlowered
  rcases done with _ | ⟨one, _ | ⟨two, done⟩⟩
  · simp only [List.nil_append, List.cons.injEq] at split
    obtain rfl := issued_run_unique front (Run.refl (new 1))
    rw [← split.1] at unlowered
    exact absurd unlowered.2.1 (by decide)
  · simp only [List.cons_append, List.nil_append, List.cons.injEq] at split
    rw [← split.2.1] at unlowered
    exact unlowered
  · have := congrArg List.length split
    simp at this

end Runs

/-! A run for the other side: both frames of the longer `b1` and the only page
of `b2` are ghosts when that page is accessed again. -/

def mayIssue (arc : ArcReplacer) : Call → Bool
  | .recordAccess fid pid =>
      match arc.aliveMap fid with
      | some status => status.pageId = pid
      | none => arc.mru.size + arc.mfu.size < arc.replacerSize ∧
          ∀ other ∈ (policyOf arc).t1 ++ (policyOf arc).t2, other.page ≠ pid
  | _ => true

theorem may_issue {capacity : Nat} {arc : ArcReplacer} (inv : Inv capacity arc) {op : Call}
    (may : mayIssue arc op = true) :
    Issued arc op := by
  cases op with
  | recordAccess fid pid =>
      unfold mayIssue at may
      unfold Issued
      dsimp only at may ⊢
      cases found : arc.aliveMap fid with
      | some status => simpa [found] using may
      | none =>
          simp only [found, decide_eq_true_eq] at may
          refine ⟨may.1, fun other status alive => ?_⟩
          apply may.2 ⟨other, status.pageId, status.evictable⟩
          have here := resident_found alive
          rcases inv.lists.side other status alive with same | same
          · exact List.mem_append_left _
              (List.mem_filterMap.mpr ⟨other, (lists_mem inv.lists.mru).mpr ⟨status, alive, same⟩,
                here⟩)
          · exact List.mem_append_right _
              (List.mem_filterMap.mpr ⟨other, (lists_mem inv.lists.mfu).mpr ⟨status, alive, same⟩,
                here⟩)
  | setEvictable fid flag => trivial
  | evict => trivial
  | remove fid => trivial

theorem issued_of_fold {capacity : Nat} {start last : ArcReplacer} {calls : List Call}
    (inv : Inv capacity start)
    (folded : calls.foldlM (fun arc op => if mayIssue arc op then arc.call op else none) start =
      some last) :
    Run (guarded Issued (graph call)) start calls last := by
  induction calls generalizing start with
  | nil =>
      obtain rfl : start = last := by simpa using folded
      exact Run.refl start
  | cons op rest ih =>
      simp only [List.foldlM_cons, Option.bind_eq_bind, Option.bind_eq_some_iff] at folded
      obtain ⟨middle, first, later⟩ := folded
      split at first
      · rename_i may
        exact Run.next ⟨may_issue inv may, first⟩
          (ih (call_inv inv (may_issue inv may) first) later)
      · cases first

def shorterGhosts : List Call :=
  [.recordAccess 0 0, .recordAccess 1 1, .recordAccess 2 2, .setEvictable 0 true, .evict,
    .recordAccess 0 0, .setEvictable 1 true, .setEvictable 2 true, .evict, .evict,
      .setEvictable 0 true, .evict, .recordAccess 0 0]

/-- The last access finds page 0 in `b2` with two pages in `b1` and the target
at 1: ARC lowers it to 0, the replacer does not. -/
theorem target_not_lowered :
    ¬∀ (capacity : Nat) (calls : List Call) (last : ArcReplacer),
      Run (guarded Issued (graph call)) (new capacity) calls last →
      ∀ done left middle, calls = done ++ left →
        Run (guarded Issued (graph call)) (new capacity) done middle →
        Follows middle ((Policy.new capacity).run done) := by
  intro claim
  obtain ⟨last, folded, target⟩ : ∃ last, shorterGhosts.foldlM
    (fun arc op => if mayIssue arc op then arc.call op else none) (new 3) = some last ∧
      last.mruTargetSize = 1 :=
    ⟨_, rfl, rfl⟩
  have run := issued_of_fold (new_inv 3) folded
  have follows := claim 3 shorterGhosts last run shorterGhosts [] last (List.append_nil _).symm run
  have lowered : ((Policy.new 3).run shorterGhosts).target = 0 := by decide
  rw [← follows.state] at lowered
  exact absurd (target.symm.trans lowered) (by decide)

end BusTub.ArcReplacer
