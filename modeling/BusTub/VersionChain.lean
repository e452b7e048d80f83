import BusTub.VersionLedger

/-!
Undo chains. A chain hangs below a row of timestamp `upper` and lists the older
versions of the RID, newest first. Below a version that the last garbage
collection could see past (`upper` at most the horizon) nothing is promised:
logs there may be gone.
-/

namespace BusTub

/-- A timestamp and the row that was current from then on. -/
abbrev Stage := Timestamp × Option Tuple

/-- Each log on the chain holds the next older row, and its fields suffice to go
back to it from the row above. -/
inductive Chain (logs : UndoLink → Option UndoLog) (image : UndoLink → Stage)
    (horizon : Timestamp) :
    Timestamp → Option Tuple → UndoLink → List Stage → Prop where
  | stale {upper : Timestamp} {row : Option Tuple} {link : UndoLink} {older : List Stage} :
      upper ≤ horizon → Chain logs image horizon upper row link older
  | root {upper : Timestamp} {row : Option Tuple} {link : UndoLink} :
      link.isValid = false → Chain logs image horizon upper row link []
  | older {upper : Timestamp} {row : Option Tuple} {link : UndoLink} {log : UndoLog}
      {rest : List Stage} :
      link.isValid = true → logs link = some log → (image link).1 < upper →
      Covers log.modifiedFields row (image link).2 →
      Chain logs image horizon (image link).1 (image link).2 log.prevVersion rest →
      Chain logs image horizon upper row link (image link :: rest)

/-- The row a snapshot of timestamp `ts` takes from a list of versions. -/
def pick (ts : Timestamp) (stages : List Stage) : Option Tuple :=
  (stages.find? fun stage => stage.1 ≤ ts).bind Prod.snd

/-- Logs are only appended and widened. -/
def LogsGrow (logs : UndoLink → Option UndoLog) (image : UndoLink → Stage)
    (logs' : UndoLink → Option UndoLog) (image' : UndoLink → Stage) : Prop :=
  ∀ link log, logs link = some log → ∃ log', logs' link = some log' ∧ image' link = image link ∧
    log'.prevVersion = log.prevVersion ∧ Wider log.modifiedFields log'.modifiedFields

/-- Every log holds the row it was made from. -/
def LogsStand (logs : UndoLink → Option UndoLog) (image : UndoLink → Stage) : Prop :=
  ∀ link log, logs link = some log → log.ts = (image link).1 ∧ Stands log (image link).2

section Chains
variable {logs logs' : UndoLink → Option UndoLog} {image image' : UndoLink → Stage}
  {horizon upper ts : Timestamp} {row : Option Tuple} {link : UndoLink} {older : List Stage}

theorem logs_grow_refl (logs : UndoLink → Option UndoLog) (image : UndoLink → Stage) :
    LogsGrow logs image logs image :=
  fun _ log found => ⟨log, found, rfl, rfl, wider_refl _⟩

theorem chain_grows (grows : LogsGrow logs image logs' image')
    (chain : Chain logs image horizon upper row link older) :
    Chain logs' image' horizon upper row link older := by
  induction chain with
  | stale low => exact Chain.stale low
  | root invalid => exact Chain.root invalid
  | older valid found before covers _ ih =>
      obtain ⟨log', found', sameImage, samePrev, wider⟩ := grows _ _ found
      rw [← sameImage] at before covers ih ⊢
      exact Chain.older valid found' before (covers_wider wider covers) (samePrev ▸ ih)

theorem chain_root (fresh : horizon < upper) (invalid : link.isValid = false)
    (chain : Chain logs image horizon upper row link older) : older = [] := by
  cases chain with
  | stale low => exact absurd low (Int.not_le.mpr fresh)
  | root _ => rfl
  | older valid _ _ _ _ => simp [invalid] at valid

/-- A valid link that a snapshot above the horizon still needs has its log. -/
theorem chain_link (fresh : horizon < upper) (valid : link.isValid = true)
    (chain : Chain logs image horizon upper row link older) :
    ∃ log rest, logs link = some log ∧ older = image link :: rest ∧ (image link).1 < upper ∧
      Covers log.modifiedFields row (image link).2 ∧
      Chain logs image horizon (image link).1 (image link).2 log.prevVersion rest := by
  cases chain with
  | stale low => exact absurd low (Int.not_le.mpr fresh)
  | root invalid => simp [valid] at invalid
  | older _ found before covers rest => exact ⟨_, _, found, rfl, before, covers, rest⟩

theorem chain_older {log : UndoLog} {stage : Stage} (valid : link.isValid = true)
    (found : logs link = some log) (here : image link = stage) (before : stage.1 < upper)
    (covers : Covers log.modifiedFields row stage.2)
    (rest : Chain logs image horizon stage.1 stage.2 log.prevVersion older) :
    Chain logs image horizon upper row link (stage :: older) := by
  subst here
  exact Chain.older valid found before covers rest

/-- Below a row that every listed version is older than, the timestamp above does not matter. -/
theorem chain_restamp {other : Timestamp} (fresh : horizon < upper)
    (above : ∀ stage ∈ older, stage.1 < other)
    (chain : Chain logs image horizon upper row link older) :
    Chain logs image horizon other row link older := by
  cases chain with
  | stale low => exact absurd low (Int.not_le.mpr fresh)
  | root invalid => exact Chain.root invalid
  | older valid found _ covers rest =>
      exact Chain.older valid found (above _ (List.mem_cons_self ..)) covers rest

/-- One link that is not valid is as good as another. -/
theorem chain_unlinked {other : UndoLink} (invalid : link.isValid = false)
    (invalid' : other.isValid = false) (chain : Chain logs image horizon upper row link older) :
    Chain logs image horizon upper row other older := by
  cases chain with
  | stale low => exact Chain.stale low
  | root _ => exact Chain.root invalid'
  | older valid _ _ _ _ => simp [invalid] at valid

theorem pick_cons (stage : Stage) (stages : List Stage) :
    pick ts (stage :: stages) = if stage.1 ≤ ts then stage.2 else pick ts stages := by
  unfold pick
  by_cases early : stage.1 ≤ ts
  · simp [early]
  · simp [early]

/-- A deleted row at the beginning of time is as good as none. -/
theorem pick_vacant (stages : List Stage) (stage : Timestamp) :
    pick ts (stages ++ [(stage, none)]) = pick ts stages := by
  induction stages with
  | nil =>
      rw [List.nil_append, pick_cons]
      split <;> rfl
  | cons first rest ih => rw [List.cons_append, pick_cons, pick_cons, ih]

end Chains

namespace Ledger

def stages (ledger : Ledger) (rid : RID) : List Stage :=
  (ledger.committed rid).map fun version => (version.commitTs, version.row)

theorem pick_stages (ledger : Ledger) (ts : Timestamp) (rid : RID) :
    pick ts (ledger.stages rid) = ledger.committedAt ts rid := by
  unfold pick stages committedAt
  rw [List.find?_map, Option.bind_map]
  rfl

end Ledger

/-- The versions of a RID as its chain lists them: an aborted insert leaves a
deleted row of timestamp zero below all others. -/
def StagesOf (ledger : Ledger) (rid : RID) (all : List Stage) : Prop :=
  all = ledger.stages rid ∨ all = ledger.stages rid ++ [(0, none)]

theorem version_listed {ledger : Ledger} {rid : RID} {all : List Stage}
    (whole : StagesOf ledger rid all)
    {version : Version} (member : version ∈ ledger.committed rid) :
    (version.commitTs, version.row) ∈ all := by
  have inside : (version.commitTs, version.row) ∈ ledger.stages rid :=
    List.mem_map.mpr ⟨version, member, rfl⟩
  rcases whole with rfl | rfl
  · exact inside
  · exact List.mem_append_left _ inside

theorem pick_of_stages {ledger : Ledger} {rid : RID} {all : List Stage}
    (whole : StagesOf ledger rid all)
    (ts : Timestamp) : pick ts all = ledger.committedAt ts rid := by
  rcases whole with rfl | rfl
  · exact ledger.pick_stages ts rid
  · rw [pick_vacant, ledger.pick_stages]

end BusTub
