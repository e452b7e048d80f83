import BusTub.UndoLog

/-!
A transaction that writes one row again and again keeps a single undo log for it.
Whatever it writes, the log leads from the newest row back to the one that stood
there before its first write.
-/

namespace BusTub.UndoMerging

structure Written where
  values : Tuple
  isDeleted : Bool
  log : UndoLog

/-- What `ModifyTuple` passes as the tuple before the write: nothing when it is deleted. -/
def before (values : Tuple) (isDeleted : Bool) : Option Tuple := if isDeleted then none
    else some values

def firstWrite (schema : Schema) (values : Tuple) (metadata : TupleMeta) (prevVersion : UndoLink)
    (target : Option Tuple) :
    Written where
  values := target.getD values
  isDeleted := target.isNone
  log := generateNewUndoLog schema (before values metadata.isDeleted) target metadata.ts prevVersion

def Written.write (written : Written) (target : Option Tuple) : Written where
  values := target.getD written.values
  isDeleted := target.isNone
  log := generateUpdatedUndoLog (before written.values written.isDeleted) target written.log

def Written.writes (written : Written) (targets : List (Option Tuple)) :
    Written := targets.foldl Written.write written

section Merging
variable {schema : Schema} {written : Written} {original : Option Tuple} {ts : Timestamp}
  {prevVersion : UndoLink} {target : Option Tuple}

structure Leads (schema : Schema) (original : Option Tuple) (ts : Timestamp)
    (prevVersion : UndoLink) (written : Written) : Prop where
  fits : written.values.Fits schema
  stands : Stands written.log original
  covers : Covers written.log.modifiedFields (before written.values written.isDeleted) original
  ts : written.log.ts = ts
  prev : written.log.prevVersion = prevVersion

theorem before_written (target : Option Tuple) (values : Tuple) :
    before (target.getD values) target.isNone = target := by
  cases target <;> rfl

theorem before_fits {values row : Tuple} {isDeleted : Bool} (fits : values.Fits schema)
    (live : before values isDeleted = some row) : row.Fits schema := by
  unfold before at live
  split at live
  · cases live
  · exact Option.some.inj live ▸ fits

theorem written_fits {values : Tuple} (fits : values.Fits schema)
    (targetFits : ∀ tuple ∈ target, tuple.Fits schema) : (target.getD values).Fits schema := by
  cases target with
  | none => exact fits
  | some tuple => exact targetFits tuple rfl

theorem first_leads {values : Tuple} {metadata : TupleMeta} {target : Option Tuple}
    (fits : values.Fits schema) (targetFits : ∀ tuple ∈ target, tuple.Fits schema) :
    Leads schema (before values metadata.isDeleted) metadata.ts prevVersion
      (firstWrite schema values metadata prevVersion target) := by
  obtain ⟨stands, covers⟩ :=
    @new_log_stands (before values metadata.isDeleted) target schema metadata.ts prevVersion
      (fun old new wasThere isTarget =>
        (before_fits fits wasThere).trans (targetFits new isTarget).symm)
  refine ⟨written_fits fits targetFits, stands, ?_, rfl, rfl⟩
  simp only [firstWrite, before_written]
  exact covers

/-- A later write keeps the log leading to the original row and takes no field away. -/
theorem write_leads (originalFits : ∀ tuple ∈ original, tuple.Fits schema)
    (leads : Leads schema original ts prevVersion written)
    (targetFits : ∀ tuple ∈ target, tuple.Fits schema) :
    Leads schema original ts prevVersion (written.write target) ∧
      Wider written.log.modifiedFields (written.write target).log.modifiedFields := by
  obtain ⟨stands, wider, covers⟩ :=
    @updated_log_stands written.log (before written.values written.isDeleted) target original
    leads.stands leads.covers
    (fun old new wasThere isTarget =>
      (before_fits leads.fits wasThere).trans (targetFits new isTarget).symm)
    (fun old new wasOriginal isTarget =>
      (Tuple.fits_length (targetFits new isTarget)).trans
        (Tuple.fits_length (originalFits old wasOriginal)).symm)
  obtain ⟨sameTs, samePrev⟩ :=
    updated_log_same (before written.values written.isDeleted) target written.log
  refine ⟨⟨written_fits leads.fits targetFits, stands, ?_, sameTs.trans leads.ts,
    samePrev.trans leads.prev⟩, wider⟩
  simp only [Written.write, before_written]
  exact covers

theorem writes_lead {targets : List (Option Tuple)}
    (originalFits : ∀ tuple ∈ original, tuple.Fits schema)
    (leads : Leads schema original ts prevVersion written)
    (targetsFit : ∀ target ∈ targets, ∀ tuple ∈ target, tuple.Fits schema) :
    Leads schema original ts prevVersion (written.writes targets) ∧
      Wider written.log.modifiedFields (written.writes targets).log.modifiedFields := by
  induction targets generalizing written with
  | nil => exact ⟨leads, wider_refl _⟩
  | cons target targets ih =>
      obtain ⟨next, wider⟩ := write_leads originalFits leads (targetsFit target List.mem_cons_self)
      obtain ⟨rest, wider'⟩ := ih next fun other member =>
        targetsFit other (List.mem_cons_of_mem _ member)
      exact ⟨rest, wider_trans wider wider'⟩

/-- The tuple on the page and the one log reconstruct the original row. -/
theorem leads_back (originalFits : ∀ tuple ∈ original, tuple.Fits schema)
    (leads : Leads schema original ts prevVersion written) (metadata : TupleMeta) :
    reconstructTuple written.values metadata [written.log] = original := by
  have shows : Shows written.values written.isDeleted
    (before written.values written.isDeleted) := by
    rw [shows_iff]
    rfl
  obtain ⟨back, _⟩ := apply_log shows leads.stands leads.covers fun tuple same =>
    (Tuple.fits_length leads.fits).trans (Tuple.fits_length (originalFits tuple same)).symm
  rw [shows_iff] at back
  rw [back]
  rfl

/-- However a transaction updates, deletes and revives a row, its one undo log restores the row
that was there before, keeps its timestamp and its link, and never loses a field. -/
theorem merged_log_restores (schema : Schema) (values : Tuple) (metadata : TupleMeta)
    (prevVersion : UndoLink) (fits : values.Fits schema) (first : Option Tuple)
    (firstFits : ∀ tuple ∈ first, tuple.Fits schema) (targets : List (Option Tuple))
    (targetsFit : ∀ target ∈ targets, ∀ tuple ∈ target, tuple.Fits schema) :
    let start := firstWrite schema values metadata prevVersion first
    (∀ now : TupleMeta,
      reconstructTuple (start.writes targets).values now [(start.writes targets).log] =
      reconstructTuple values metadata []) ∧
    (start.writes targets).log.ts = metadata.ts ∧
      (start.writes targets).log.prevVersion = prevVersion ∧ ∀ done left, targets = done ++ left →
      Wider (start.writes done).log.modifiedFields (start.writes targets).log.modifiedFields := by
  intro start
  have original : reconstructTuple values metadata [] = before values metadata.isDeleted := rfl
  have originalFits : ∀ tuple ∈ before values metadata.isDeleted, tuple.Fits schema :=
    fun tuple live => before_fits fits live
  have begun := @first_leads schema prevVersion values metadata first fits firstFits
  obtain ⟨leads, _⟩ := writes_lead originalFits begun targetsFit
  refine ⟨fun now => ?_, leads.ts, leads.prev, fun done left split => ?_⟩
  · rw [original]
    exact leads_back originalFits leads now
  · subst split
    obtain ⟨half, _⟩ := writes_lead originalFits begun fun target member =>
      targetsFit target (List.mem_append_left _ member)
    obtain ⟨_, wider⟩ := writes_lead originalFits half fun target member =>
      targetsFit target (List.mem_append_right _ member)
    rw [Written.writes, Written.writes, List.foldl_append]
    exact wider

/-- A row of two columns is updated in one, deleted and revived with a NULL. -/
theorem revived_row_restored :
    let one : Value := ⟨.integer, some (.number 1)⟩
    let two : Value := ⟨.integer, some (.number 2)⟩
    let nothing : Value := ⟨.integer, none⟩
    let start := firstWrite [.integer, .integer] [one, nothing] ⟨7, false⟩ {} (some [two, nothing])
    reconstructTuple (start.writes [none, some [nothing, two]]).values ⟨TXN_START_ID, false⟩
      [(start.writes [none, some [nothing, two]]).log] =
        reconstructTuple [one, nothing] ⟨7, false⟩ [] := by
  intro one two nothing start
  refine (merged_log_restores [.integer, .integer] [one, nothing] ⟨7, false⟩ {} rfl
    (some [two, nothing]) ?_ [none, some [nothing, two]] ?_).1 ⟨TXN_START_ID, false⟩
  · rintro tuple ⟨⟩
    rfl
  · intro target member tuple isTarget
    simp only [List.mem_cons, List.not_mem_nil, or_false] at member
    rcases member with rfl | rfl
    · cases isTarget
    · cases isTarget
      rfl

end Merging

end BusTub.UndoMerging
