import BusTub.UndoLog
import BusTub.DiskManager
import Mathlib.Data.Finset.Max

/-!
The watermark of `concurrency/watermark.cpp`: the lowest read timestamp of the
running transactions, or the last commit timestamp when none runs.
-/

namespace BusTub

structure Watermark where
  commitTs : Timestamp
  watermark : Timestamp
  currentReads : UnorderedMap Timestamp Nat
  readTimestamps : Finset Timestamp

namespace Watermark

def new (commitTs : Timestamp) : Watermark where
  commitTs := commitTs
  watermark := commitTs
  currentReads := ∅
  readTimestamps := ∅

/-- `*read_timestamps_.begin()` of a set that is not empty. -/
def lowest (readTimestamps : Finset Timestamp) (default : Timestamp) : Timestamp :=
  if nonempty : readTimestamps.Nonempty then readTimestamps.min' nonempty else default

/-- `none` is the exception on a timestamp that is already behind. -/
def addTxn (running : Watermark) (readTs : Timestamp) : Option Watermark :=
  if readTs < running.commitTs then none
  else
    let readTimestamps := insert readTs running.readTimestamps
    some { running with
      currentReads := running.currentReads.insert readTs
        ((running.currentReads.lookup readTs).getD 0 + 1)
      readTimestamps := readTimestamps
      watermark := lowest readTimestamps running.watermark }

def removeTxn (running : Watermark) (readTs : Timestamp) : Watermark :=
  match running.currentReads.lookup readTs with
  | none => running
  | some count =>
      let running :=
        if count - 1 = 0 then
          { running with
            currentReads := running.currentReads.erase readTs
            readTimestamps := running.readTimestamps.erase readTs }
        else { running with currentReads := running.currentReads.insert readTs (count - 1) }
      { running with watermark := lowest running.readTimestamps running.commitTs }

def updateCommitTs (running : Watermark) (commitTs : Timestamp) : Watermark :=
  { running with commitTs := commitTs }

def getWatermark (running : Watermark) : Timestamp :=
  if running.currentReads.keys = [] then running.commitTs else running.watermark

/-- The watermark follows the read timestamps of the transactions it was told
of, each as often as it occurs. -/
structure Follows (running : Watermark) (reads : List Timestamp) : Prop where
  counts : ∀ ts, running.currentReads.lookup ts = if ts ∈ reads then some (reads.count ts) else none
  timestamps : ∀ ts, ts ∈ running.readTimestamps ↔ ts ∈ reads
  mark : ∀ nonempty : running.readTimestamps.Nonempty,
    running.watermark = running.readTimestamps.min' nonempty

section Follows
variable {running after : Watermark} {reads : List Timestamp} {readTs : Timestamp}

theorem new_follows (commitTs : Timestamp) : Follows (new commitTs) [] where
  counts := by simp [new]
  timestamps := by simp [new]
  mark := by
    intro nonempty
    simp [new] at nonempty

theorem add_follows (follows : Follows running reads) (added : running.addTxn readTs = some after) :
    Follows after (readTs :: reads) ∧ after.commitTs = running.commitTs := by
  unfold addTxn at added
  split at added
  · cases added
  · obtain rfl := Option.some.inj added
    refine ⟨⟨?_, ?_, ?_⟩, rfl⟩
    · intro ts
      dsimp only
      by_cases hit : ts = readTs
      · subst hit
        rw [AList.lookup_insert, follows.counts]
        by_cases member : ts ∈ reads
        · simp [member]
        · simp [member, List.count_eq_zero_of_not_mem member]
      · rw [AList.lookup_insert_ne hit, follows.counts]
        simp [hit, Ne.symm hit]
    · intro ts
      simp [follows.timestamps ts]
    · intro nonempty
      simp [lowest]

theorem remove_follows (follows : Follows running reads) (member : readTs ∈ reads) :
    Follows (running.removeTxn readTs) (reads.erase readTs) ∧
      (running.removeTxn readTs).commitTs = running.commitTs := by
  have found : running.currentReads.lookup readTs = some (reads.count readTs) := by
    simp [follows.counts, member]
  have positive := List.count_pos_iff.mpr member
  have counted := List.count_erase_self (a := readTs) (l := reads)
  unfold removeTxn
  simp only [found]
  by_cases last : reads.count readTs - 1 = 0
  · rw [last] at counted
    have gone : readTs ∉ reads.erase readTs := List.count_eq_zero.mp counted
    simp only [last, if_true]
    refine ⟨⟨?_, ?_, ?_⟩, trivial⟩
    · intro ts
      dsimp only
      by_cases hit : ts = readTs
      · subst hit
        simp [gone]
      · rw [AList.lookup_erase_ne hit, follows.counts, List.count_erase_of_ne hit]
        simp [List.mem_erase_of_ne hit]
    · intro ts
      dsimp only
      rw [Finset.mem_erase, follows.timestamps]
      by_cases hit : ts = readTs
      · subst hit
        simp [gone]
      · simp [hit, List.mem_erase_of_ne hit]
    · intro nonempty
      dsimp only at nonempty
      simp [lowest, nonempty]
  · have still : readTs ∈ reads.erase readTs := by
      rw [← List.count_pos_iff]
      omega
    simp only [last, if_false]
    refine ⟨⟨?_, ?_, ?_⟩, trivial⟩
    · intro ts
      dsimp only
      by_cases hit : ts = readTs
      · subst hit
        simp [still, counted]
      · rw [AList.lookup_insert_ne hit, follows.counts, List.count_erase_of_ne hit]
        simp [List.mem_erase_of_ne hit]
    · intro ts
      dsimp only
      rw [follows.timestamps]
      by_cases hit : ts = readTs
      · subst hit
        simp [still, member]
      · simp [List.mem_erase_of_ne hit]
    · intro nonempty
      dsimp only at nonempty
      simp [lowest, nonempty]

theorem follows_perm {others : List Timestamp} (same : reads.Perm others)
    (follows : Follows running reads) :
    Follows running others where
  counts := by
    intro ts
    rw [follows.counts, same.count_eq]
    simp only [same.mem_iff]
  timestamps := fun ts => (follows.timestamps ts).trans same.mem_iff
  mark := follows.mark

/-- No running transaction reads below the watermark. -/
theorem watermark_le (follows : Follows running reads) (member : readTs ∈ reads) :
    running.getWatermark ≤ readTs := by
  have inside := (follows.timestamps readTs).mpr member
  have used : running.currentReads.keys ≠ [] := by
    intro empty
    have found : running.currentReads.lookup readTs = some (reads.count readTs) := by
      simp [follows.counts, member]
    have key : readTs ∈ running.currentReads := AList.lookup_isSome.mp (by simp [found])
    rw [AList.mem_keys, empty] at key
    cases key
  rw [getWatermark, if_neg used, follows.mark ⟨readTs, inside⟩]
  exact Finset.min'_le _ _ inside

/-- The watermark is one of the read timestamps, or the last commit. -/
theorem watermark_cases (follows : Follows running reads) :
    running.getWatermark = running.commitTs ∨ running.getWatermark ∈ reads := by
  unfold getWatermark
  split
  · exact Or.inl rfl
  · rename_i used
    obtain ⟨ts, key⟩ := List.exists_mem_of_ne_nil _ used
    have member : ts ∈ reads := by
      by_contra absent
      have found := AList.lookup_isSome.mpr (AList.mem_keys.mpr key)
      rw [follows.counts, if_neg absent] at found
      cases found
    have nonempty : running.readTimestamps.Nonempty := ⟨ts, (follows.timestamps ts).mpr member⟩
    rw [follows.mark nonempty]
    exact Or.inr ((follows.timestamps _).mp (Finset.min'_mem _ nonempty))

end Follows

end Watermark

end BusTub
