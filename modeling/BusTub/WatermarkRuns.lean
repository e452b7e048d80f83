import BusTub.SnapshotReads

/-!
The watermark over whole runs: it is the lowest snapshot of the transactions that are
neither committed nor aborted, or the last commit timestamp, and it does not fall.
-/

namespace BusTub

open TransitionSystem (Run graph)

/-- A timestamp is the lowest snapshot, as often as it is in use, or the last commit
timestamp where no transaction runs. -/
def History.Lowest (history : History) (mark : Timestamp) : Prop :=
  ((∃ id txn, history.Live id txn ∧ txn.readTs = mark) ∧ ∀ id txn, history.Live id txn →
    mark ≤ txn.readTs) ∨ ((∀ id txn, ¬history.Live id txn) ∧ mark = history.mgr.lastCommitTs)

section Watermarks
variable {catalog : TableOid → Schema} {before after : History} {op : TxnOp} {ids : List TxnId}
  {mark : Timestamp}

theorem clock_lowest (clock : ClockInv before ids) :
    before.Lowest before.mgr.runningTxns.getWatermark := by
  obtain ⟨_, below, lowest⟩ := watermark_bounds clock
  by_cases some_live : ∃ id txn, before.Live id txn
  · refine Or.inl ⟨?_, lowest⟩
    rcases Watermark.watermark_cases clock.reads with last | member
    · -- every snapshot lies between the watermark and the last commit
      obtain ⟨id, txn, live⟩ := some_live
      have upper := (clock.readTs id txn live).2.2
      have lower := lowest id txn live
      rw [clock.commitTs] at last
      exact ⟨id, txn, live, by lia⟩
    · obtain ⟨id, inside, same⟩ := List.mem_map.mp member
      obtain ⟨txn, live⟩ := (clock.exact id).mp inside
      rw [live.1, Option.map_some, Option.getD_some] at same
      exact ⟨id, txn, live, same⟩
  · have noLive : ∀ id txn, ¬before.Live id txn := fun id txn live => some_live ⟨id, txn, live⟩
    refine Or.inr ⟨noLive, ?_⟩
    have none : ids = [] := by
      rw [List.eq_nil_iff_forall_not_mem]
      intro id member
      obtain ⟨txn, live⟩ := (clock.exact id).mp member
      exact noLive id txn live
    rcases Watermark.watermark_cases clock.reads with last | member
    · exact last.trans clock.commitTs
    · rw [none] at member
      cases member

/-- A step neither takes the last commit back nor begins a transaction in the past. -/
theorem step_snapshots (inv : Inv before) (stepped : before.step op = some after) :
    before.mgr.lastCommitTs ≤ after.mgr.lastCommitTs ∧ ∀ id txn, after.Live id txn →
      txn.readTs = before.mgr.lastCommitTs ∨ ∃ txn', before.Live id txn' ∧
      txn'.readTs = txn.readTs := by
  obtain ⟨ids, clock⟩ := inv.clock
  cases inside : op.within with
  | some actor =>
      have moved := within_moved inv stepped inside
      refine ⟨moved.lastCommitTs.ge, fun id txn live => Or.inr ?_⟩
      obtain ⟨txn', was, same, _⟩ := acts_live_back moved.toActs live
      exact ⟨txn', was, same⟩
  | none =>
      cases op with
      | begin isolationLevel =>
          obtain ⟨running, begun⟩ := begun_step stepped
          have last : after.mgr.lastCommitTs = before.mgr.lastCommitTs := by rw [begun.mgr]; rfl
          refine ⟨last.ge, fun id txn live => ?_⟩
          rcases (begun_live begun clock).mp live with ⟨_, rfl⟩ | was
          · exact Or.inl rfl
          · exact Or.inr ⟨txn, was, rfl⟩
      | publish actor =>
          obtain ⟨_, _, commitTs, published⟩ := published_step inv stepped
          have next := published.next
          have last := published.published
          refine ⟨by lia, fun id txn live => Or.inr ⟨txn,
            ((ended_live published.toEnded).mp live).2, rfl⟩⟩
      | aborted actor =>
          obtain ⟨_, aborted⟩ := aborted_step inv stepped
          refine ⟨aborted.unchanged.ge, fun id txn live =>
            Or.inr ⟨txn, ((ended_live aborted.toEnded).mp live).2, rfl⟩⟩
      | garbageCollection =>
          obtain ⟨rfl, _⟩ := collected_step stepped
          exact ⟨le_refl _, fun id txn live => Or.inr ⟨txn, collected_live.mp live, rfl⟩⟩
      | _ => cases inside

theorem watermark_step (inv : Inv before) (stepped : before.step op = some after) :
    before.mgr.runningTxns.getWatermark ≤ after.mgr.runningTxns.getWatermark := by
  obtain ⟨ids, clock⟩ := inv.clock
  obtain ⟨_, below, lowest⟩ := watermark_bounds clock
  obtain ⟨last, snapshots⟩ := step_snapshots inv stepped
  obtain ⟨ids', clock'⟩ := (step_inv inv stepped).clock
  rcases clock_lowest clock' with ⟨⟨id, txn, live, mark⟩, _⟩ | ⟨_, mark⟩
  · rw [← mark]
    rcases snapshots id txn live with fresh | ⟨txn', was, same⟩
    · rw [fresh]
      exact below
    · rw [← same]
      exact lowest id txn' was
  · rw [mark]
    exact below.trans last

theorem watermark_run {ops : List TxnOp} (run : Run (graph History.step) before ops after)
    (inv : Inv before) :
    before.mgr.runningTxns.getWatermark ≤ after.mgr.runningTxns.getWatermark := by
  induction run with
  | refl _ => exact le_refl _
  | next stepped _ ih => exact (watermark_step inv stepped).trans (ih (step_inv inv stepped))

/-- In every state that any transactions reach the watermark is the lowest snapshot in use, or the
last commit timestamp, and from there it does not fall any more. -/
theorem watermark_correct (catalog : TableOid → Schema) (history : History)
    (reached : Reached catalog history) :
    history.Lowest history.mgr.runningTxns.getWatermark ∧
      ∀ ops later, Run (graph History.step) history ops later →
        history.mgr.runningTxns.getWatermark ≤ later.mgr.runningTxns.getWatermark := by
  have inv := reached_inv reached
  obtain ⟨ids, clock⟩ := inv.clock
  exact ⟨clock_lowest clock, fun ops later run => watermark_run run inv⟩

/-- The reader of the overwritten row holds the watermark back. -/
theorem overwritten_watermark : overwritten.Lowest overwritten.mgr.runningTxns.getWatermark :=
  (watermark_correct oneColumn overwritten (reached_run overwritten_run_returns)).1

end Watermarks

end BusTub
