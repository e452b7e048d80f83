import BusTub.KeyedSteps
import BusTub.UnseenCollection

/-!
A primary key is unique in every snapshot: two rows of one key would be at one
RID of the index, and what can be reconstructed there has the key of the entry.
-/

namespace BusTub

open TransitionSystem (Run graph)

inductive LogsFrom (mgr : TransactionManager) : UndoLink → List UndoLog → Prop where
  | stop (link : UndoLink) : LogsFrom mgr link []
  | log (link : UndoLink) (log : UndoLog) (rest : List UndoLog) (valid : link.isValid = true)
      (found : mgr.getUndoLogOptional link = some log) (older : LogsFrom mgr log.prevVersion rest) :
      LogsFrom mgr link (log :: rest)

def ReachableVersion (mgr : TransactionManager) (rid : RID) (tuple : Tuple) : Prop :=
  ∃ slot logs, mgr.heap.lookup rid = some slot ∧ LogsFrom mgr ((mgr.getUndoLink rid).getD {}) logs ∧
    reconstructTuple slot.tuple slot.metadata logs = some tuple

section Versions
variable {table : TableInfo} {store before after : KeyedStore} {history : History} {id : TxnId}
  {txn : Transaction} {rid : RID} {catalog : TableOid → Schema} {tuple : Tuple}
  {visible : Option Tuple}

/-- Down to the root every chain leads through rows of its RID. -/
theorem chain_rows {image : UndoLink → Stage} {upper : Timestamp} {row : Option Tuple}
    {link : UndoLink} {older : List Stage} {mgr : TransactionManager}
    (stand : LogsStand mgr.getUndoLogOptional image)
    (chain : Chain mgr.getUndoLogOptional image (-1) upper row link older) (fresh : 0 ≤ upper)
    (dated : ∀ stage ∈ older, 0 ≤ stage.1) {values : Tuple} {deleted : Bool}
    (shows : Shows values deleted row)
    (lengths : ∀ stage ∈ older, ∀ tuple, stage.2 = some tuple → values.length = tuple.length)
    {logs : List UndoLog} (behind : LogsFrom mgr link logs) :
    ∃ found values' deleted', (found = row ∨ ∃ stage ∈ older, stage.2 = found) ∧
      Shows values' deleted' found ∧
      logs.foldl (fun (values, _) log => (applyUndoLog values log, log.isDeleted))
        (values, deleted) =
        (values', deleted') := by
  induction chain generalizing values deleted logs with
  | stale low => lia
  | @root upper row link invalid =>
      cases behind with
      | stop => exact ⟨row, values, deleted, Or.inl rfl, shows, rfl⟩
      | log _ _ _ valid => cases invalid.symm.trans valid
  | @older upper row link log rest valid found before covers below ih =>
      cases behind with
      | stop => exact ⟨row, values, deleted, Or.inl rfl, shows, rfl⟩
      | log _ log' logs _ found' further =>
          obtain rfl : log = log' := Option.some.inj (found.symm.trans found')
          have first : image link ∈ image link :: rest := List.mem_cons_self
          obtain ⟨shows', sameLength⟩ :=
            apply_log shows (stand link log found).2 covers (lengths _ first)
          obtain ⟨row', values', deleted', listed, shows'', folded⟩ := ih (dated _ first)
            (fun stage member => dated stage (List.mem_cons_of_mem _ member)) shows'
            (fun stage member tuple same =>
              sameLength.trans (lengths stage (List.mem_cons_of_mem _ member) tuple same))
            further
          refine ⟨row', values', deleted', Or.inr ?_, shows'', folded⟩
          rcases listed with rfl | ⟨stage, member, same⟩
          · exact ⟨_, first, rfl⟩
          · exact ⟨stage, List.mem_cons_of_mem _ member, same⟩

theorem stage_row {all : List Stage} (whole : StagesOf history.ledger rid all) {stage : Stage}
    (member : stage ∈ all) (row : stage.2 = some tuple) : RowAt history rid tuple := by
  have listed (inside : stage ∈ history.ledger.stages rid) : RowAt history rid tuple := by
    obtain ⟨version, here, rfl⟩ := List.mem_map.mp inside
    exact Or.inl ⟨version, here, row⟩
  rcases whole with rfl | rfl
  · exact listed member
  · rcases List.mem_append.mp member with inside | vacant
    · exact listed inside
    · rw [List.mem_singleton.mp vacant] at row
      cases row

/-- Before any collection, whatever can be reconstructed at a RID has been written there. -/
theorem reachable_row (inv : Inv history) (young : history.horizon = -1)
    (reachable : ReachableVersion history.mgr rid tuple) : RowAt history rid tuple := by
  obtain ⟨slot, logs, found, behind, same⟩ := reachable
  obtain ⟨ids, clock⟩ := inv.clock
  have last := clock.last.1
  unfold reconstructTuple at same
  have finish {row : Option Tuple} {all older : List Stage}
    (whole : StagesOf history.ledger rid all)
    (inside : older ⊆ all) (fresh : 0 ≤ slot.metadata.ts)
      (shows : Shows slot.tuple slot.metadata.isDeleted row)
    (chain : Chain history.logs history.image history.horizon slot.metadata.ts row
      (history.link rid) older)
    (top : row = some tuple → RowAt history rid tuple) : RowAt history rid tuple := by
    rw [young] at chain
    obtain ⟨row', values, deleted, listed, shows', folded⟩ := chain_rows inv.store.logs chain fresh
      (fun stage member => (stages_dated inv.store whole (inside member) last).1) shows
      (fun stage member tuple here =>
        same_shape_length (stages_shape inv.store found whole (inside member) here)) behind
    rw [folded] at same
    have row : row' = some tuple := (shows_iff.mp shows').trans same
    rcases listed with rfl | ⟨stage, member, here⟩
    · exact top row
    · exact stage_row whole (inside member) (here.trans row)
  cases inv.store.slot rid slot found with
  | settled row older free whole shows chain =>
      exact finish whole (List.subset_cons_self _ _)
        (stages_dated inv.store whole List.mem_cons_self last).1 shows chain
        fun here => stage_row whole List.mem_cons_self here
  | owned owner record row all live written alone shows stamped whole chain early origin =>
      have late := stamp_late inv clock live rid
      exact finish whole (List.Subset.refl _) (by rw [stamped]; lia) shows chain
        fun here => Or.inr ⟨owner, by rw [written, here]⟩

/-- A read that nobody disturbs returns what the transaction sees. -/
theorem reads_sees (inv : Inv history) {fetches : Nat} {last : History} (live : history.Live id txn)
    (run : Run (graph History.step) history
      (.read id rid :: List.replicate fetches (.fetch id)) last)
    (returned : last.mgr.control id = .returned rid visible) :
    visible = history.ledger.sees id txn.readTs rid := by
  cases run with
  | next step rest =>
      obtain ⟨live', ledger, begun⟩ := read_begins inv live step
      have only (op : TxnOp) (member : op ∈ List.replicate fetches (TxnOp.fetch id))
          (_ : op.actor = some id) :
          op = .fetch id := List.eq_of_mem_replicate member
      obtain ⟨_, _, sees, reading⟩ := reading_run rest (step_inv inv step) live' begun only
      rw [returned] at reading
      cases reading
      rw [sees, ledger]

/-- What the primary key promises of one state. -/
structure KeyedState (table : TableInfo) (store : KeyedStore) : Prop where
  /-- no snapshot of a RUNNING transaction has two rows of one key -/
  snapshot : ∀ id txn, store.history.mgr.txnMap.lookup id = some txn → txn.state = .running →
    ∀ left right row other, Ours table store.history left → Ours table store.history right →
    store.history.ledger.Visible id txn.readTs left (some row) →
    store.history.ledger.Visible id txn.readTs right (some other) →
    keyFromTuple table.keyAttrs row = keyFromTuple table.keyAttrs other → left = right
  /-- and none is shown to it -/
  reads : ∀ id txn, store.history.mgr.txnMap.lookup id = some txn → txn.state = .running →
    ∀ left right row other, Ours table store.history left → Ours table store.history right →
    Reads store.history id left (some row) → Reads store.history id right (some other) →
    keyFromTuple table.keyAttrs row = keyFromTuple table.keyAttrs other → left = right
  /-- every version reachable at an indexed RID has the key of the entry -/
  versions : ∀ key rid tuple, store.index.lookup key = some rid →
    ReachableVersion store.history.mgr rid tuple → keyFromTuple table.keyAttrs tuple = key

/-- A running transaction sees a row outside the index only while it enters it. -/
theorem running_sees (inv : KeyBook table store) (live : store.history.Live id txn)
    (running : txn.state = .running) (ours : Ours table store.history rid) {row : Tuple}
    (sees : store.history.ledger.sees id txn.readTs rid = some row) :
    store.index.lookup (keyFromTuple table.keyAttrs row) = some rid ∨
      ∃ rest, store.statement id = .indexing rid row rest := by
  by_cases indexed : store.Indexed rid
  · obtain ⟨key, entry⟩ := indexed
    rw [(inv.indexed key rid entry).2 row (sees_row sees)]
    exact Or.inl entry
  · refine Or.inr ?_
    cases written : store.history.ledger.pending id rid with
    | none =>
        rw [Ledger.sees, written, Option.getD_none, Ledger.committedAt,
          inv.uncommitted rid ours indexed] at sees
        cases sees
    | some mine =>
        rw [Ledger.sees, written, Option.getD_some] at sees
        subst sees
        rcases inv.loose rid ours indexed id
          (by rw [written]; rfl) with ⟨record, live', tainted⟩ | ⟨tuple, rest, stage⟩
        · obtain rfl := Option.some.inj (live.1.symm.trans live'.1)
          cases running.symm.trans tainted
        · have now := inv.statements id
          rw [stage] at now
          obtain rfl := Option.some.inj (Option.some.inj (now.2.2.1.symm.trans written))
          exact ⟨rest, stage⟩

theorem sees_one (inv : KeyBook table store) (live : store.history.Live id txn)
    (running : txn.state = .running) {left right : RID} {row other : Tuple}
    (ours : Ours table store.history left) (ours' : Ours table store.history right)
    (sees : store.history.ledger.sees id txn.readTs left = some row)
    (sees' : store.history.ledger.sees id txn.readTs right = some other)
    (same : keyFromTuple table.keyAttrs row = keyFromTuple table.keyAttrs other) :
    left = right := by
  -- what is entered now has a key that the transaction does not see anywhere in the index
  have apart {here there : RID} {row other : Tuple} {rest : List Tuple}
    (stage : store.statement id = .indexing here row rest)
    (entry : store.index.lookup (keyFromTuple table.keyAttrs other) = some there)
    (sees : store.history.ledger.sees id txn.readTs there = some other)
    (same : keyFromTuple table.keyAttrs row = keyFromTuple table.keyAttrs other) : False := by
    have now := inv.statements id
    rw [stage] at now
    cases (now.1 there (same ▸ entry) txn live).symm.trans sees
  rcases running_sees inv live running ours sees with entry | ⟨rest, stage⟩
  · rcases running_sees inv live running ours' sees' with entry' | ⟨rest', stage'⟩
    · rw [same] at entry
      exact Option.some.inj (entry.symm.trans entry')
    · exact (apart stage' entry sees same.symm).elim
  · rcases running_sees inv live running ours' sees' with entry' | ⟨rest', stage'⟩
    · exact (apart stage entry' sees' same).elim
    · cases stage.symm.trans stage'
      rfl

theorem visible_sees (store : StoreInv history) {readTs : Timestamp}
    (shown : history.ledger.Visible id readTs rid visible) :
    history.ledger.sees id readTs rid = visible := by
  unfold Ledger.sees
  cases shown with
  | own row written => rw [written, Option.getD_some]
  | snapshot version unwritten member early last =>
      rw [unwritten, Option.getD_none]
      rcases committed_at_latest store readTs rid with ⟨other, inside, before, newest, same⟩ |
        ⟨late, _⟩
      · have sameTs : version.commitTs = other.commitTs := by
          have above := last other inside before
          have below := newest version member early
          lia
        rw [same]
        by_cases one : version = other
        · rw [one]
        · have ordered := versions_fall store rid
          have apart : (history.ledger.committed rid).Pairwise fun newer older =>
              newer.commitTs ≠ older.commitTs :=
            ordered.imp fun falls => by lia
          have symmetric : Std.Symm fun newer older : Version => newer.commitTs ≠ older.commitTs :=
            ⟨fun _ _ different => different.symm⟩
          exact absurd sameTs (apart.forall member inside one)
      · have after := late version member
        lia
  | absent unwritten late =>
      rw [unwritten, Option.getD_none]
      rcases committed_at_latest store readTs rid with ⟨other, inside, before, _, _⟩ | ⟨_, same⟩
      · have after := late other inside
        lia
      · exact same

theorem keyed_state (inv : KeyInv table store) : KeyedState table store := by
  have alive {id : TxnId} {txn : Transaction}
      (found : store.history.mgr.txnMap.lookup id = some txn)
      (running : txn.state = .running) : store.history.Live id txn :=
        ⟨found, by simp [Transaction.live, running]⟩
  refine ⟨?_, ?_, ?_⟩
  · intro id txn found running left right row other ours ours' shown shown' same
    exact sees_one inv.toKeyBook (alive found running) running ours ours'
      (visible_sees inv.inv.store shown)
      (visible_sees inv.inv.store shown') same
  · rintro id txn found running left right row other ours ours' ⟨_, _, run, returned⟩
      ⟨_, _, run', returned'⟩ same
    have live := alive found running
    exact sees_one inv.toKeyBook live running ours ours' (reads_sees inv.inv live run returned).symm
      (reads_sees inv.inv live run' returned').symm same
  · intro key rid tuple entry reachable
    exact (inv.indexed key rid entry).2 tuple (reachable_row inv.inv inv.young reachable)

theorem index_grows {label : KeyedOp} (stepped : before.step table label = some after) {key : Tuple}
    (entry : before.index.lookup key = some rid) : after.index.lookup key = some rid := by
  have acts {op : TxnOp} {id : TxnId} {now : Statement}
    (acted : before.act op id now = some after) :
    after.index.lookup key = some rid := by
    obtain ⟨_, _, rfl⟩ := act_some acted
    exact entry
  have modifies {id : TxnId} {place : RID} {target : Option Tuple} {requireDeleted : Bool}
    {next : Statement}
    (modified : before.modify id place target requireDeleted next = some after) :
    after.index.lookup key = some rid := by
    obtain ⟨_, _, acted⟩ := Option.bind_eq_some_iff.mp modified
    exact acts acted
  have sets {id : TxnId} {now : Statement} (same : before.setStatement id now = after) :
      after.index.lookup key = some rid := by
    rw [← same]
    exact entry
  cases label with
  | txn op =>
      simp only [KeyedStore.step, Option.ite_none_right_eq_some] at stepped
      obtain ⟨history, _, rfl⟩ := Option.map_eq_some_iff.mp stepped.2
      exact entry
  | insertEntry id =>
      simp only [KeyedStore.step] at stepped
      split at stepped
      · rename_i place tuple rest stage
        split at stepped
        · exact acts stepped
        · rename_i absent
          obtain rfl := Option.some.inj stepped
          refine (AList.lookup_insert_ne ?_).trans entry
          rintro rfl
          simp [entry] at absent
      · cases stepped
  | insertRows id tuples | updateRows id target | deleteRows id =>
      simp only [KeyedStore.step] at stepped
      split at stepped
      · obtain ⟨_, _, same⟩ := Option.map_eq_some_iff.mp stepped
        exact sets same
      · cases stepped
  | gather id =>
      simp only [KeyedStore.step] at stepped
      split at stepped
      · split at stepped
        · exact sets (Option.some.inj stepped)
        · cases stepped
      · cases stepped
  | gathered id | scanKey id =>
      simp only [KeyedStore.step] at stepped
      split at stepped
      · exact sets (Option.some.inj stepped)
      · cases stepped
  | modifyNext id =>
      simp only [KeyedStore.step] at stepped
      split at stepped
      · exact sets (Option.some.inj stepped)
      · exact modifies stepped
      · cases stepped
  | revive id =>
      simp only [KeyedStore.step] at stepped
      split at stepped
      · exact modifies stepped
      · cases stepped
  | place id place | noRoom id =>
      simp only [KeyedStore.step] at stepped
      split at stepped
      · exact acts stepped
      · cases stepped

theorem primary_key_unique (reached : KeyedReached catalog table store) :
    KeyedState table store ∧
      ∀ labels after, Run (graph (KeyedStore.step table)) store labels after →
      KeyedState table after ∧ ∀ key rid, store.index.lookup key = some rid →
      after.index.lookup key = some rid := by
  have inv := reached_key_inv reached
  refine ⟨keyed_state inv, fun labels after run => ?_⟩
  induction run with
  | refl store => exact ⟨keyed_state inv, fun key rid entry => entry⟩
  | @next before middle after label rest step _ ih =>
      have stepped : before.step table label = some middle := step
      obtain ⟨state, kept⟩ :=
        ih (TransitionSystem.reachable_step reached step) (step_key_inv inv stepped)
      exact ⟨state, fun key rid entry => kept key rid (index_grows stepped entry)⟩

end Versions

def keyTable : TableInfo := { oid := 0, keyAttrs := [0] }

def secondSlot : RID := { pageId := 0, slotNum := 1 }

def movedRun : List KeyedOp :=
  [.txn (.begin .snapshotIsolation), .insertRows TXN_START_ID [[number 1]], .scanKey TXN_START_ID,
    .place TXN_START_ID firstSlot, .insertEntry TXN_START_ID, .txn (.read TXN_START_ID firstSlot),
    .updateRows TXN_START_ID (fun _ => [number 2]), .gather TXN_START_ID, .gathered TXN_START_ID,
    .modifyNext TXN_START_ID, .modifyNext TXN_START_ID, .scanKey TXN_START_ID,
      .place TXN_START_ID secondSlot,
    .insertEntry TXN_START_ID]

def keyedFrom (ops : List KeyedOp) : Option KeyedStore :=
  ops.foldlM (KeyedStore.step keyTable) (KeyedStore.start oneColumn)

theorem moved_run_returns : (keyedFrom movedRun).isSome = true := by decide

theorem moved_row_keys : KeyedState keyTable ((keyedFrom movedRun).get moved_run_returns) := by
  have reached : KeyedReached oneColumn keyTable ((keyedFrom movedRun).get moved_run_returns) :=
    ⟨_, movedRun, rfl, TransitionSystem.run_of_fold (Option.some_get _).symm⟩
  exact (primary_key_unique reached).1

end BusTub
