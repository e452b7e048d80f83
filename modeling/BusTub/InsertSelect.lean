import BusTub.ScannedStatements

/-!
`INSERT INTO t SELECT f FROM t WHERE p`. The rows go into the table batch by
batch, between two batches of the scan. A new slot is behind the end of the scan;
a deleted slot that the index leads to may be one that the scan has still to
reach, and a row that is put there is found again. Beyond that the account is
exact: what was taken and what is still to be taken are the rows of the start.
-/

namespace BusTub.Dml

open Function (update)
open TransitionSystem
open Listing

/-- `InsertExecutor` after `Init` of itself and before that of the scan. -/
def beginInsert (store : Store) : ScannedStore where
  statement := { store with phase := .pulling .insert [] }
  scan := none

def revivedAhead (query : Query) (store : ScannedStore) : ScannedOp → List Tuple
  | .statement .advance =>
      match store.statement.phase, store.scan with
      | .writing _ (.reviving rid tuple) _, some scan =>
          if rid ∈ scan.rids ∧ query.accepts tuple then [tuple] else []
      | _, _ => []
  | _ => []

def upcoming (query : Query) (view : RID → Option Tuple) (rids : List RID) : List Tuple :=
  rids.filterMap fun rid => (view rid).filter query.accepts

section Upcoming
variable {query : Query} {view : RID → Option Tuple} {rids : List RID} {rid : RID} {tuple : Tuple}

theorem upcoming_elsewhere (passed : rid ∉ rids) (row : Option Tuple) :
    upcoming query (update view rid row) rids = upcoming query view rids := by
  refine List.filterMap_congr fun place member => ?_
  rw [Function.update_of_ne]
  rintro rfl
  exact passed member

theorem upcoming_ahead (unique : rids.Nodup) (member : rid ∈ rids) (free : view rid = none) :
    (upcoming query (update view rid (some tuple)) rids).Perm
      (upcoming query view rids ++ (if query.accepts tuple then [tuple] else [])) := by
  obtain ⟨front, back, rfl⟩ := List.append_of_mem member
  have apart := List.nodup_middle.mp unique
  have outside := (List.nodup_cons.mp apart).1
  have before : rid ∉ front := fun inside => outside (List.mem_append_left _ inside)
  have behind : rid ∉ back := fun inside => outside (List.mem_append_right _ inside)
  have split (view : RID → Option Tuple) : upcoming query view (front ++ rid :: back) =
      upcoming query view front ++
        (((view rid).filter query.accepts).toList ++ upcoming query view back) := by
    unfold upcoming
    rw [List.filterMap_append, List.filterMap_cons]
    cases (view rid).filter query.accepts <;> rfl
  rw [split, split, upcoming_elsewhere before, upcoming_elsewhere behind,
    Function.update_self, free]
  cases accepts : query.accepts tuple with
  | false => simp [Option.filter, accepts]
  | true =>
      simp only [Option.filter, accepts, if_true, Option.toList_some, Option.toList_none,
        List.nil_append, List.singleton_append, List.append_assoc]
      exact List.Perm.append_left _ (@List.perm_append_comm _ [tuple] _)

/-- A scan that leaves out nothing accepted will take the accepted rows. -/
theorem selected_upcoming {rows : List (RID × Tuple)} (lists : Lists view rows)
    (unique : rids.Nodup)
    (whole : ∀ rid tuple, view rid = some tuple → query.accepts tuple = true → rid ∈ rids) :
    (upcoming query view rids).Perm ((rows.map Prod.snd).filter query.accepts) := by
  have selected := (selected_perm lists unique whole).map Prod.snd
  have left : (rids.filterMap (selectRow view query.accepts)).map Prod.snd =
      upcoming query view rids := by
    rw [List.map_filterMap, upcoming]
    refine List.filterMap_congr fun rid _ => ?_
    simp [selectRow, Function.comp_def]
  have right : (rows.filter fun row => query.accepts row.2).map Prod.snd =
    (rows.map Prod.snd).filter query.accepts := by
    rw [List.filter_map]
    rfl
  rw [left, right] at selected
  exact selected

end Upcoming

def RowStage.owesTuples : RowStage → List Tuple
  | .next | .entering _ _ _ => []
  | .seeking tuple _ | .reviving _ tuple | .placing tuple => [tuple]

/-- The account of an INSERT by the phases of the statement. `start` are the rows
at the beginning and `ahead` those it has put where the scan had not been. -/
inductive InsertInv (query : Query) (oid : TableOid) (start : List Tuple) (ahead : List Tuple)
    (scan : Option Scan)
    (history : History) (view : RID → Option Tuple) : Phase → Prop where
  | opening (rows : List (RID × Tuple)) (closed : scan = none) (lists : Lists view rows)
      (same : (rows.map Prod.snd) = start) (nothing : ahead = []) :
      InsertInv query oid start ahead scan history view (.pulling .insert [])
  | scanning (rids : List RID) (batch : List (RID × Tuple)) (delivered inserted : List Tuple)
    (rows : List (RID × Tuple))
      (scans : scan = some ⟨rids, batch⟩) (unique : rids.Nodup) (ours : ∀ rid ∈ rids,
        inTable history oid rid = true)
      (lists : Lists view rows) (grown : (rows.map Prod.snd).Perm (start ++ inserted))
      (projected : delivered.mapM query.projection = some inserted)
      (accepted : (delivered ++ (batch.map Prod.snd ++ upcoming query view rids)).Perm
        (start.filter query.accepts ++ ahead)) :
      InsertInv query oid start ahead scan history view (.pulling .insert [])
  | writing (stage : RowStage) (rest : List Tuple) (rids : List RID)
      (delivered inserted : List Tuple)
      (rows : List (RID × Tuple)) (scans : scan = some ⟨rids, []⟩) (unique : rids.Nodup)
      (ours : ∀ rid ∈ rids, inTable history oid rid = true) (lists : Lists view rows)
      (grown : (rows.map Prod.snd).Perm (start ++ inserted))
      (projected : delivered.mapM query.projection = some (inserted ++ (stage.owesTuples ++ rest)))
      (accepted : (delivered ++ upcoming query view rids).Perm
        (start.filter query.accepts ++ ahead)) :
      InsertInv query oid start ahead scan history view (.writing .insert stage (rest.map .insert))
  | finished (delivered inserted : List Tuple) (rows : List (RID × Tuple)) (lists : Lists view rows)
      (grown : (rows.map Prod.snd).Perm (start ++ inserted))
        (projected : delivered.mapM query.projection = some inserted)
      (accepted : delivered.Perm (start.filter query.accepts ++ ahead)) :
      InsertInv query oid start ahead scan history view .finished
  | threw (cause : Thrown) : InsertInv query oid start ahead scan history view (.threw cause)

section InsertSteps
variable {query : Query} {me : TxnId} {oid : TableOid} {readTs : Timestamp}
  {start ahead : List Tuple} {scan : Option Scan} {history next : History}
  {view : RID → Option Tuple} {phase phase' : Phase} {indexes : List IndexInfo} {label : DmlOp}
  {rid : RID} {rids : List RID} {batch rows : List (RID × Tuple)}

theorem insert_inv_carried (inv : InsertInv query oid start ahead scan history view phase)
    (kept : ∀ rid, inTable history oid rid = true → inTable next oid rid = true) :
    InsertInv query oid start ahead scan next view phase := by
  cases inv with
  | opening rows closed lists same nothing => exact InsertInv.opening rows closed lists same nothing
  | scanning rids batch delivered inserted rows scans unique ours lists grown projected accepted =>
      exact InsertInv.scanning rids batch delivered inserted rows scans unique
        (fun rid member => kept rid (ours rid member)) lists grown projected accepted
  | writing stage rest rids delivered inserted rows scans unique ours lists grown
      projected accepted =>
      exact InsertInv.writing stage rest rids delivered inserted rows scans unique
        (fun rid member => kept rid (ours rid member)) lists grown projected accepted
  | finished delivered inserted rows lists grown projected accepted =>
      exact InsertInv.finished delivered inserted rows lists grown projected accepted
  | threw cause => exact InsertInv.threw cause

/-- The loops over the rows of a batch and over the indexes owe what they owed. -/
theorem insert_inv_goes (mine : ofChild me label = false) (goes : Goes indexes phase label phase')
    (inv : InsertInv query oid start ahead scan history view phase) :
    InsertInv query oid start ahead scan history view phase' := by
  generalize same : phase = first at inv
  cases inv with
  | opening | scanning | finished | threw =>
      subst same
      cases goes <;> cases mine
  | writing stage rest rids delivered inserted rows scans unique ours lists grown
      projected accepted =>
      subst same
      cases stage with
      | next =>
          cases rest with
          | nil =>
              cases goes
              exact InsertInv.scanning rids [] delivered inserted rows scans unique ours lists grown
                (by simpa [RowStage.owesTuples] using projected) accepted
          | cons tuple rest =>
              cases goes
              exact InsertInv.writing
                (.seeking tuple 0) rest rids delivered inserted rows scans unique ours lists grown
                projected accepted
      | seeking tuple number =>
          cases goes with
          | notFound =>
              exact InsertInv.writing (.placing tuple) rest rids delivered inserted rows scans
                unique ours lists grown
                projected accepted
          | found _ _ _ _ info rid =>
              exact InsertInv.writing
                (.reviving rid tuple) rest rids delivered inserted rows scans unique
                  ours lists grown
                projected accepted
          | seekOn =>
              exact InsertInv.writing
                (.seeking tuple (number + 1)) rest rids delivered inserted rows scans unique ours
                lists grown projected accepted
      | entering rid tuple number =>
          cases goes
          exact InsertInv.writing .next rest rids delivered inserted rows scans unique ours lists
            grown projected accepted
      | reviving | placing => cases goes

theorem grown_insert {rows : List (RID × Tuple)} {inserted : List Tuple} (rid : RID) (tuple : Tuple)
    (grown : (rows.map Prod.snd).Perm (start ++ inserted)) :
    ((((rid, tuple) :: rows)).map Prod.snd).Perm (start ++ (inserted ++ [tuple])) := by
  rw [List.map_cons, ← List.append_assoc]
  exact (grown.cons tuple).trans (List.perm_append_singleton tuple _).symm

/-- A call of `ModifyTuple` at a deleted tuple; a row ahead of the scan will be taken again. -/
theorem insert_inv_modified {target : Option Tuple} {requireDeleted : Bool} {result : ModifyResult}
    {mgr : TransactionManager} (standing : Standing me readTs history)
    (calls : phase.call = some ((rid, target, requireDeleted), phase'))
    (pointed : ∀ rid, phase.pointsAt = some rid → inTable history oid rid = true)
    (returned : history.mgr.modifyTuple me rid target requireDeleted = some (result, mgr))
    (stepped : history.step (.modify me rid target requireDeleted) = some next)
    (inv : InsertInv query oid start ahead scan history (tableView me readTs oid history) phase) :
    InsertInv query oid start
      (ahead ++ revivedAhead query ⟨⟨history, indexes, phase⟩, scan⟩ (.statement .advance)) scan
        next
      (tableView me readTs oid next) (Store.afterModify phase' result) := by
  have kept (place : RID) (ours : inTable history oid place = true) : inTable next oid place =
      true :=
    ours_step standing.inv stepped ours
  cases inv with
  | opening | scanning | finished | threw => cases calls
  | writing stage rest rids delivered inserted rows scans unique ours lists grown
      projected accepted =>
      cases stage with
      | next => cases rest <;> cases calls
      | seeking | placing | entering => cases calls
      | reviving place tuple =>
          cases calls
          cases result with
          | writeConflict => exact InsertInv.threw _
          | sizeMismatch => exact InsertInv.threw _
          | done =>
              have here := pointed rid rfl
              have free : tableView me readTs oid history rid = none :=
                (view_ours here).trans (revived_unseen standing returned)
              rw [view_modified standing here returned stepped, if_pos rfl]
              refine InsertInv.writing .next rest rids delivered (inserted ++ [tuple])
                _ scans unique
                (fun place member => kept place (ours place member)) (lists_insert lists free tuple)
                (grown_insert rid tuple grown) (by simpa [RowStage.owesTuples] using projected) ?_
              subst scans
              by_cases member : rid ∈ rids
              · have again : revivedAhead query
                  ⟨⟨history, indexes, .writing .insert (.reviving rid tuple)
                  (rest.map .insert)⟩, some ⟨rids, []⟩⟩ (.statement .advance) =
                    if query.accepts tuple then [tuple] else [] := by
                  simp [revivedAhead, member]
                have more :
                    (upcoming query
                    (update (tableView me readTs oid history) rid (some tuple)) rids).Perm
                    (upcoming query (tableView me readTs oid history) rids ++
                      if query.accepts tuple then [tuple] else []) :=
                        upcoming_ahead unique member free
                refine (more.append_left delivered).trans ?_
                rw [again, ← List.append_assoc, ← List.append_assoc]
                exact accepted.append_right _
              · rw [upcoming_elsewhere member]
                simpa [revivedAhead, member] using accepted

theorem insert_inv_placed {kind : StatementKind} {tuple : Tuple} {rest : List RowWrite}
    (inv' : Inv history) (stepped : history.step (.insert me oid rid tuple) = some next)
    (inv : InsertInv query oid start ahead scan history (tableView me readTs oid history)
      (.writing kind (.placing tuple) rest)) :
    InsertInv query oid start ahead scan next (tableView me readTs oid next)
      (.writing kind (.entering rid tuple 0) rest) := by
  have absent := (placed_slot stepped).1
  cases inv with
  | writing _ rest rids delivered inserted rows scans unique ours lists grown projected accepted =>
      have free : tableView me readTs oid history rid = none := by
        rw [tableView, if_neg (by simp [absent])]
      have passed : rid ∉ rids := by
        intro member
        cases absent.symm.trans (ours rid member)
      rw [placed_view inv' stepped]
      refine InsertInv.writing (.entering rid tuple 0) rest rids delivered (inserted ++ [tuple])
        _ scans unique
        (fun place member => ours_step inv' stepped (ours place member))
          (lists_insert lists free tuple)
        (grown_insert rid tuple grown) (by simpa [RowStage.owesTuples] using projected) ?_
      rw [upcoming_elsewhere passed]
      exact accepted

theorem insert_inv_taken {batch : List (RID × Tuple)} {row : Option Tuple}
    (pulls : phase.pulls = true) (read : (view rid).filter query.accepts = row)
    (inv : InsertInv query oid start ahead (some ⟨rid :: rids, batch⟩) history view phase) :
    InsertInv query oid start ahead
      (some ⟨rids, batch ++ (row.map fun tuple => (rid, tuple)).toList⟩) history view
      phase := by
  cases inv with
  | opening rows closed lists same nothing => cases closed
  | scanning _ _ delivered inserted rows scans unique ours lists grown projected accepted =>
      cases scans
      refine InsertInv.scanning rids _ delivered inserted rows rfl (List.nodup_cons.mp unique).2
        (fun place member => ours place (List.mem_cons_of_mem _ member)) lists grown projected ?_
      have next : upcoming query view (rid :: rids) = row.toList ++ upcoming query view rids := by
        rw [upcoming, List.filterMap_cons, read]
        cases row <;> rfl
      rw [next] at accepted
      cases row with
      | none => simpa using accepted
      | some tuple => simpa using accepted
  | writing | finished | threw => cases pulls

theorem projected_rows {projection : Expressions}
    (projected : (batch.mapM fun row => (projection row.2).map fun tuple => (row.1, tuple)) =
      some rows) :
    (batch.map Prod.snd).mapM projection = some (rows.map Prod.snd) := by
  induction batch generalizing rows with
  | nil =>
      obtain rfl : [] = rows := by simpa using projected
      rfl
  | cons row rest ih =>
      simp only [List.mapM_cons, Option.bind_eq_bind, Option.bind_eq_some_iff] at projected
      obtain ⟨first, here, more, there, same⟩ := projected
      obtain ⟨tuple, valued, rfl⟩ := Option.map_eq_some_iff.mp here
      obtain rfl := Option.some.inj same
      rw [List.map_cons, List.mapM_cons, valued, ih there]
      rfl

/-- A batch goes over to the statement, which owes its rows now. -/
theorem insert_inv_delivered
    (projected : (batch.mapM fun row => (query.projection row.2).map fun tuple => (row.1, tuple)) =
      some rows)
    (goes : Goes indexes phase (.childBatch rows) phase')
    (inv : InsertInv query oid start ahead (some ⟨rids, batch⟩) history view phase) :
    InsertInv query oid start ahead (some ⟨rids, []⟩) history view phase' := by
  cases inv with
  | opening rows closed lists same nothing => cases closed
  | writing stage rest =>
      generalize rest.map RowWrite.insert = owed at goes
      cases goes
  | finished | threw => cases goes
  | scanning _ _ delivered inserted seen scans unique ours lists grown projected' accepted =>
      cases scans
      cases goes
      have owed : (rows.map fun row => RowWrite.insert row.2) =
          (rows.map Prod.snd).map .insert := by
        rw [List.map_map]
        rfl
      rw [owed]
      refine InsertInv.writing .next (rows.map Prod.snd) rids
        (delivered ++ batch.map Prod.snd) inserted seen rfl unique
        ours lists grown (map_m_append projected' (projected_rows projected)) ?_
      rw [List.append_assoc]
      exact accepted

theorem insert_inv_exhausted (goes : Goes indexes phase .childEnd phase')
    (inv : InsertInv query oid start ahead (some ⟨[], []⟩) history view phase) :
    InsertInv query oid start ahead (some ⟨[], []⟩) history view phase' := by
  cases inv with
  | opening rows closed lists same nothing => cases closed
  | writing stage rest =>
      generalize rest.map RowWrite.insert = owed at goes
      cases goes
  | finished | threw => cases goes
  | scanning _ _ delivered inserted rows scans unique ours lists grown projected accepted =>
      cases scans
      cases goes
      exact InsertInv.finished delivered inserted rows lists grown projected
        (by simpa [upcoming] using accepted)

def InsertStands (query : Query) (me : TxnId) (readTs : Timestamp) (oid : TableOid)
    (start ahead : List Tuple) (store : ScannedStore) : Prop :=
  InsertInv query oid start ahead store.scan store.statement.history
    (tableView me readTs oid store.statement.history) store.statement.phase

theorem none_ahead {store : Store} (noCall : store.phase.call = none) :
    revivedAhead query ⟨store, scan⟩ (.statement label) = [] := by
  unfold revivedAhead
  split
  · split
    · rename_i phase here there
      have stands : store.phase = .writing _ (.reviving _ _) _ := here
      rw [stands] at noCall
      cases noCall
    · rfl
  · rfl

theorem goes_no_call (goes : Goes indexes phase label phase') :
    phase.call = none := by
  cases goes with
  | _ => rfl

theorem insert_loop {store after : Store} (standing : Standing me readTs store.history)
    (pointed : Pointed oid store) (mine : ofChild me label = false)
    (stepped : Stepped me oid store label after)
    (inv : InsertInv query oid start ahead scan store.history
      (tableView me readTs oid store.history) store.phase) :
    InsertInv query oid start (ahead ++ revivedAhead query ⟨store, scan⟩ (.statement label))
      scan after.history
      (tableView me readTs oid after.history) after.phase := by
  cases stepped with
  | other op history elsewhere stepped =>
      rw [view_other standing stepped elsewhere, show revivedAhead query ⟨store, scan⟩
        (.statement (.txn op)) = [] from rfl,
        List.append_nil]
      exact insert_inv_carried inv fun rid ours => ours_step standing.inv stepped ours
  | read op history pulls reads own stepped => simp [ofChild, own] at mine
  | enter number key rid info listed free ours =>
      rw [show revivedAhead query ⟨store, scan⟩ (.statement (.enter number key rid)) = [] from rfl,
        List.append_nil]
      exact inv
  | goes _ phase going ready =>
      rw [none_ahead (goes_no_call going), List.append_nil]
      exact insert_inv_goes mine going inv
  | childThrew pulls => cases mine
  | evaluationThrew rows targetExpressions updates stands throws => cases mine
  | comparisonThrew => exact InsertInv.threw _
  | modified rid target requireDeleted next result mgr history calls returned stepped =>
      exact insert_inv_modified standing calls pointed.stage returned stepped inv
  | placed rid kind tuple rest history stands stepped =>
      rw [show revivedAhead query ⟨store, scan⟩ (.statement (.place rid)) = [] from rfl,
        List.append_nil]
      rw [stands] at inv
      exact insert_inv_placed standing.inv stepped inv
  | entered kind rid tuple number rest info stands listed free =>
      rw [none_ahead (by rw [stands]; rfl), List.append_nil]
      rw [stands] at inv
      cases inv with
      | writing _ rest rids delivered inserted rows scans unique ours lists grown
          projected accepted =>
          exact InsertInv.writing
            (.entering rid tuple (number + 1)) rest rids delivered inserted rows scans unique ours
            lists grown projected accepted
  | conflict _ kind stage rest history stands noCall throws stepped => exact InsertInv.threw _

theorem insert_stands_step {before after : ScannedStore} {label : ScannedOp}
    (standing : Standing me readTs before.statement.history)
    (pointed : Pointed oid before.statement)
    (stands : InsertStands query me readTs oid start ahead before)
    (stepped : ScannedStepped query me oid before label after) :
    InsertStands query me readTs oid start (ahead ++ revivedAhead query before label) after := by
  have read {rid : RID} {rids : List RID} {batch : List (RID × Tuple)} {visible : Option Tuple}
    (scans : before.scan = some ⟨rid :: rids, batch⟩)
    (returned : before.statement.history.mgr.control me = .returned rid visible)
    (pulls : before.statement.phase.pulls = true) :
      tableView me readTs oid before.statement.history rid = visible := by
    refine returned_view standing returned ?_
    unfold InsertStands at stands
    rw [scans] at stands
    generalize before.statement.phase = phase at stands pulls
    cases stands with
    | opening rows closed lists same nothing => cases closed
    | scanning _ _ delivered inserted rows scans unique ours lists grown projected accepted =>
        cases scans
        exact ours rid List.mem_cons_self
    | writing | finished | threw => cases pulls
  -- only a write of the statement puts a row ahead of the scan
  have quiet (other : ∀ op, label ≠ .statement op) : revivedAhead query before label = [] := by
    cases label with
    | statement op => exact absurd rfl (other op)
    | _ => rfl
  unfold InsertStands at stands ⊢
  cases stepped with
  | loop op store mine stepped => exact insert_loop standing pointed mine stepped stands
  | opened rids history first covered pulls stepped =>
      obtain ⟨unique, ours, whole⟩ := covers_view standing covered
      have same : tableView me readTs oid history =
          tableView me readTs oid before.statement.history :=
        view_ledger standing.inv stepped (reading_ledger rfl stepped)
      rw [quiet (by rintro op ⟨⟩), List.append_nil]
      dsimp only
      rw [same]
      generalize before.statement.phase = phase at stands pulls ⊢
      rw [first] at stands
      cases stands with
      | opening rows closed lists same' nothing =>
          subst same' nothing
          have found : (upcoming query (tableView me readTs oid before.statement.history) rids).Perm
              ((rows.map Prod.snd).filter query.accepts) := selected_upcoming lists unique whole
          exact InsertInv.scanning rids [] [] [] rows rfl unique
            (fun rid member => ours_step standing.inv stepped (ours rid member)) lists (by simp) rfl
              (by simpa using found)
      | scanning _ _ _ _ _ scans => cases scans
      | writing | finished | threw => cases pulls
  | read label op history reads child pulls stepped =>
      rw [quiet (by rintro op rfl; rcases child with same | same <;> cases same), List.append_nil]
      rw [view_ledger standing.inv stepped (reading_ledger reads stepped)]
      exact insert_inv_carried stands fun rid ours => ours_step standing.inv stepped ours
  | passed rid rids batch visible scans pulls returned refused =>
      rw [quiet (by rintro op ⟨⟩), List.append_nil]
      rw [scans] at stands
      have skipped : (tableView me readTs oid before.statement.history rid).filter query.accepts =
          none := by
        rw [read scans returned pulls]
        cases visible with
        | none => rfl
        | some tuple => simp [Option.filter, Query.accepts, refused tuple rfl]
      simpa using insert_inv_taken pulls skipped stands
  | took rid rids batch tuple scans pulls returned accepted =>
      rw [quiet (by rintro op ⟨⟩), List.append_nil]
      rw [scans] at stands
      have taken : (tableView me readTs oid before.statement.history rid).filter query.accepts =
          some tuple := by
        rw [read scans returned pulls]
        simp [Option.filter, Query.accepts, accepted]
      exact insert_inv_taken pulls taken stands
  | filterThrew | projectionThrew => exact InsertInv.threw _
  | exhausted store scans stepped =>
      obtain ⟨phase, goes, rfl⟩ := end_stepped_cases stepped
      rw [quiet (by rintro op ⟨⟩), List.append_nil]
      dsimp only
      rw [scans] at stands ⊢
      exact insert_inv_exhausted goes stands
  | delivered rids batch rows store scans projected stepped =>
      rw [quiet (by rintro op ⟨⟩), List.append_nil]
      rw [scans] at stands
      rcases batch_stepped_cases stepped with ⟨phase, goes, rfl⟩ |
        ⟨targetExpressions, updates, here, throws, rfl⟩
      · exact insert_inv_delivered projected goes stands
      · exact InsertInv.threw _

end InsertSteps

/-! ### Exceptions -/

/-- The next step of a RUNNING transaction is an exception that does not taint it:
the predicate throws on the row that was read, the projection on a row of the
batch, or `ModifyTuple` on the tuple that it is to put at a slot. -/
def ScanThrows (query : Query) (me : TxnId) (store : ScannedStore) (label : ScannedOp) : Prop :=
  (∃ txn, store.statement.history.Live me txn ∧ txn.state = .running) ∧
  ((label = .take ∧ ∃ rid rids batch tuple, store.scan = some ⟨rid :: rids, batch⟩ ∧
      store.statement.history.mgr.control me = .returned rid (some tuple) ∧
        query.filterPredicate tuple = none) ∨
    (label = .deliver ∧ ∃ rids batch, store.scan = some ⟨rids, batch⟩ ∧
      (batch.mapM fun row => (query.projection row.2).map fun tuple => (row.1, tuple)) = none) ∨
    (label = .statement .advance ∧ ∃ call next, store.statement.phase.call = some (call, next) ∧
      (store.statement.history.mgr.modifyThrows me call.1 call.2.1 call.2.2 = true ∨
        SizesDiffer store.statement.history.mgr me call)))

section Throws
variable {query : Query} {me : TxnId} {oid : TableOid} {readTs : Timestamp}
  {before after : ScannedStore} {label : ScannedOp} {cause : Thrown}

/-- An exception of the child leaves the transaction as it is. -/
theorem child_throw_cases (standing : Standing me readTs before.statement.history)
    (throws : (∃ txn, before.statement.history.Live me txn ∧ txn.state = .running) →
      ScanThrows query me before label) :
    (Tainted before.statement.history me ∧ ¬ ScanThrows query me before label) ∨
      (ScanThrows query me before label ∧ ¬ Tainted before.statement.history me) := by
  obtain ⟨txn, live, _⟩ := standing.live
  have only {record : Transaction} (live' : before.statement.history.Live me record) : record =
      txn :=
    Option.some.inj (live'.1.symm.trans live.1)
  cases state : txn.state with
  | running =>
      refine Or.inr ⟨throws ⟨txn, live, state⟩, ?_⟩
      rintro ⟨record, live', tainted⟩
      rw [only live', state] at tainted
      cases tainted
  | tainted =>
      refine Or.inl ⟨⟨txn, live, state⟩, ?_⟩
      rintro ⟨⟨record, live', running⟩, _⟩
      rw [only live', state] at running
      cases running
  | committed | aborted =>
      have alive := live.2
      simp [Transaction.live, state] at alive

theorem loop_throws {op : DmlOp} (mine : ofChild me op = false) :
    ThrowsUntainted me before.statement op ↔ ScanThrows query me before (.statement op) := by
  constructor
  · rintro ⟨running, rfl | ⟨rows, rfl⟩ | ⟨rfl, call⟩⟩
    · cases mine
    · cases mine
    · exact ⟨running, Or.inr (Or.inr ⟨rfl, call⟩)⟩
  · rintro ⟨running, ⟨impossible, _⟩ | ⟨impossible, _⟩ | ⟨same, call⟩⟩
    · cases impossible
    · cases impossible
    · cases same
      exact ⟨running, Or.inr (Or.inr ⟨rfl, call⟩)⟩

/-- Every throw taints the transaction, but for those exceptions. -/
theorem scanned_throw_cases (standing : Standing me readTs before.statement.history)
    (stepped : ScannedStepped query me oid before label after)
    (going : before.statement.phase.ended = false) (inserting : ∀ targetExpressions updates,
      before.statement.phase ≠ .pulling (.update targetExpressions) updates)
    (threw : after.statement.phase = .threw cause) :
    (Tainted after.statement.history me ∧ ¬ ScanThrows query me before label) ∨
      (ScanThrows query me before label ∧ ¬ Tainted after.statement.history me) := by
  have pulling (pulls : before.statement.phase.pulls = true) : before.statement.phase ≠
    .threw cause := by
    intro same
    rw [same] at pulls
    cases pulls
  cases stepped with
  | loop op store mine stepped =>
      rcases throw_cases standing stepped going threw with ⟨tainted, not⟩ | ⟨throws, not, _⟩
      · exact Or.inl ⟨tainted, fun throws => not ((loop_throws mine).mpr throws)⟩
      · exact Or.inr ⟨(loop_throws mine).mp throws, not⟩
  | opened rids history first covered pulls stepped => exact absurd threw (pulling pulls)
  | read _ op history reads child pulls stepped => exact absurd threw (pulling pulls)
  | passed rid rids batch visible scans pulls returned refused => exact absurd threw (pulling pulls)
  | took rid rids batch tuple scans pulls returned accepted => exact absurd threw (pulling pulls)
  | filterThrew rid rids batch tuple scans pulls returned throws =>
      exact child_throw_cases standing fun running =>
        ⟨running, Or.inl ⟨rfl, rid, rids, batch, tuple, scans, returned, throws⟩⟩
  | projectionThrew rids batch scans pulls throws =>
      exact child_throw_cases standing fun running =>
        ⟨running, Or.inr (Or.inl ⟨rfl, rids, batch, scans, throws⟩)⟩
  | exhausted store scans stepped =>
      obtain ⟨phase, goes, rfl⟩ := end_stepped_cases stepped
      exact absurd threw (goes_on goes cause)
  | delivered rids batch rows store scans projected stepped =>
      rcases batch_stepped_cases stepped with ⟨phase, goes, rfl⟩ |
        ⟨targetExpressions, updates, here, _, _⟩
      · exact absurd threw (goes_on goes cause)
      · exact absurd here (inserting targetExpressions updates)

theorem refused_call_ends {store next : Store} {call : RID × Option Tuple × Bool} {phase : Phase}
    (calls : store.phase.call = some (call, phase))
    (refuses : store.history.mgr.modifyThrows me call.1 call.2.1 call.2.2 = true ∨
      SizesDiffer store.history.mgr me call)
    (stepped : Stepped me oid store .advance next) : ∃ cause, next.phase = .threw cause := by
  generalize same : DmlOp.advance = op at stepped
  cases stepped with
  | other | read | enter | childThrew | evaluationThrew | placed => cases same
  | comparisonThrew => exact ⟨_, rfl⟩
  | goes _ phase going ready => cases calls.symm.trans (goes_no_call going)
  | modified rid target requireDeleted next result mgr history calls' returned stepped =>
      cases calls.symm.trans calls'
      rcases refuses with throws | differ
      · cases (modify_returned returned).symm.trans throws
      · rw [(modify_size_mismatch returned).mpr differ]
        exact ⟨_, rfl⟩
  | entered kind rid tuple number rest info stands listed free =>
      rw [stands] at calls
      cases calls
  | conflict => exact ⟨_, rfl⟩

theorem scan_throws_end (stepped : ScannedStepped query me oid before label after)
    (throws : ScanThrows query me before label) :
    ∃ cause, after.statement.phase = .threw cause := by
  obtain ⟨_, ⟨rfl, rid, rids, batch, tuple, scans, returned, none⟩ |
      ⟨rfl, rids, batch, scans, none⟩ | ⟨rfl, call, next, calls, differ⟩⟩ := throws
  · cases stepped with
    | read _ op history reads child pulls stepped => rcases child with same | same <;> cases same
    | passed rid' rids' batch' visible scans' pulls returned' refused =>
        cases scans.symm.trans scans'
        cases returned.symm.trans returned'
        cases (refused tuple rfl).symm.trans none
    | took rid' rids' batch' tuple' scans' pulls returned' accepted =>
        cases scans.symm.trans scans'
        cases returned.symm.trans returned'
        cases accepted.symm.trans none
    | filterThrew => exact ⟨_, rfl⟩
  · cases stepped with
    | read _ op history reads child pulls stepped => rcases child with same | same <;> cases same
    | exhausted store scans' stepped =>
        cases scans.symm.trans scans'
        cases none
    | projectionThrew => exact ⟨_, rfl⟩
    | delivered rids' batch' rows store scans' projected stepped =>
        cases scans.symm.trans scans'
        cases projected.symm.trans none
  · cases stepped with
    | read _ op history reads child pulls stepped => rcases child with same | same <;> cases same
    | loop _ store mine stepped => exact refused_call_ends calls differ stepped

theorem ended_step_cases (stepped : ScannedStepped query me oid before label after)
    (ended : before.statement.phase.ended = true) :
    (∃ op, label = .statement (.txn op) ∧ op.actor ≠ some me ∧
        before.statement.history.step op = some after.statement.history) ∨
      (∃ number key rid, label = .statement (.enter number key rid) ∧
        after.statement.history = before.statement.history) := by
  have done (pulls : before.statement.phase.pulls = true) : False := by
    generalize before.statement.phase = phase at ended pulls
    cases phase with
    | notStarted | pulling | writing => cases ended
    | finished | threw => cases pulls
  have ended_goes {indexes : List IndexInfo} {op : DmlOp} {phase : Phase}
    (goes : Goes indexes before.statement.phase op phase) : False := by
    generalize before.statement.phase = first at ended goes
    cases first with
    | notStarted | pulling | writing => cases ended
    | finished | threw => cases goes
  cases stepped with
  | loop op store mine stepped =>
      cases stepped with
      | other op history elsewhere stepped => exact Or.inl ⟨op, rfl, elsewhere, stepped⟩
      | enter number key rid => exact Or.inr ⟨number, key, rid, rfl, rfl⟩
      | read op history pulls => exact (done pulls).elim
      | goes _ phase going => exact (ended_goes going).elim
      | childThrew pulls => exact (done pulls).elim
      | evaluationThrew rows targetExpressions updates stands throws =>
          rw [stands] at ended
          cases ended
      | comparisonThrew rid target requireDeleted next calls =>
          generalize before.statement.phase = first at ended calls
          cases first with
          | notStarted | pulling | writing => cases ended
          | finished | threw => cases calls
      | modified rid target requireDeleted next result mgr history calls returned stepped =>
          generalize before.statement.phase = first at ended calls
          cases first with
          | notStarted | pulling | writing => cases ended
          | finished | threw => cases calls
      | placed rid kind tuple rest history stands stepped =>
          rw [stands] at ended
          cases ended
      | entered kind rid tuple number rest info stands listed free =>
          rw [stands] at ended
          cases ended
      | conflict _ kind stage rest history stands =>
          rw [stands] at ended
          cases ended
  | opened rids history first covered pulls stepped => exact (done pulls).elim
  | read _ op history reads child pulls stepped => exact (done pulls).elim
  | passed rid rids batch visible scans pulls => exact (done pulls).elim
  | took rid rids batch tuple scans pulls => exact (done pulls).elim
  | filterThrew rid rids batch tuple scans pulls => exact (done pulls).elim
  | projectionThrew rids batch scans pulls => exact (done pulls).elim
  | exhausted store scans stepped =>
      obtain ⟨phase, goes, _⟩ := end_stepped_cases stepped
      exact (ended_goes goes).elim
  | delivered rids batch rows store scans projected stepped =>
      rcases batch_stepped_cases stepped with ⟨phase, goes, _⟩ |
        ⟨targetExpressions, updates, stands, _⟩
      · exact (ended_goes goes).elim
      · rw [stands] at ended
        cases ended

theorem tainted_outside_iff {history next : History} {op : TxnOp}
    (standing : Standing me readTs history) (stepped : history.step op = some next)
    (elsewhere : op.actor ≠ some me) :
    Tainted next me ↔ Tainted history me := by
  obtain ⟨txn, live, _⟩ := standing.live
  have kept := (outside_step standing.inv stepped elsewhere live).live
  constructor
  · rintro ⟨record, live', tainted⟩
    obtain rfl := Option.some.inj (live'.1.symm.trans kept.1)
    exact ⟨_, live, tainted⟩
  · rintro ⟨record, live', tainted⟩
    obtain rfl := Option.some.inj (live'.1.symm.trans live.1)
    exact ⟨_, kept, tainted⟩

/-- No exception of that kind is left when the statement has ended. -/
theorem ended_quiet (standing : Standing me readTs before.statement.history)
    (stepped : ScannedStepped query me oid before label after)
    (ended : before.statement.phase.ended = true) :
    ¬ ScanThrows query me before label ∧
      (Tainted after.statement.history me ↔ Tainted before.statement.history me) := by
  rcases ended_step_cases stepped ended with ⟨op, rfl, elsewhere, stepped⟩ |
    ⟨number, key, rid, rfl, same⟩
  · refine ⟨?_, tainted_outside_iff standing stepped elsewhere⟩
    rintro ⟨_, ⟨same, _⟩ | ⟨same, _⟩ | ⟨same, _⟩⟩ <;> cases same
  · refine ⟨?_, by rw [same]⟩
    rintro ⟨_, ⟨same, _⟩ | ⟨same, _⟩ | ⟨same, _⟩⟩ <;> cases same

end Throws

/-! ### Whole runs -/

/-- No row is put where the scan has still to take it. -/
def NoneAhead (query : Query) (store : ScannedStore) (label : ScannedOp) : Prop :=
  revivedAhead query store label = []

def NoScanThrow (query : Query) (me : TxnId) (store : ScannedStore) (label : ScannedOp) : Prop :=
  ¬ ScanThrows query me store label

structure InsertRuns (query : Query) (me : TxnId) (oid : TableOid) (readTs : Timestamp)
    (start : List Tuple)
    (begun : ScannedStore) (labels : List ScannedOp) (store : ScannedStore) : Prop where
  standing : Standing me readTs store.statement.history
  pointed : Pointed oid store.statement
  account : ∃ ahead, InsertStands query me readTs oid start ahead store ∧
    (ahead = [] ↔
      Run (guarded (NoneAhead query) (graph (ScannedStore.step query me oid))) begun labels store)
  quiet : (∀ cause, store.statement.phase ≠ .threw cause) →
    Run (guarded (NoScanThrow query me) (graph (ScannedStore.step query me oid))) begun labels store
  thrown : ∀ cause, store.statement.phase = .threw cause → (Tainted store.statement.history me ↔
    Run (guarded (NoScanThrow query me) (graph (ScannedStore.step query me oid)))
      begun labels store)

section InsertRun
variable {query : Query} {me : TxnId} {oid : TableOid} {readTs : Timestamp}
  {start ahead : List Tuple} {begun before after : ScannedStore} {label : ScannedOp}
  {labels : List ScannedOp} {catalog : TableOid → Schema} {txn : Transaction} {store : Store}

theorem insert_no_update (stands : InsertStands query me readTs oid start ahead before)
    (targetExpressions : Expressions) (updates : List RowUpdate) :
    before.statement.phase ≠ .pulling (.update targetExpressions) updates := by
  intro same
  unfold InsertStands at stands
  rw [same] at stands
  cases stands

theorem insert_runs_snoc (run : Run (graph (ScannedStore.step query me oid)) begun labels before)
    (step : before.step query me oid label = some after)
    (runs : InsertRuns query me oid readTs start begun labels before) :
    InsertRuns query me oid readTs start begun (labels ++ [label]) after := by
  have stepped := scanned_cases step
  obtain ⟨ahead, stands, clear⟩ := runs.account
  have inserting := insert_no_update stands
  refine ⟨scanned_standing runs.standing stepped,
      scanned_pointed runs.standing.inv stepped runs.pointed,
        ⟨ahead ++ revivedAhead query before label,
        insert_stands_step runs.standing runs.pointed stands stepped, ?_⟩,
    fun notThrew => ?_, fun cause threw => ?_⟩
  · rw [guarded_snoc_iff run step, List.append_eq_nil_iff, clear]
    rfl
  · refine (guarded_snoc_iff run step).mpr ⟨runs.quiet fun cause threw => ?_, fun throws => ?_⟩
    · have ended : before.statement.phase.ended = true := by rw [threw]; rfl
      exact notThrew cause ((scanned_ended_stays stepped ended).trans threw)
    · obtain ⟨cause, threw⟩ := scan_throws_end stepped throws
      exact notThrew cause threw
  · rw [guarded_snoc_iff run step]
    cases ended : before.statement.phase.ended with
    | true =>
        obtain ⟨silent, same⟩ := ended_quiet runs.standing stepped ended
        have before' := (scanned_ended_stays stepped ended).symm.trans threw
        rw [same, runs.thrown cause before']
        exact ⟨fun run => ⟨run, silent⟩, fun run => run.1⟩
    | false =>
        have upTo : ∀ cause, before.statement.phase ≠ .threw cause := by
          intro cause threw
          rw [threw] at ended
          cases ended
        rcases scanned_throw_cases runs.standing stepped ended inserting threw with
          ⟨tainted, silent⟩ | ⟨throws, not⟩
        · exact ⟨fun _ => ⟨runs.quiet upTo, silent⟩, fun _ => tainted⟩
        · exact ⟨fun tainted => absurd tainted not, fun run => absurd throws run.2⟩

theorem insert_run (run : Run (graph (ScannedStore.step query me oid)) begun labels after)
    (begins : InsertRuns query me oid readTs start begun [] begun) :
    InsertRuns query me oid readTs start begun labels after := by
  induction labels using List.reverseRecOn generalizing after with
  | nil =>
      cases run
      exact begins
  | append_singleton labels label ih =>
      obtain ⟨middle, head, step⟩ := run_snoc_split run
      exact insert_runs_snoc head step (ih head)

theorem insert_begins (reached : TableReached catalog oid store)
    (live : store.history.Live me txn) :
    InsertRuns query me oid txn.readTs ((seenRows me txn.readTs oid store.history).map Prod.snd)
      (beginInsert store) []
      (beginInsert store) where
  standing := ⟨reached_inv (table_reached_inv reached).1, txn, live, rfl⟩
  pointed := ⟨(table_reached_inv reached).2, fun rid points => by cases points⟩
  account := ⟨[], InsertInv.opening _ rfl seen_rows_list rfl rfl, fun _ => Run.refl _, fun _ => rfl⟩
  quiet _ := Run.refl _
  thrown cause threw := by cases threw

/-- The statement has put in one row for each row of the start that the predicate
accepts, and no other, or it has thrown and the transaction is tainted. -/
def InsertRight (query : Query) (me : TxnId) (oid : TableOid) (readTs : Timestamp) (start : History)
    (after : ScannedStore) : Prop :=
  (after.statement.phase = .finished ∧
    ∃ inserted, (((seenRows me readTs oid start).map Prod.snd).filter query.accepts).mapM
      query.projection = some inserted ∧
        ((seenRows me readTs oid after.statement.history).map Prod.snd).Perm
        ((seenRows me readTs oid start).map Prod.snd ++ inserted)) ∨
  ∃ cause, after.statement.phase = .threw cause ∧ Refused me after.statement.history

/-- At the end the number of rows tells whether one was taken that the statement had put in. -/
theorem finished_right_iff {history : History} {rows : List (RID × Tuple)} {start : List Tuple}
    (lists : Lists (tableView me readTs oid history) rows) {delivered inserted : List Tuple}
    (grown : (rows.map Prod.snd).Perm (start ++ inserted))
    (projected : delivered.mapM query.projection = some inserted)
    (accepted : delivered.Perm (start.filter query.accepts ++ ahead)) :
    (∃ inserted, (start.filter query.accepts).mapM query.projection = some inserted ∧
        ((seenRows me readTs oid history).map Prod.snd).Perm (start ++ inserted)) ↔ ahead = [] := by
  have listed : ((seenRows me readTs oid history).map Prod.snd).Perm (start ++ inserted) :=
    ((lists_perm seen_rows_list lists).map _).trans grown
  constructor
  · rintro ⟨right, projected', same⟩
    have sizes : (start ++ inserted).length = (start ++ right).length :=
      (listed.symm.trans same).length_eq
    have taken := accepted.length_eq
    rw [List.length_append] at taken
    rw [List.length_append, List.length_append, map_m_length projected, map_m_length projected']
      at sizes
    exact List.eq_nil_of_length_eq_zero (by omega)
  · rintro rfl
    rw [List.append_nil] at accepted
    obtain ⟨right, projected', same⟩ := map_m_perm accepted projected
    exact ⟨right, projected', listed.trans (same.append_left start)⟩

/-- `INSERT INTO t SELECT f FROM t WHERE p` inserts what it should, or throws and
taints, if no exception comes that does not taint, and no row is revived where the
scan has still to take it; and only then. -/
theorem insert_select_iff (reached : TableReached catalog oid store)
    (live : store.history.Live me txn)
    (run : Run (graph (ScannedStore.step query me oid)) (beginInsert store) labels after)
    (ended : after.statement.phase.ended = true) :
    InsertRight query me oid txn.readTs store.history after ↔
      Run (guarded (NoScanThrow query me) (graph (ScannedStore.step query me oid)))
        (beginInsert store) labels after ∧ (after.statement.phase = .finished →
        Run (guarded (NoneAhead query) (graph (ScannedStore.step query me oid)))
          (beginInsert store) labels after) := by
  have runs := insert_run run (insert_begins reached live)
  obtain ⟨ahead, stands, clear⟩ := runs.account
  unfold InsertStands at stands
  unfold InsertRight
  cases phase : after.statement.phase with
  | notStarted | pulling | writing =>
      rw [phase] at ended
      cases ended
  | finished =>
      rw [phase] at stands
      have quiet := runs.quiet (by simp [phase])
      cases stands with
      | finished delivered inserted rows lists grown projected accepted =>
          rw [finished_right_iff lists grown projected accepted, clear]
          simp [quiet]
  | threw cause =>
      have refused : Tainted after.statement.history me ↔ Refused me after.statement.history :=
        ⟨tainted_refused runs.standing.inv, fun refused => refused.1⟩
      rw [← runs.thrown cause phase, refused]
      simp

end InsertRun

/-! ### A row that is inserted twice over -/

def slotAt (slotNum : Nat) : RID := { pageId := 0, slotNum := slotNum }

def addHundred (tuple : Tuple) : Option Tuple :=
  tuple.mapM fun value =>
    match value.datum with
    | some (.number key) => some (number (key + 100))
    | _ => none

/-- `SELECT k + 100 FROM t`. -/
def plusHundred : Query where
  filterPredicate := fun _ => some true
  projection := addHundred

def deletedLastOps : List IdleOp :=
  ([.txn (.begin .snapshotIsolation), .createIndex [0] true] : List IdleOp) ++
  ((List.range 21).flatMap fun (slot : Nat) =>
    let tuple : Tuple := [number (if slot = 20 then 101 else (slot : Int) + 1)]
    ([.txn (.insert TXN_START_ID 0 (slotAt slot) tuple), .insertEntry 0 tuple (slotAt slot)] :
      List IdleOp)) ++
  ([.txn (.modify TXN_START_ID (slotAt 20) none false)] : List IdleOp)

def deletedLastRun : Option Store :=
  deletedLastOps.foldlM (Store.idleStep 0) (Store.create oneColumn)

theorem deleted_last_returns : deletedLastRun.isSome = true := by decide +kernel

def deletedLast : Store := deletedLastRun.get deleted_last_returns

def placeLabels (slot : Nat) : List ScannedOp :=
  List.replicate 3 (.statement .advance : ScannedOp) ++
    ([.statement (.place (slotAt slot))] : List ScannedOp) ++
    List.replicate 2 (.statement .advance : ScannedOp)

/-- The first batch is full before the deleted slot; its first row is put there,
and the second batch is that row. -/
def takenAgainLabels : List ScannedOp :=
  ([.openScan ((List.range 21).map slotAt)] : List ScannedOp) ++
  ((List.range 20).flatMap fun _ => ([.read, .take] : List ScannedOp)) ++
    ([.deliver] : List ScannedOp) ++
  List.replicate 3 (.statement .advance : ScannedOp) ++ ((List.range 19).flatMap fun row =>
    placeLabels (21 + row)) ++
  ([.statement .advance, .read, .take, .deliver] : List ScannedOp) ++ placeLabels 40 ++
  ([.statement .advance, .deliver] : List ScannedOp)

def takenAgainRun : Option ScannedStore :=
  takenAgainLabels.foldlM (ScannedStore.step plusHundred TXN_START_ID 0) (beginInsert deletedLast)

theorem taken_again_returns : takenAgainRun.isSome = true := by decide +kernel

def takenAgain : ScannedStore := takenAgainRun.get taken_again_returns

theorem deleted_last_found : (deletedLast.history.mgr.txnMap.lookup TXN_START_ID).isSome =
    true := by decide +kernel

def deletedLastTxn : Transaction :=
  (deletedLast.history.mgr.txnMap.lookup TXN_START_ID).get deleted_last_found

theorem deleted_last_live : deletedLast.history.Live TXN_START_ID deletedLastTxn :=
  ⟨(Option.some_get _).symm, by decide +kernel⟩

theorem deleted_last_reached : TableReached oneColumn 0 deletedLast :=
  ⟨_, deletedLastOps, rfl, run_of_fold (Option.some_get _).symm⟩

theorem taken_again_run :
    Run (graph (ScannedStore.step plusHundred TXN_START_ID 0))
      (beginInsert deletedLast) takenAgainLabels takenAgain :=
  run_of_fold (Option.some_get _).symm

theorem taken_again_finished : takenAgain.statement.phase = .finished := by
  have ended : (match takenAgain.statement.phase with | .finished => true | _ => false) = true := by
    decide +kernel
  cases phase : takenAgain.statement.phase with
  | finished => rfl
  | notStarted | pulling | writing | threw =>
      rw [phase] at ended
      cases ended

/-- Twenty rows of the table become twenty-one new ones. -/
theorem row_taken_again :
    TableReached oneColumn 0 deletedLast ∧ deletedLast.history.Live TXN_START_ID deletedLastTxn ∧
    Run (graph (ScannedStore.step plusHundred TXN_START_ID 0)) (beginInsert deletedLast)
      takenAgainLabels takenAgain ∧ takenAgain.statement.phase.ended = true ∧
    ¬ InsertRight plusHundred TXN_START_ID 0 deletedLastTxn.readTs deletedLast.history
      takenAgain := by
  refine ⟨deleted_last_reached, deleted_last_live, taken_again_run,
    by rw [taken_again_finished]; rfl, ?_⟩
  rintro (⟨_, inserted, projected, same⟩ | ⟨cause, threw, _⟩)
  · have before :
        ((seenRows TXN_START_ID deletedLastTxn.readTs 0 deletedLast.history).map Prod.snd).length =
        20 := by
      decide +kernel
    have found :
        (((seenRows TXN_START_ID deletedLastTxn.readTs 0 deletedLast.history).map Prod.snd).filter
        plusHundred.accepts).length = 20 := by
      decide +kernel
    have after :
      ((seenRows TXN_START_ID deletedLastTxn.readTs 0 takenAgain.statement.history).map
        Prod.snd).length = 41 := by
      decide +kernel
    have sizes := same.length_eq
    rw [List.length_append, before, after, map_m_length projected, found] at sizes
    cases sizes
  · rw [taken_again_finished] at threw
    cases threw

theorem taken_again_decided :
    InsertRight plusHundred TXN_START_ID 0 deletedLastTxn.readTs deletedLast.history takenAgain ↔
      Run (guarded (NoScanThrow plusHundred TXN_START_ID)
        (graph (ScannedStore.step plusHundred TXN_START_ID 0)))
        (beginInsert deletedLast) takenAgainLabels takenAgain ∧
      (takenAgain.statement.phase = .finished →
        Run (guarded (NoneAhead plusHundred) (graph (ScannedStore.step plusHundred TXN_START_ID 0)))
          (beginInsert deletedLast) takenAgainLabels takenAgain) :=
  insert_select_iff deleted_last_reached deleted_last_live taken_again_run
    (by rw [taken_again_finished]; rfl)

end BusTub.Dml
