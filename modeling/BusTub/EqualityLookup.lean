import BusTub.OrderedIndexScan

/-!
The rewrite of `optimizer/seqscan_as_indexscan.cpp`: a scan whose filter asks for
some values of one column looks these up in an index of the column. The filter is
checked again on each row that the lookup finds, so that the two scans differ only
where a row that the filter accepts has no entry under its value.
-/

namespace BusTub

open BatchSource
open TransitionSystem (graph)

/-! ### The rewrite -/

def columnAndOther : Expression → Expression → Option (Nat × Expression)
  | .columnValue _ colIdx _, constExpr => some (colIdx, constExpr)
  | constExpr, .columnValue _ colIdx _ => some (colIdx, constExpr)
  | _, _ => none

/-- `CollectEqualityKeys`; `*col_idx` is `none` until a column is met. -/
def collectEqualityKeys : Expression → Option Nat → Option (List Value × Option Nat)
  | .logic left right logicType, colIdx =>
      if logicType ≠ .or then none
      else do
        let (leftKeys, colIdx) ← collectEqualityKeys left colIdx
        let (rightKeys, colIdx) ← collectEqualityKeys right colIdx
        return (leftKeys ++ rightKeys, colIdx)
  | .comparison left right compType, colIdx =>
      if compType ≠ .equal then none
      else
        match columnAndOther left right with
        | some (column, .constantValue val) =>
            if colIdx.all (· = column) then some ([val], some column) else none
        | _ => none
  | _, _ => none

/-- The index that `OptimizeSeqScanAsIndexScan` chooses for a scan of the table, and the keys to
look up in it. -/
def seqScanAsIndexScan (filterPredicate : Option Expression) (indexes : List IndexInfo) :
    Option (IndexInfo × List Value) := do
  let filter ← filterPredicate
  let (keys, colIdx) ← collectEqualityKeys filter none
  let column ← colIdx
  let index ← matchIndex indexes column
  return (index, keys)

/-- How an expression answers as the filter of a scan. -/
def Expression.filter (expr : Expression) : Predicate :=
  some fun tuple => ((expr.evaluate tuple).bind Value.getBoolAsCmpBool).join

def KeyConstant (value : Value) : Prop := value = ⟨.integer, none⟩ ∨ ∃ key : Int, value = number key

def TableIndex.lookups (nullKey : UnorderedMap IndexKey RID → Option IndexKey)
    (index : TableIndex) : IndexView where
  scanKey value := (index.scanKey nullKey value).getD []
  entries := []

/-- What `ScanKey` finds for a constant: for a NULL any entry of the map, if one. -/
structure Probes (map : UnorderedMap Tuple RID) (scanKey : Value → Option (List RID)) : Prop where
  keys : ∀ key : Int, scanKey (number key) = some (map.lookup [number key]).toList
  null : ∃ rids, scanKey ⟨.integer, none⟩ = some rids ∧
    ∀ rid ∈ rids, ∃ entry, map.lookup entry = some rid

theorem represents_probes {index : TableIndex} {map : UnorderedMap Tuple RID}
    (represents : index.Represents map) (nullKey : UnorderedMap IndexKey RID → Option IndexKey) :
    Probes map (index.scanKey nullKey) where
  keys key := by
    have whole : number key ≠ ⟨.integer, none⟩ := by simp [number]
    have read : keyNumbers [number key] = some [key] := key_numbers [key]
    rw [TableIndex.scanKey, if_neg whole, read, Option.bind_some,
      TableIndex.value_represents represents]
    rfl
  null := by
    obtain ⟨found, answered, entries⟩ := TableIndex.null_represents represents nullKey
    refine ⟨found.toList, ?_, fun rid member => entries rid (Option.mem_toList.mp member)⟩
    rw [TableIndex.scanKey, if_pos rfl, answered, Option.map_some]

section Filters
variable {filter left right : Expression} {keys : List Value} {colIdx after : Option Nat}
  {column : Nat} {tuple : Tuple}

theorem column_and_other {constExpr : Expression}
    (split : columnAndOther left right = some (column, constExpr)) :
    (∃ tupleIdx retType, left = .columnValue tupleIdx column retType ∧ right = constExpr) ∨
      ∃ tupleIdx retType, right = .columnValue tupleIdx column retType ∧ left = constExpr := by
  unfold columnAndOther at split
  split at split
  · obtain ⟨rfl, rfl⟩ := Prod.mk.inj (Option.some.inj split)
    exact Or.inl ⟨_, _, rfl, rfl⟩
  · obtain ⟨rfl, rfl⟩ := Prod.mk.inj (Option.some.inj split)
    exact Or.inr ⟨_, _, rfl, rfl⟩
  · cases split

theorem collected_or
    (collected : collectEqualityKeys (.logic left right .or) colIdx = some (keys, after)) :
    ∃ leftKeys middle rightKeys, collectEqualityKeys left colIdx = some (leftKeys, middle) ∧
      collectEqualityKeys right middle = some (rightKeys, after) ∧
      keys = leftKeys ++ rightKeys := by
  simp only [collectEqualityKeys, ne_eq, not_true_eq_false, if_false, Option.bind_eq_bind,
    Option.bind_eq_some_iff]
    at collected
  obtain ⟨⟨leftKeys, middle⟩, first, ⟨rightKeys, last⟩, second, same⟩ := collected
  obtain ⟨rfl, rfl⟩ := Prod.mk.inj (Option.some.inj same)
  exact ⟨leftKeys, middle, rightKeys, first, second, rfl⟩

theorem collected_equality {compType : ComparisonType}
    (collected : collectEqualityKeys (.comparison left right compType) colIdx =
      some (keys, after)) :
    compType = .equal ∧ ∃ column val, columnAndOther left right =
      some (column, .constantValue val) ∧ (∀ earlier, colIdx = some earlier → earlier = column) ∧
        keys = [val] ∧ after = some column := by
  unfold collectEqualityKeys at collected
  split at collected
  · cases collected
  · rename_i equal
    split at collected
    · rename_i column val split
      split at collected
      · rename_i one
        obtain ⟨rfl, rfl⟩ := Prod.mk.inj (Option.some.inj collected)
        refine ⟨not_not.mp equal, column, val, split, ?_, rfl, rfl⟩
        rintro earlier rfl
        simpa using one
      · cases collected
    · cases collected

/-- All equalities are on one column, and there is one at least. -/
theorem collected_column (collected : collectEqualityKeys filter colIdx = some (keys, after)) :
    keys ≠ [] ∧ ∃ column, after = some column ∧ ∀ earlier, colIdx = some earlier →
      earlier = column := by
  induction filter generalizing colIdx keys after with
  | logic left right logicType ihLeft ihRight =>
      cases logicType with
      | and => cases collected
      | or =>
          obtain ⟨leftKeys, middle, rightKeys, first, second, rfl⟩ := collected_or collected
          obtain ⟨some, column, rfl, earlier⟩ := ihLeft first
          obtain ⟨-, last, rfl, same⟩ := ihRight second
          obtain rfl := same column rfl
          exact ⟨by simp [some], column, rfl, earlier⟩
  | comparison left right compType =>
      obtain ⟨-, column, val, -, earlier, rfl, rfl⟩ := collected_equality collected
      exact ⟨List.cons_ne_nil _ _, column, rfl, earlier⟩
  | columnValue | constantValue | arithmetic | string => cases collected

theorem null_compare (key : Int) : (number key).compare .equal ⟨.integer, none⟩ = some none ∧
    Value.compare .equal ⟨.integer, none⟩ (number key) = some none := ⟨rfl, rfl⟩

theorem or_perform {first second : Option Bool} :
    LogicType.perform .or first second = some true ↔ first = some true ∨ second = some true := by
  cases first with
  | none => cases second <;> simp [LogicType.perform]
  | some first =>
      cases second with
      | none => cases first <;> simp [LogicType.perform]
      | some second => cases first <;> cases second <;> decide

/-- On a row with this number in the column the filter answers whether the number is one of its
keys. -/
theorem collected_answer (collected : collectEqualityKeys filter colIdx = some (keys, some column))
    (constants : ∀ key ∈ keys, KeyConstant key) {value : Int}
    (cell : tuple[column]? = some (number value)) :
    ∃ answer, filter.evaluate tuple = some (.boolean answer) ∧
      (answer = some true ↔ number value ∈ keys) := by
  induction filter generalizing colIdx keys with
  | logic left right logicType ihLeft ihRight =>
      cases logicType with
      | and => cases collected
      | or =>
          obtain ⟨leftKeys, middle, rightKeys, first, second, rfl⟩ := collected_or collected
          obtain ⟨-, between, rfl, -⟩ := collected_column first
          obtain ⟨-, last, same, onOne⟩ := collected_column second
          obtain rfl := Option.some.inj same
          -- both sides are about one column
          obtain rfl := onOne between rfl
          obtain ⟨here, evaluated, accepts⟩ :=
            ihLeft first fun key member => constants key (List.mem_append_left _ member)
          obtain ⟨there, evaluated', accepts'⟩ :=
            ihRight second fun key member => constants key (List.mem_append_right _ member)
          refine ⟨LogicType.perform .or here there, ?_, ?_⟩
          · unfold Expression.evaluate at evaluated evaluated' ⊢
            simp [Expression.evaluateOn, evaluated, evaluated']
          · rw [or_perform, List.mem_append, accepts, accepts']
  | comparison left right compType =>
      obtain ⟨rfl, other, val, split, -, rfl, same⟩ := collected_equality collected
      obtain rfl := Option.some.inj same
      rcases constants val List.mem_cons_self with rfl | ⟨key, rfl⟩
      · -- `column = NULL` is NULL
        refine ⟨none, ?_, by simp [number]⟩
        rcases column_and_other split with ⟨_, _, rfl, rfl⟩ | ⟨_, _, rfl, rfl⟩
        · simp [Expression.evaluate, Expression.evaluateOn, cell, null_compare]
        · simp [Expression.evaluate, Expression.evaluateOn, cell, null_compare]
      · have equal : number value = number key ↔ value = key := by simp [number]
        refine ⟨some (decide (value = key)), ?_, by simp [equal]⟩
        rcases column_and_other split with ⟨_, _, rfl, rfl⟩ | ⟨_, _, rfl, rfl⟩
        · simp [Expression.evaluate, Expression.evaluateOn, cell, number_compare,
            ComparisonType.admits]
        · have turned : decide (key = value) = decide (value = key) := by simp [eq_comm]
          simp [Expression.evaluate, Expression.evaluateOn, cell, number_compare,
            ComparisonType.admits, turned]
  | columnValue | constantValue | arithmetic | string => cases collected

end Filters

section Scans
variable {table : TableInfo} {store : IndexedStore} {map : UnorderedMap Tuple RID}
  {view : TableView} {id : TxnId} {txn : Transaction} {filter : Expression} {keys : List Value}
  {colIdx : Option Nat} {column : Nat} {index : TableIndex}
  {nullKey : UnorderedMap IndexKey RID → Option IndexKey} {rid : RID} {visible : RID → Option Tuple}
  {filterPredicate : Predicate}

theorem dups_erased (rids : List RID) : rids.eraseDups.Nodup := by
  induction length : rids.length using Nat.strongRecOn generalizing rids with
  | ind count ih =>
      cases rids with
      | nil => simp
      | cons rid rids =>
          rw [List.eraseDups_cons, List.nodup_cons]
          constructor
          · simp [List.mem_eraseDups]
          · refine ih _ ?_ _ rfl
            rw [← length, List.length_cons, Nat.lt_succ_iff]
            exact List.length_filter_le _ _

/-- A row that is shown has a number in the column, and the index has its RID under the number. -/
theorem shown_under_key (inv : Inv store.history) (keyed : IndexKeyed table store map)
    (live : store.history.Live id txn) (idle : store.entering id = none)
    (shown : Shown table store.history id view) (onColumn : table.keyAttrs = [column])
    (member : rid ∈ view.rids) {tuple : Tuple} (visible : view.visible rid = some tuple) :
    ∃ value : Int, tuple[column]? = some (number value) ∧ map.lookup [number value] = some rid :=
  listed_under_number onColumn (shown_listed inv keyed live idle shown member visible)

theorem looked_up_shown (keyed : IndexKeyed table store map)
    (shown : Shown table store.history id view) (probes : Probes map (index.scanKey nullKey))
    (constants : ∀ key ∈ keys, KeyConstant key)
    (found : rid ∈ keys.flatMap (index.lookups nullKey).scanKey) : rid ∈ view.rids := by
  obtain ⟨key, member, found⟩ := List.mem_flatMap.mp found
  have entry : ∃ entry, map.lookup entry = some rid := by
    simp only [TableIndex.lookups] at found
    rcases constants key member with rfl | ⟨value, rfl⟩
    · obtain ⟨rids, scanned, entries⟩ := probes.null
      rw [scanned, Option.getD_some] at found
      exact entries rid found
    · rw [probes.keys, Option.getD_some, Option.mem_toList] at found
      exact ⟨_, found⟩
  obtain ⟨entry, inside⟩ := entry
  obtain ⟨slot, there, sameOid⟩ := keyed.slots entry rid inside
  apply shown.rids.mem_iff.mpr
  exact List.mem_map.mpr ⟨⟨rid, slot⟩,
      List.mem_filter.mpr ⟨AList.mem_lookup_iff.mp there, by simpa using sameOid⟩, rfl⟩

theorem scan_row_some {row : Row × RID} :
    scanRow visible filterPredicate rid = some row ↔
      ∃ values, visible rid = some values ∧ filterPredicate.accepts values = true ∧
      row = (⟨values, rid⟩, rid) := by
  rw [scanRow, Option.bind_eq_some_iff]
  constructor
  · rintro ⟨values, seen, same⟩
    obtain ⟨accepted, same⟩ := Option.ite_none_right_eq_some.mp same
    exact ⟨values, seen, accepted, (Option.some.inj same).symm⟩
  · rintro ⟨values, seen, accepted, rfl⟩
    exact ⟨values, seen, if_pos accepted⟩

theorem scanned_nodup {rids : List RID}
    (nodup : rids.Nodup) : (rids.filterMap (scanRow visible filterPredicate)).Nodup := by
  apply nodup.filterMap
  intro rid other row first second
  obtain ⟨values, -, -, rfl⟩ := scan_row_some.mp first
  obtain ⟨values', -, -, same⟩ := scan_row_some.mp second
  exact (Prod.mk.inj same).2

theorem lookup_perm (inv : Inv store.history) (keyed : IndexKeyed table store map)
    (live : store.history.Live id txn) (idle : store.entering id = none)
    (shown : Shown table store.history id view)
    (collected : collectEqualityKeys filter colIdx = some (keys, some column))
    (onColumn : table.keyAttrs = [column]) (probes : Probes map (index.scanKey nullKey))
    (constants : ∀ key ∈ keys, KeyConstant key) :
    ((keys.flatMap (index.lookups nullKey).scanKey).eraseDups.filterMap
      (scanRow view.visible filter.filter)).Perm
      (view.rids.filterMap (scanRow view.visible filter.filter)) := by
  have rids : view.rids.Nodup := shown.rids.nodup_iff.mpr (table_rids_nodup _)
  -- no row comes twice, so the same rows are enough
  apply (List.perm_ext_iff_of_nodup (scanned_nodup (dups_erased _)) (scanned_nodup rids)).mpr
  intro row
  rw [List.mem_filterMap, List.mem_filterMap]
  constructor
  · rintro ⟨rid, found, here⟩
    exact ⟨rid, looked_up_shown keyed shown probes constants (List.mem_eraseDups.mp found), here⟩
  · rintro ⟨rid, member, here⟩
    obtain ⟨values, visible, accepted, rfl⟩ := scan_row_some.mp here
    obtain ⟨value, cell, entered⟩ :=
      shown_under_key inv keyed live idle shown onColumn member visible
    obtain ⟨answer, evaluated, accepts⟩ := collected_answer collected constants cell
    have asked : number value ∈ keys := by
      apply accepts.mp
      simp only [Predicate.accepts, Expression.filter, evaluated, Option.bind_some,
        Value.bool_of_boolean, Option.join_some] at accepted
      cases answer with
      | none => cases accepted
      | some holds => exact congrArg _ accepted
    refine ⟨rid, List.mem_eraseDups.mpr (List.mem_flatMap.mpr ⟨_, asked, ?_⟩), here⟩
    simp only [TableIndex.lookups]
    rw [probes.keys, Option.getD_some, Option.mem_toList]
    exact entered

end Scans

/-- The filter throws at no row that is shown, each lookup comes back, and the two scans hand out
the same rows. -/
def ScansAgree (filter : Expression) (keys : List Value)
    (nullKey : UnorderedMap IndexKey RID → Option IndexKey)
    (index : TableIndex) (view : TableView) : Prop :=
  (∀ rid ∈ view.rids, ∀ values, view.visible rid = some values → (filter.evaluate values).isSome) ∧
  (∀ key ∈ keys, (index.scanKey nullKey key).isSome) ∧
  ∃ looked scanned, Outputs
    (indexScanExecutor view (index.lookups nullKey)
      { predKeys := keys, filterPredicate := filter.filter }) looked ∧
        Outputs (seqScanExecutor view filter.filter) scanned ∧ looked.Perm scanned

theorem lookup_outputs {filter : Expression} {keys : List Value} (some : keys ≠ [])
    (indexView : IndexView) (view : TableView) :
    Outputs
      (indexScanExecutor view indexView { predKeys := keys, filterPredicate := filter.filter })
      ((keys.flatMap indexView.scanKey).eraseDups.filterMap
        (scanRow view.visible filter.filter)) := by
  have keyed : keys.isEmpty = false := by simpa using some
  refine ⟨{ lookupRids := (keys.flatMap indexView.scanKey).eraseDups }, ?_, ?_⟩
  · simp [indexScanExecutor, keyed]
  · exact @index_lookup_delivers view indexView
      { predKeys := keys, filterPredicate := filter.filter } keyed _

theorem scan_outputs (filterPredicate : Predicate) (view : TableView) :
    Outputs (seqScanExecutor view filterPredicate)
      (view.rids.filterMap (scanRow view.visible filterPredicate)) :=
  ⟨some view.rids, rfl, seq_scan_delivers view filterPredicate⟩

/-- In every run that keeps the keys, for whatever a running transaction is shown. -/
theorem equality_lookup_agrees (catalog : TableOid → Schema) (table : TableInfo)
    (store : IndexedStore) (reached : KeysKept catalog table store) (index : TableIndex)
    (created : store.index = some index) (filter : Expression) (indexes : List IndexInfo)
    (info : IndexInfo) (keys : List Value)
    (rewritten : seqScanAsIndexScan (some filter) indexes = some (info, keys))
    (ofTable : info.keyAttrs = table.keyAttrs) (constants : ∀ key ∈ keys, KeyConstant key)
    (id : TxnId) (txn : Transaction) (found : store.history.mgr.txnMap.lookup id = some txn)
    (running : txn.state = .running) (idle : store.entering id = none) (view : TableView)
    (shown : Shown table store.history id view)
    (nullKey : UnorderedMap IndexKey RID → Option IndexKey) :
    ScansAgree filter keys nullKey index view := by
  have inv := keys_kept_inv reached
  have live : store.history.Live id txn := ⟨found, by simp [Transaction.live, running]⟩
  obtain ⟨map, represents, keyed⟩ := inv.keyed index created
  have probes := represents_probes represents nullKey
  simp only [seqScanAsIndexScan, Option.bind_eq_bind, Option.bind_some, Option.bind_eq_some_iff]
    at rewritten
  obtain ⟨⟨asked, colIdx⟩, collected, column, rfl, chosen, matched, same⟩ := rewritten
  obtain ⟨rfl, rfl⟩ := Prod.mk.inj (Option.some.inj same)
  have onColumn : table.keyAttrs = [column] := by
    rw [← ofTable]
    simpa using List.find?_some matched
  refine ⟨?_, ?_, ?_⟩
  · intro rid member values visible
    obtain ⟨value, cell, -⟩ := shown_under_key inv.inv keyed live idle shown onColumn member visible
    obtain ⟨answer, evaluated, -⟩ := collected_answer collected constants cell
    simp [evaluated]
  · intro key member
    rcases constants key member with rfl | ⟨value, rfl⟩
    · obtain ⟨rids, scanned, -⟩ := probes.null
      simp [scanned]
    · simp [probes.keys]
  · exact ⟨_, _, lookup_outputs (collected_column collected).1 (index.lookups nullKey) view,
      scan_outputs filter.filter view, lookup_perm inv.inv keyed live idle shown collected onColumn
        probes constants⟩

/-! ### Two runs -/

def oneOrTwo : Expression :=
  .logic (.comparison (.columnValue .left 0 .integer) (.constantValue (number 2)) .equal)
    (.logic (.comparison (.constantValue (number 1)) (.columnValue .left 0 .integer) .equal)
      (.logic (.comparison (.columnValue .left 0 .integer) (.constantValue ⟨.integer, none⟩) .equal)
        (.comparison (.columnValue .left 0 .integer) (.constantValue (number 2)) .equal) .or) .or)
          .or

def oneOrTwoKeys : List Value := [number 2, number 1, ⟨.integer, none⟩, number 2]

theorem two_rows_looked_up : ∃ index, twoRowStore.index = some index ∧
    ScansAgree oneOrTwo oneOrTwoKeys noKey index (twoSlots [number 1] [number 2]) := by
  obtain ⟨container, created, -⟩ := two_entries_walked
  have constants : ∀ key ∈ oneOrTwoKeys, KeyConstant key := by
    intro key member
    simp only [oneOrTwoKeys, List.mem_cons, List.not_mem_nil, or_false] at member
    rcases member with rfl | rfl | rfl | rfl
    · exact Or.inr ⟨2, rfl⟩
    · exact Or.inr ⟨1, rfl⟩
    · exact Or.inl rfl
    · exact Or.inr ⟨2, rfl⟩
  exact ⟨_, created,
    equality_lookup_agrees oneColumn keyTable twoRowStore two_rows_kept _ created
      oneOrTwo [columnInfo] columnInfo oneOrTwoKeys rfl rfl constants TXN_START_ID _ rfl rfl rfl
      (twoSlots [number 1] [number 2]) two_rows_shown noKey⟩

def isThree : Expression :=
  .comparison (.columnValue .left 0 .integer) (.constantValue (number 3)) .equal

theorem three_not_entered : ∃ index, movedKeyStore.index = some index ∧
    index.scanKey noKey (number 3) = some [] := ⟨_, rfl, by decide⟩

/-- The row whose key an UPDATE has moved to 3 is not found under 3. -/
theorem moved_key_not_found :
    ¬∀ (catalog : TableOid → Schema) (table : TableInfo) (store : IndexedStore),
      TransitionSystem.Reachable (· = IndexedStore.start catalog)
        (graph (IndexedStore.step table)) store → ∀ index, store.index = some index →
          ∀ filter indexes info keys,
      seqScanAsIndexScan (some filter) indexes = some (info, keys) →
        info.keyAttrs = table.keyAttrs → (∀ key ∈ keys, KeyConstant key) →
        ∀ id txn, store.history.mgr.txnMap.lookup id = some txn →
      txn.state = .running → store.entering id = none → ∀ view, Shown table store.history id view →
      ∀ nullKey, ScansAgree filter keys nullKey index view := by
  intro claim
  have reached : TransitionSystem.Reachable (· = IndexedStore.start oneColumn)
      (graph (IndexedStore.step keyTable))
      movedKeyStore :=
        ⟨_, movedKey, rfl, TransitionSystem.run_of_fold (Option.some_get moved_key_returns).symm⟩
  obtain ⟨index, created, missing⟩ := three_not_entered
  have constants : ∀ key ∈ [number 3], KeyConstant key := by
    intro key member
    exact Or.inr ⟨3, List.mem_singleton.mp member⟩
  obtain ⟨-, -, looked, scanned, lookup, scan, perm⟩ :=
    claim oneColumn keyTable movedKeyStore reached index created isThree [columnInfo] columnInfo
      [number 3] rfl rfl
      constants TXN_START_ID _ rfl rfl rfl (twoSlots [number 3] [number 2]) moved_key_shown noKey
  have nothing := outputs_unique lookup (lookup_outputs (List.cons_ne_nil _ _) _ _)
  have one := outputs_unique scan (scan_outputs _ _)
  have none : [number 3].flatMap (index.lookups noKey).scanKey = [] := by
    simp [TableIndex.lookups, missing]
  rw [none] at nothing
  rw [nothing, one] at perm
  exact absurd perm.length_eq (by decide)

end BusTub
