import BusTub.IndexedTables
import BusTub.KeyUniqueness
import BusTub.ExecutorContracts

/-!
The rewrite of `optimizer/order_by_index_scan.cpp`: a walk through an index in the
order of its keys takes the place of a sort. The index compares its keys with
`GenericComparator`, for which a NULL is equal to everything, and the placement of
NULLs that the ORDER BY list asks for is not looked at. Where the keys are kept the
walk brings the rows of the sort, in the order of the list.
-/

namespace BusTub

open BatchSource LexicographicOrder
open TransitionSystem (graph)

def orderByColumn (item : OrderBy) : Option Nat :=
  if item.direction = .desc then none
  else
    match item.expr with
    | .columnValue _ colIdx _ => some colIdx
    | _ => none

/-- The index that `OptimizeOrderByAsIndexScan` chooses for a sort over a scan of the table. -/
def asIndexScan (orderBys : List OrderBy) (indexes : List IndexInfo) : Option IndexInfo := do
  let columns ← orderBys.mapM orderByColumn
  indexes.find? fun index => index.keyAttrs = columns

def orderedScan (rounds : Nat) (index : TableIndex) (view : TableView) : Option Executor :=
  (index.entries rounds).map fun entries =>
    indexScanExecutor view { scanKey := fun _ => [], entries := entries.map Prod.snd }
      { predKeys := [], filterPredicate := none }

structure Shown (table : TableInfo) (history : History) (id : TxnId) (view : TableView) : Prop where
  rids : view.rids.Perm (IndexedStore.tableRids table history.mgr)
  reads : ∀ rid ∈ view.rids, Reads history id rid (view.visible rid)

section Numbers
variable {orderBys : List OrderBy} {columns : List Nat} {tuple : Tuple}

/-- Keys that the index has in this order are not out of order for a list whose items go up. -/
theorem ascending_in_order (up : ∀ item ∈ orderBys, item.direction ≠ .desc) {left right : List Int}
    (ascending : genericCompare (left.map number) (right.map number) = -1) :
    compareKeys asksNullsFirst orderBys (right.map number) (left.map number) = false := by
  induction orderBys generalizing left right with
  | nil => simp [compareKeys]
  | cons item items ih =>
      have goesUp := up item List.mem_cons_self
      cases left with
      | nil => cases right <;> simp [compareKeys]
      | cons a left =>
          cases right with
          | nil => simp [compareKeys]
          | cons b right =>
              have whole (value : Int) : (number value).isNull = false := rfl
              simp only [List.map_cons, genericCompare, compareKeys, number_less, number_greater,
                number_equal, whole, goesUp] at ascending ⊢
              rcases lt_trichotomy a b with less | rfl | greater
              · have apart : b ≠ a := ne_of_gt less
                simp [apart, not_lt_of_gt less]
              · simp only [lt_irrefl, if_false] at ascending
                simpa using ih (fun item member =>
                  up item (List.mem_cons_of_mem _ member)) ascending
              · simp [greater, not_lt_of_gt greater] at ascending

theorem ascending_items (there : orderBys.mapM orderByColumn = some columns) :
    ∀ item ∈ orderBys, item.direction ≠ .desc := by
  intro item member down
  obtain ⟨column, made⟩ : ∃ column, orderByColumn item = some column := by
    induction orderBys generalizing columns with
    | nil => cases member
    | cons first items ih =>
        simp only [List.mapM_cons, Option.bind_eq_bind, Option.bind_eq_some_iff] at there
        obtain ⟨column, made, rest, later, -⟩ := there
        rcases List.mem_cons.mp member with rfl | member
        · exact ⟨column, made⟩
        · exact ih later member
  simp [orderByColumn, down] at made

theorem sort_key_columns (there : orderBys.mapM orderByColumn = some columns) :
    generateSortKey orderBys tuple = columns.mapM fun column => tuple[column]? := by
  unfold generateSortKey
  induction orderBys generalizing columns with
  | nil =>
      obtain rfl := Option.some.inj there
      rfl
  | cons item items ih =>
      simp only [List.mapM_cons, Option.bind_eq_bind, Option.bind_eq_some_iff] at there
      obtain ⟨column, made, rest, later, same⟩ := there
      obtain rfl := Option.some.inj same
      have here : item.expr.evaluate tuple = tuple[column]? := by
        unfold orderByColumn at made
        split at made
        · cases made
        · split at made
          · rename_i expr
            obtain rfl := Option.some.inj made
            rw [expr]
            rfl
          · cases made
      simp only [List.mapM_cons, here, ih later]

theorem number_cells {numbers : List Int}
    (key : generateSortKey orderBys tuple = some (numbers.map number)) :
    Cells ((orderBys.map fun _ => TypeId.integer).map Sortable) (numbers.map number) := by
  unfold generateSortKey at key
  induction orderBys generalizing numbers with
  | nil =>
      obtain rfl : numbers = [] := by simpa [eq_comm] using key
      exact .nil
  | cons item items ih =>
      simp only [List.mapM_cons, Option.bind_eq_bind, Option.bind_eq_some_iff] at key
      obtain ⟨value, -, rest, later, same⟩ := key
      cases numbers with
      | nil => cases same
      | cons first numbers =>
          obtain ⟨rfl, rfl⟩ := List.cons.inj (Option.some.inj same)
          exact .cons (number_sortable first) (ih later)

end Numbers

/-! ### The walk -/

def rowAt (view : TableView) (rid : RID) : Option Row :=
  (view.visible rid).map fun values => ⟨values, rid⟩

section Walks
variable {table : TableInfo} {store : IndexedStore} {map : UnorderedMap Tuple RID}
  {listing : List (Tuple × RID)} {view : TableView} {filterPredicate : Predicate} {id : TxnId}
  {txn : Transaction} {orderBys : List OrderBy} {rid : RID} {entry : Tuple × RID}

theorem scan_row_at
    (accepts : ∀ values, view.visible rid = some values → filterPredicate.accepts values = true) :
    scanRow view.visible filterPredicate rid = (rowAt view rid).map fun row => (row, row.rid) := by
  cases visible : view.visible rid with
  | none => simp [scanRow, rowAt, visible]
  | some values => simp [scanRow, rowAt, visible, accepts values visible]

theorem scan_rows {rids : List RID}
    (accepts : ∀ rid ∈ rids, ∀ values, view.visible rid = some values →
      filterPredicate.accepts values = true) :
    rids.filterMap (scanRow view.visible filterPredicate) =
      (rids.filterMap (rowAt view)).map fun row =>
      (row, row.rid) := by
  rw [List.map_filterMap]
  apply List.filterMap_congr
  exact fun rid member => scan_row_at (accepts rid member)

theorem rows_nodup {rids : List RID} (nodup : rids.Nodup) :
    (rids.filterMap (rowAt view)).Nodup := by
  apply nodup.filterMap
  intro rid other row first second
  obtain ⟨values, -, rfl⟩ := Option.map_eq_some_iff.mp (Option.mem_def.mp first)
  obtain ⟨values', -, same⟩ := Option.map_eq_some_iff.mp (Option.mem_def.mp second)
  exact (congrArg Row.rid same).symm

theorem listing_entry (lists : ListingOf map listing) :
    entry ∈ listing ↔ map.lookup entry.1 = some entry.2 := by
  rw [lists.entries.mem_iff]
  exact mem_map_entries

theorem listing_nodup (lists : ListingOf map listing) (keyed : IndexKeyed table store map) :
    (listing.map Prod.snd).Nodup := by
  have pairs : listing.Nodup := lists.entries.nodup_iff.mpr (map_entries_nodup map)
  apply List.Nodup.map_on _ pairs
  rintro ⟨key, rid⟩ member ⟨other, place⟩ member' same
  obtain rfl : rid = place := same
  rw [keyed.unique key other rid ((listing_entry lists).mp member)
    ((listing_entry lists).mp member')]

theorem table_rids_nodup (mgr : TransactionManager) : (IndexedStore.tableRids table mgr).Nodup := by
  have sublist : (IndexedStore.tableRids table mgr).Sublist mgr.heap.keys :=
    List.filter_sublist.map Sigma.fst
  exact sublist.nodup mgr.heap.keys_nodup

theorem shown_sees (inv : Inv store.history) (live : store.history.Live id txn)
    (shown : Shown table store.history id view) (member : rid ∈ view.rids) :
    view.visible rid = store.history.ledger.sees id txn.readTs rid := by
  obtain ⟨_, _, run, returned⟩ := shown.reads rid member
  exact reads_sees inv live run returned

/-- Each row that is shown stands in the index under its own key. -/
theorem shown_listed (inv : Inv store.history) (keyed : IndexKeyed table store map)
    (live : store.history.Live id txn) (idle : store.entering id = none)
    (shown : Shown table store.history id view) (member : rid ∈ view.rids) {tuple : Tuple}
    (visible : view.visible rid = some tuple) :
    Listed table map rid tuple := by
  rw [shown_sees inv live shown member] at visible
  exact sees_listed keyed live idle (table_rid (shown.rids.mem_iff.mp member)) visible

theorem listed_shown (keyed : IndexKeyed table store map) (lists : ListingOf map listing)
    (shown : Shown table store.history id view) (member : entry ∈ listing) :
    entry.2 ∈ view.rids := by
  obtain ⟨slot, found, sameOid⟩ := keyed.slots entry.1 entry.2 ((listing_entry lists).mp member)
  apply shown.rids.mem_iff.mpr
  exact List.mem_map.mpr ⟨⟨entry.2, slot⟩,
      List.mem_filter.mpr ⟨AList.mem_lookup_iff.mp found, by simpa using sameOid⟩, rfl⟩

theorem walk_perm (inv : Inv store.history) (keyed : IndexKeyed table store map)
    (live : store.history.Live id txn) (idle : store.entering id = none)
    (shown : Shown table store.history id view) (lists : ListingOf map listing) :
    ((listing.map Prod.snd).filterMap (rowAt view)).Perm (view.rids.filterMap (rowAt view)) := by
  have rids : view.rids.Nodup := shown.rids.nodup_iff.mpr (table_rids_nodup _)
  -- no row comes twice, so the same rows are enough
  apply (List.perm_ext_iff_of_nodup (rows_nodup (listing_nodup lists keyed)) (rows_nodup rids)).mpr
  intro row
  rw [List.mem_filterMap, List.mem_filterMap]
  constructor
  · rintro ⟨rid, member, here⟩
    obtain ⟨entry, inside, rfl⟩ := List.mem_map.mp member
    exact ⟨entry.2, listed_shown keyed lists shown inside, here⟩
  · rintro ⟨rid, member, here⟩
    obtain ⟨tuple, visible, -⟩ := Option.map_eq_some_iff.mp here
    have listed := shown_listed inv keyed live idle shown member visible
    have entry : (keyFromTuple table.keyAttrs tuple, rid) ∈ listing :=
      (listing_entry lists).mpr listed.2
    exact ⟨rid, List.mem_map.mpr ⟨_, entry, rfl⟩, here⟩

/-- The key of a row that is shown at an entry is the entry's. -/
theorem entry_key (inv : Inv store.history) (keyed : IndexKeyed table store map)
    (live : store.history.Live id txn) (idle : store.entering id = none)
    (shown : Shown table store.history id view) (lists : ListingOf map listing)
    (member : entry ∈ listing) {row : Row}
    (here : rowAt view entry.2 = some row)
    (columns : orderBys.mapM orderByColumn = some table.keyAttrs) :
    ∃ numbers : List Int, entry.1 = numbers.map number ∧
      generateSortKey orderBys row.values = some (numbers.map number) := by
  obtain ⟨tuple, visible, rfl⟩ := Option.map_eq_some_iff.mp here
  obtain ⟨⟨numbers, there⟩, entered⟩ :=
    shown_listed inv keyed live idle shown (listed_shown keyed lists shown member) visible
  refine ⟨numbers, ?_, (sort_key_columns columns).trans there⟩
  rw [keyed.unique _ _ _ ((listing_entry lists).mp member) entered, key_of_columns there]

theorem walk_in_order (inv : Inv store.history) (keyed : IndexKeyed table store map)
    (live : store.history.Live id txn) (idle : store.entering id = none)
    (shown : Shown table store.history id view) (lists : ListingOf map listing)
    (columns : orderBys.mapM orderByColumn = some table.keyAttrs) :
    ((listing.map Prod.snd).filterMap (rowAt view)).Pairwise fun first second =>
      outOfOrder orderBys first second = false := by
  rw [List.filterMap_map, List.pairwise_filterMap]
  apply lists.ascending.imp_of_mem
  intro first second front back ascending row here row' there
  obtain ⟨left, same, key⟩ := entry_key inv keyed live idle shown lists front here columns
  obtain ⟨right, same', key'⟩ := entry_key inv keyed live idle shown lists back there columns
  rw [same, same'] at ascending
  rw [outOfOrder, key, key']
  exact ascending_in_order (ascending_items columns) ascending

end Walks

/-- The walk and the sort whose place it takes hand out the same rows, those of the walk in the
order of the list. -/
def WalkSorts (orderBys : List OrderBy) (filterPredicate : Predicate) (index : TableIndex)
    (view : TableView) (std : StdSort Row) : Prop :=
  ∃ bound, ∀ fuel, bound ≤ fuel → ∃ (scan : Executor) (out sorted : List Row),
    orderedScan fuel index view = some scan ∧ Outputs scan (out.map fun row => (row, row.rid)) ∧
    Outputs
      (sortExecutor fuel std.sort (TupleComparator.less orderBys)
      (seqScanExecutor view filterPredicate))
      (sorted.map fun row => (row, row.rid)) ∧
    out.Perm sorted ∧ out.IsChain fun first second => outOfOrder orderBys first second = false

theorem walk_outputs {rounds : Nat} {index : TableIndex} {list : List (IndexKey × RID)}
    (walked : index.entries rounds = some list) (view : TableView) :
    ∃ scan, orderedScan rounds index view = some scan ∧
      Outputs scan (((list.map Prod.snd).filterMap (rowAt view)).map fun row =>
        (row, row.rid)) := by
  refine ⟨_,
    by rw [orderedScan, walked,
    Option.map_some], ({ iterator := some (list.map Prod.snd) } : IndexScanState), rfl, ?_⟩
  rw [← @scan_rows view none _ fun _ _ _ _ => rfl]
  exact index_walk_delivers rfl rfl

/-- In every run that keeps the keys, for whatever a running transaction is shown. -/
theorem ordered_walk_sorts (catalog : TableOid → Schema) (table : TableInfo) (store : IndexedStore)
    (reached : KeysKept catalog table store) (container : BPlusTree.Tree IndexKey RID)
    (created : store.index = some (.bPlusTree container)) (orderBys : List OrderBy)
    (indexes : List IndexInfo) (info : IndexInfo)
    (rewritten : asIndexScan orderBys indexes = some info)
    (ofTable : info.keyAttrs = table.keyAttrs) (id : TxnId) (txn : Transaction)
    (found : store.history.mgr.txnMap.lookup id = some txn) (running : txn.state = .running)
    (idle : store.entering id = none) (view : TableView) (shown : Shown table store.history id view)
    (filterPredicate : Predicate)
    (accepts : ∀ rid ∈ view.rids, ∀ values, view.visible rid = some values →
      filterPredicate.accepts values = true) (std : StdSort Row) :
    WalkSorts orderBys filterPredicate (.bPlusTree container) view std := by
  have inv := keys_kept_inv reached
  have live : store.history.Live id txn := ⟨found, by simp [Transaction.live, running]⟩
  obtain ⟨columns, made, chosen⟩ := Option.bind_eq_some_iff.mp rewritten
  have same : info.keyAttrs = columns := by simpa using List.find?_some chosen
  rw [← same, ofTable] at made
  obtain ⟨map, represents, entered⟩ := inv.keyed _ created
  obtain ⟨list, walked, lists⟩ := TableIndex.walk_lists represents fun key rid found => by
    obtain ⟨numbers, rfl, length⟩ := entered.whole key rid found
    rw [List.length_map, length]
  have rids : (list.map TableIndex.tupleEntry).map Prod.snd = list.map Prod.snd := by
    rw [List.map_map]
    rfl
  have brings : ∃ started, (seqScanExecutor view filterPredicate).init
    (seqScanExecutor view filterPredicate).fresh =
    some started ∧ (seqScanExecutor view filterPredicate).Delivers false started
      ((view.rids.filterMap (rowAt view)).map fun row => (row, row.rid)) := by
    refine ⟨some view.rids, rfl, fun sizes positives => meets_loose ?_⟩
    rw [← scan_rows accepts]
    exact seq_scan_delivers view filterPredicate sizes positives
  have perm := walk_perm inv.inv entered live idle shown lists
  have inOrder := walk_in_order inv.inv entered live idle shown lists made
  rw [rids] at perm inOrder
  -- the sort is one by comparable keys, for they are those of the index
  have keyed : Keyed orderBys (view.rids.filterMap (rowAt view)) := by
    refine ⟨orderBys.map fun _ => .integer, by simp, fun row member => ?_⟩
    obtain ⟨rid, inside, here⟩ := List.mem_filterMap.mp (perm.mem_iff.mpr member)
    rw [← rids] at inside
    obtain ⟨entry, listed, rfl⟩ := List.mem_map.mp inside
    obtain ⟨numbers, -, key⟩ := entry_key inv.inv entered live idle shown lists listed here made
    exact ⟨_, key, number_cells key⟩
  obtain ⟨sortedPerm, -⟩ := sorted_code keyed std
  have sameRows : ((view.rids.filterMap (rowAt view)).map fun row => (row, row.rid)).map Prod.fst =
      view.rids.filterMap (rowAt view) := by simp [Function.comp_def]
  refine ⟨max list.length (view.rids.length + 1), fun fuel enough => ?_⟩
  obtain ⟨scan, chosen, walks⟩ := walk_outputs (walked fuel (by omega)) view
  have short : ((view.rids.filterMap (rowAt view)).map fun row => (row, row.rid)).length <
      fuel := by
    rw [List.length_map]
    have := List.length_filterMap_le (rowAt view) view.rids
    omega
  obtain ⟨sorts, -⟩ := sort_outputs orderBys std sameRows brings short
  exact ⟨scan, _, _, chosen, walks, sorts, perm.trans sortedPerm.symm, inOrder.isChain⟩

/-! ### Two runs -/

theorem reads_at_once {history after : History} {id : TxnId} {rid : RID} {visible : Option Tuple}
    (stepped : history.step (.read id rid) = some after)
    (returned : after.mgr.control id = .returned rid visible) :
    Reads history id rid visible :=
  ⟨0, after, .next stepped (.refl after), returned⟩

def indexedFrom (ops : List IndexedOp) : Option IndexedStore :=
  ops.foldlM (IndexedStore.step keyTable) (IndexedStore.start oneColumn)

def plainStep (store : IndexedStore) : IndexedOp → Bool
  | .txn (.insert ..) | .txn (.modify ..) => false
  | .txn _ => true
  | .createIndex _ rids => rids.isEmpty
  | .place _ _ tuple =>
      (keyNumbers tuple).any fun numbers => tuple = numbers.map number ∧ numbers ≠ []
  | .enter _ => store.index.all TableIndex.single

def plainRun (ops : List IndexedOp) : Option IndexedStore :=
  ops.foldlM (fun store label => if plainStep store label then store.step keyTable label else none)
    (IndexedStore.start oneColumn)

theorem plain_step_keeps {store after : IndexedStore} {label : IndexedOp}
    (plain : plainStep store label = true)
    (stepped : store.step keyTable label = some after) : KeepsKeys keyTable store label := by
  cases label with
  | txn op =>
      rintro index - id rid tuple (⟨oid, rfl⟩ | ⟨requireDeleted, next, rfl, -⟩)
      · cases plain
      · cases plain
  | createIndex indexType rids =>
      obtain rfl : rids = [] := by simpa [plainStep] using plain
      simp only [IndexedStore.step, Option.ite_none_right_eq_some, Bool.and_eq_true,
        List.isPerm_iff] at stepped
      have empty : ∀ rid slot, store.history.mgr.heap.lookup rid = some slot →
          slot.oid ≠ keyTable.oid := by
        intro rid slot found sameOid
        have inside : (⟨rid, slot⟩ : Sigma fun _ : RID => Slot) ∈
          store.history.mgr.heap.entries.filter fun entry => entry.2.oid = keyTable.oid :=
          List.mem_filter.mpr ⟨AList.mem_lookup_iff.mp found, by simpa using sameOid⟩
        exact absurd (stepped.1.2.mem_iff.mpr (List.mem_map_of_mem inside)) List.not_mem_nil
      refine ⟨fun rid slot found sameOid => absurd sameOid (empty rid slot found), fun fresh made =>
        ⟨trivial, ?_⟩⟩
      rintro index - rid tuple ⟨slot, found, sameOid⟩ -
      exact absurd sameOid (empty rid slot found)
  | place id rid tuple =>
      intro created
      obtain ⟨numbers, -, same⟩ := (Option.any_eq_true _ _).mp plain
      obtain ⟨rfl, some⟩ := of_decide_eq_true same
      cases numbers with
      | nil => exact absurd rfl some
      | cons first numbers => exact ⟨[first], rfl⟩
  | enter id =>
      intro rid tuple index entry created
      rw [plainStep, created] at plain
      exact TableIndex.single_room plain _

theorem plain_run_kept {ops : List IndexedOp} {after : IndexedStore}
    (ran : plainRun ops = some after) :
    KeysKept oneColumn keyTable after := by
  unfold plainRun at ran
  induction ops using List.reverseRecOn generalizing after with
  | nil =>
      obtain rfl := Option.some.inj ran
      exact TransitionSystem.reachable_start rfl
  | append_singleton ops label ih =>
      simp only [List.foldlM_append, List.foldlM_cons, List.foldlM_nil, Option.bind_eq_bind,
        Option.bind_eq_some_iff]
        at ran
      obtain ⟨before, earlier, now, stepped, same⟩ := ran
      obtain rfl := Option.some.inj same
      obtain ⟨plain, stepped⟩ := Option.ite_none_right_eq_some.mp stepped
      exact TransitionSystem.reachable_step (ih earlier) ⟨plain_step_keeps plain stepped, stepped⟩

def twoRows : List IndexedOp :=
  [.txn (.begin .snapshotIsolation), .createIndex .bPlusTree [],
    .place TXN_START_ID firstSlot [number 1], .enter TXN_START_ID,
    .place TXN_START_ID secondSlot [number 2], .enter TXN_START_ID]

theorem two_rows_returns : (plainRun twoRows).isSome = true := by decide

def twoRowStore : IndexedStore := (plainRun twoRows).get two_rows_returns

theorem two_rows_kept : KeysKept oneColumn keyTable twoRowStore :=
  plain_run_kept (Option.some_get two_rows_returns).symm

def twoEntries : List (IndexKey × RID) := [([1], firstSlot), ([2], secondSlot)]

def twoSlots (first second : Tuple) : TableView where
  rids := [firstSlot, secondSlot]
  visible rid := if rid = firstSlot then some first else if rid = secondSlot then some second
    else none

def columnInfo : IndexInfo := ⟨0, .bPlusTree, [0]⟩

def nullsBehind : List OrderBy := [⟨.asc, .nullsLast, .columnValue .left 0 .integer⟩]

theorem two_rows_shown :
    Shown keyTable twoRowStore.history TXN_START_ID (twoSlots [number 1] [number 2]) where
  rids := by decide
  reads := by
    intro rid member
    simp only [twoSlots, List.mem_cons, List.not_mem_nil, or_false] at member
    rcases member with rfl | rfl
    · exact reads_at_once rfl rfl
    · exact reads_at_once rfl rfl

theorem two_entries_walked : ∃ container, twoRowStore.index = some (.bPlusTree container) ∧
    (TableIndex.bPlusTree container).entries 2 = some twoEntries := ⟨_, rfl, by decide⟩

theorem two_rows_walked : ∃ container, twoRowStore.index = some (.bPlusTree container) ∧
    WalkSorts nullsBehind none (.bPlusTree container) (twoSlots [number 1] [number 2])
      (mergeSorting Row) := by
  obtain ⟨container, created, -⟩ := two_entries_walked
  exact ⟨container, created,
    ordered_walk_sorts oneColumn keyTable twoRowStore two_rows_kept container created
      nullsBehind [columnInfo] columnInfo rfl rfl TXN_START_ID _ rfl rfl rfl
      (twoSlots [number 1] [number 2]) two_rows_shown none (fun _ _ _ _ => rfl) (mergeSorting Row)⟩

def movedKey : List IndexedOp :=
  twoRows ++ [.txn (.modify TXN_START_ID firstSlot (some [number 3]) false)]

theorem moved_key_returns : (indexedFrom movedKey).isSome = true := by decide

def movedKeyStore : IndexedStore := (indexedFrom movedKey).get moved_key_returns

theorem moved_key_shown :
    Shown keyTable movedKeyStore.history TXN_START_ID (twoSlots [number 3] [number 2]) where
  rids := by decide
  reads := by
    intro rid member
    simp only [twoSlots, List.mem_cons, List.not_mem_nil, or_false] at member
    rcases member with rfl | rfl
    · exact reads_at_once rfl rfl
    · exact reads_at_once rfl rfl

theorem moved_key_listed : ∃ container, movedKeyStore.index = some (.bPlusTree container) ∧
    (TableIndex.bPlusTree container).entries 2 = some twoEntries := ⟨_, rfl, by decide⟩

/-- The row with 3 comes first, where the entry for 1 stands. -/
theorem moved_key_walked_early :
    ¬∀ (catalog : TableOid → Schema) (table : TableInfo) (store : IndexedStore),
      TransitionSystem.Reachable (· = IndexedStore.start catalog)
        (graph (IndexedStore.step table)) store →
          ∀ container, store.index = some (.bPlusTree container) → ∀ orderBys indexes info,
      asIndexScan orderBys indexes = some info → info.keyAttrs = table.keyAttrs → ∀ id txn,
      store.history.mgr.txnMap.lookup id = some txn → txn.state = .running →
        store.entering id = none → ∀ view, Shown table store.history id view → ∀ filterPredicate,
      (∀ rid ∈ view.rids, ∀ values, view.visible rid = some values →
        filterPredicate.accepts values = true) →
        ∀ std, WalkSorts orderBys filterPredicate (.bPlusTree container) view std := by
  intro claim
  have reached : TransitionSystem.Reachable (· = IndexedStore.start oneColumn)
      (graph (IndexedStore.step keyTable))
      movedKeyStore :=
        ⟨_, movedKey, rfl, TransitionSystem.run_of_fold (Option.some_get moved_key_returns).symm⟩
  obtain ⟨container, created, walked⟩ := moved_key_listed
  obtain ⟨bound, sorts⟩ :=
    claim oneColumn keyTable movedKeyStore reached container created nullsBehind [columnInfo]
      columnInfo rfl rfl TXN_START_ID _ rfl rfl rfl (twoSlots [number 3] [number 2])
        moved_key_shown none
      (fun _ _ _ _ => rfl) (mergeSorting Row)
  obtain ⟨scan, out, sorted, chosen, walks, -, -, chain⟩ := sorts (max bound 2) (le_max_left _ _)
  obtain ⟨scan', chosen', walks'⟩ :=
    walk_outputs (TableIndex.entries_more (le_max_right bound 2) walked)
      (twoSlots [number 3] [number 2])
  obtain rfl := Option.some.inj (chosen.symm.trans chosen')
  have rows : out = (twoEntries.map Prod.snd).filterMap (rowAt (twoSlots [number 3] [number 2])) :=
    List.map_injective_iff.mpr (fun _ _ equal => congrArg Prod.fst equal)
      (outputs_unique walks walks')
  rw [rows] at chain
  exact absurd (List.isChain_cons_cons.mp chain).1 (by decide)

end BusTub
