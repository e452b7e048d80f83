import BusTub.DiskManager
import BusTub.TransitionSystem
import Mathlib.Data.List.Forall2
import Mathlib.Data.List.Perm.Basic

/-!
The catalog of `include/catalog/catalog.h`: four hash maps from names and identifiers to
tables and indexes. What the catalog stands for is two lists, the tables and the indexes in
the order in which they were created; an identifier is a place in its list.
-/

namespace BusTub.Catalog

abbrev Name := List Char

abbrev TableOid := Nat

abbrev IndexOid := Nat

def OIDS : Nat := 4294967296

inductive IndexType where
  | bPlusTreeIndex
  | hashTableIndex
  | stlOrderedIndex
  | stlUnorderedIndex

structure TableInfo (Schema Heap : Type) where
  schema : Schema
  name : Name
  table : Heap
  oid : TableOid

structure IndexInfo (Schema Index : Type) where
  keySchema : Schema
  name : Name
  index : Index
  indexOid : IndexOid
  tableName : Name
  keySize : Nat
  isPrimaryKey : Bool
  indexType : IndexType

/-- A `BUSTUB_ASSERT` that fails with "Broken Invariant", or a table that is not there where it is
read. -/
inductive Fault where
  | brokenInvariant
  | nullTable

end Catalog

structure Catalog (Schema Heap Index : Type) where
  tables : UnorderedMap Catalog.TableOid (Catalog.TableInfo Schema Heap) := ∅
  tableNames : UnorderedMap Catalog.Name Catalog.TableOid := ∅
  nextTableOid : Nat := 0
  indexes : UnorderedMap Catalog.IndexOid (Catalog.IndexInfo Schema Index) := ∅
  indexNames : UnorderedMap Catalog.Name (UnorderedMap Catalog.Name Catalog.IndexOid) := ∅
  nextIndexOid : Nat := 0

namespace Catalog

open TransitionSystem (Run guarded)

def emplace {Key Value : Type} [DecidableEq Key] (map : UnorderedMap Key Value) (key : Key)
    (value : Value) :
    UnorderedMap Key Value :=
  if (map.lookup key).isSome then map else map.insert key value

variable {Schema Heap Index : Type}

def trackTable (catalog : Catalog Schema Heap Index) (info : TableInfo Schema Heap) :
    Catalog Schema Heap Index :=
  { catalog with
    nextTableOid := (catalog.nextTableOid + 1) % OIDS
    tables := emplace catalog.tables info.oid info
    tableNames := emplace catalog.tableNames info.name info.oid
    indexNames := emplace catalog.indexNames info.name ∅ }

def createTable (catalog : Catalog Schema Heap Index) (tableName : Name) (schema : Schema)
    (table : Heap) :
    Option (TableInfo Schema Heap) × Catalog Schema Heap Index :=
  if (catalog.tableNames.lookup tableName).isSome then (none, catalog)
  else
    let info : TableInfo Schema Heap := ⟨schema, tableName, table, catalog.nextTableOid⟩
    (some info, catalog.trackTable info)

def getTable (catalog : Catalog Schema Heap Index) (tableName : Name) :
    Except Fault (Option (TableInfo Schema Heap)) :=
  match catalog.tableNames.lookup tableName with
  | none => .ok none
  | some tableOid =>
      match catalog.tables.lookup tableOid with
      | none => .error .brokenInvariant
      | some info => .ok (some info)

def getTableByOid (catalog : Catalog Schema Heap Index) (tableOid : TableOid) :
    Option (TableInfo Schema Heap) :=
  catalog.tables.lookup tableOid

def trackIndex (catalog : Catalog Schema Heap Index) (tableIndexes : UnorderedMap Name IndexOid)
    (info : IndexInfo Schema Index) : Catalog Schema Heap Index :=
  { catalog with
    nextIndexOid := (catalog.nextIndexOid + 1) % OIDS
    indexes := emplace catalog.indexes info.indexOid info
    indexNames :=
      catalog.indexNames.insert info.tableName (emplace tableIndexes info.name info.indexOid) }

def createIndex (catalog : Catalog Schema Heap Index) (indexName tableName : Name)
    (keySchema : Schema) (keySize : Nat) (isPrimaryKey : Bool) (indexType : IndexType)
    (build : TableInfo Schema Heap → Index) :
    Except Fault (Option (IndexInfo Schema Index) × Catalog Schema Heap Index) :=
  if (catalog.tableNames.lookup tableName).isNone then .ok (none, catalog)
  else
    match catalog.indexNames.lookup tableName with
    | none => .error .brokenInvariant
    | some tableIndexes =>
        if (tableIndexes.lookup indexName).isSome then .ok (none, catalog)
        else do
          let tableMeta ← catalog.getTable tableName
          match tableMeta with
          | none => .error .nullTable
          | some table =>
              let info : IndexInfo Schema Index :=
                ⟨keySchema, indexName, build table, catalog.nextIndexOid, tableName, keySize,
                  isPrimaryKey, indexType⟩
              .ok (some info, catalog.trackIndex tableIndexes info)

def getIndex (catalog : Catalog Schema Heap Index) (indexName tableName : Name) :
    Except Fault (Option (IndexInfo Schema Index)) :=
  match catalog.indexNames.lookup tableName with
  | none =>
      if (catalog.tableNames.lookup tableName).isNone then .ok none else .error .brokenInvariant
  | some tableIndexes =>
      match tableIndexes.lookup indexName with
      | none => .ok none
      | some indexOid =>
          match catalog.indexes.lookup indexOid with
          | none => .error .brokenInvariant
          | some index => .ok (some index)

def getIndexOfTable (catalog : Catalog Schema Heap Index) (indexName : Name) (tableOid : TableOid) :
    Except Fault (Option (IndexInfo Schema Index)) :=
  match catalog.tables.lookup tableOid with
  | none => .ok none
  | some tableMeta => catalog.getIndex indexName tableMeta.name

def getIndexByOid (catalog : Catalog Schema Heap Index) (indexOid : IndexOid) :
    Option (IndexInfo Schema Index) :=
  catalog.indexes.lookup indexOid

def getTableIndexes (catalog : Catalog Schema Heap Index) (tableName : Name) :
    Except Fault (List (IndexInfo Schema Index)) :=
  if (catalog.tableNames.lookup tableName).isNone then .ok []
  else
    match catalog.indexNames.lookup tableName with
    | none => .error .brokenInvariant
    | some tableIndexes =>
        tableIndexes.entries.mapM fun indexMeta =>
          match catalog.indexes.lookup indexMeta.2 with
          | none => .error .brokenInvariant
          | some index => .ok index

def getTableNames (catalog : Catalog Schema Heap Index) : List Name := catalog.tableNames.keys

/-! ### Calls -/

inductive Call (Schema Heap Index : Type) where
  | createTable (tableName : Name) (schema : Schema) (table : Heap)
  | createIndex (indexName tableName : Name) (keySchema : Schema) (keySize : Nat)
      (isPrimaryKey : Bool)
    (indexType : IndexType) (build : TableInfo Schema Heap → Index)
  | getTable (tableName : Name)
  | getTableByOid (tableOid : TableOid)
  | getIndex (indexName tableName : Name)
  | getIndexOfTable (indexName : Name) (tableOid : TableOid)
  | getIndexByOid (indexOid : IndexOid)
  | getTableIndexes (tableName : Name)
  | getTableNames

inductive Answer (Schema Heap Index : Type) where
  | table (info : Option (TableInfo Schema Heap))
  | index (info : Option (IndexInfo Schema Index))
  | indexes (list : List (IndexInfo Schema Index))
  | names (list : List Name)

def call (catalog : Catalog Schema Heap Index) :
    Call Schema Heap Index → Except Fault (Answer Schema Heap Index × Catalog Schema Heap Index)
  | .createTable tableName schema table =>
      let (info, after) := catalog.createTable tableName schema table
      .ok (.table info, after)
  | .createIndex indexName tableName keySchema keySize isPrimaryKey indexType build => do
      let (info, after) ← catalog.createIndex indexName tableName keySchema keySize isPrimaryKey
        indexType build
      .ok (.index info, after)
  | .getTable tableName => do
      let info ← catalog.getTable tableName
      .ok (.table info, catalog)
  | .getTableByOid tableOid => .ok (.table (catalog.getTableByOid tableOid), catalog)
  | .getIndex indexName tableName => do
      let info ← catalog.getIndex indexName tableName
      .ok (.index info, catalog)
  | .getIndexOfTable indexName tableOid => do
      let info ← catalog.getIndexOfTable indexName tableOid
      .ok (.index info, catalog)
  | .getIndexByOid indexOid => .ok (.index (catalog.getIndexByOid indexOid), catalog)
  | .getTableIndexes tableName => do
      let list ← catalog.getTableIndexes tableName
      .ok (.indexes list, catalog)
  | .getTableNames => .ok (.names catalog.getTableNames, catalog)

def Serves (catalog : Catalog Schema Heap Index)
    (label : Call Schema Heap Index × Answer Schema Heap Index)
    (after : Catalog Schema Heap Index) : Prop := catalog.call label.1 = .ok (label.2, after)

def HasOids (catalog : Catalog Schema Heap Index)
    (label : Call Schema Heap Index × Answer Schema Heap Index) : Prop :=
  match label.1 with
  | .createTable _ _ _ => catalog.tables.entries.length < OIDS
  | .createIndex _ _ _ _ _ _ _ => catalog.indexes.entries.length < OIDS
  | _ => True

section Maps
variable {Key Value : Type} [DecidableEq Key] {map : UnorderedMap Key Value} {key other : Key}
  {value : Value}

theorem lookup_emplace : (emplace map key value).lookup other =
    if other = key then some ((map.lookup key).getD value) else map.lookup other := by
  unfold emplace
  cases there : map.lookup key with
  | none =>
      by_cases same : other = key
      · subst same
        simp
      · simp [AList.lookup_insert_ne same, same]
  | some old =>
      by_cases same : other = key
      · subst same
        simp [there]
      · simp [same]

theorem emplace_fresh (fresh : map.lookup key = none) :
    (emplace map key value).lookup other = if other = key then some value
      else map.lookup other := by
  rw [lookup_emplace, fresh, Option.getD_none]

theorem emplace_keeps (there : (map.lookup other).isSome) :
    ((emplace map key value).lookup other).isSome := by
  rw [lookup_emplace]
  split
  · rfl
  · exact there

theorem emplace_there : ((emplace map key value).lookup key).isSome := by simp [lookup_emplace]

theorem places_length {map : UnorderedMap Nat Value} {list : List Value}
    (places : ∀ place, map.lookup place = list[place]?) : map.entries.length = list.length := by
  have keys : map.keys.Perm (List.range list.length) := by
    apply (List.perm_ext_iff_of_nodup map.keys_nodup List.nodup_range).mpr
    intro place
    rw [← AList.mem_keys, ← AList.lookup_isSome, places, List.mem_range]
    simp
  have length := keys.length_eq
  simpa [AList.keys, List.keys] using length

end Maps

section Runs
variable {catalog after : Catalog Schema Heap Index}

structure Standing (catalog : Catalog Schema Heap Index) : Prop where
  tables : ∀ name oid, catalog.tableNames.lookup name = some oid →
    (catalog.tables.lookup oid).isSome
  listed : ∀ name, (catalog.tableNames.lookup name).isSome ↔ (catalog.indexNames.lookup name).isSome
  indexes : ∀ name tableIndexes, catalog.indexNames.lookup name = some tableIndexes →
    ∀ indexName oid, tableIndexes.lookup indexName = some oid → (catalog.indexes.lookup oid).isSome

theorem track_table_standing (standing : Standing catalog) {info : TableInfo Schema Heap}
    (fresh : catalog.tableNames.lookup info.name = none) : Standing (catalog.trackTable info) := by
  have newList : catalog.indexNames.lookup info.name = none := by
    simpa [fresh] using (standing.listed info.name).not
  constructor
  · intro name oid found
    rw [trackTable, emplace_fresh fresh] at found
    split at found
    · obtain rfl := Option.some.inj found
      exact emplace_there
    · exact emplace_keeps (standing.tables name oid found)
  · intro name
    simp only [trackTable, emplace_fresh fresh, emplace_fresh newList]
    split
    · simp
    · exact standing.listed name
  · intro name tableIndexes found
    rw [trackTable, emplace_fresh newList] at found
    split at found
    · obtain rfl := Option.some.inj found
      simp
    · exact standing.indexes name tableIndexes found

theorem track_index_standing (standing : Standing catalog) {info : IndexInfo Schema Index}
    {tableIndexes : UnorderedMap Name IndexOid}
    (here : catalog.indexNames.lookup info.tableName = some tableIndexes) :
    Standing (catalog.trackIndex tableIndexes info) := by
  constructor
  · exact standing.tables
  · intro name
    rw [show (catalog.trackIndex tableIndexes info).tableNames = catalog.tableNames from rfl,
      standing.listed]
    by_cases same : name = info.tableName
    · subst same
      simp [trackIndex, here]
    · simp [trackIndex, AList.lookup_insert_ne same]
  · intro name indexes found indexName oid listed
    by_cases same : name = info.tableName
    · subst same
      rw [trackIndex, AList.lookup_insert] at found
      obtain rfl := Option.some.inj found
      rw [lookup_emplace] at listed
      split at listed
      · cases old : tableIndexes.lookup info.name with
        | none =>
            rw [old] at listed
            obtain rfl := Option.some.inj listed
            exact emplace_there
        | some before =>
            rw [old] at listed
            obtain rfl := Option.some.inj listed
            exact emplace_keeps (standing.indexes _ _ here _ _ old)
      · exact emplace_keeps (standing.indexes _ _ here _ _ listed)
    · rw [trackIndex, AList.lookup_insert_ne same] at found
      exact emplace_keeps (standing.indexes name indexes found indexName oid listed)

theorem get_table_standing (standing : Standing catalog) (tableName : Name) :
    catalog.getTable tableName =
      .ok ((catalog.tableNames.lookup tableName).bind catalog.tables.lookup) := by
  unfold getTable
  cases named : catalog.tableNames.lookup tableName with
  | none => rfl
  | some oid =>
      obtain ⟨info, there⟩ := Option.isSome_iff_exists.mp (standing.tables tableName oid named)
      simp [there]

inductive IndexCreation (catalog : Catalog Schema Heap Index) (indexName tableName : Name)
    (keySchema : Schema) (keySize : Nat) (isPrimaryKey : Bool) (indexType : IndexType)
    (build : TableInfo Schema Heap → Index) :
    Option (IndexInfo Schema Index) × Catalog Schema Heap Index → Prop where
  | noTable : catalog.tableNames.lookup tableName = none →
      IndexCreation catalog indexName tableName keySchema keySize isPrimaryKey indexType build
        (none, catalog)
  | there {tableIndexes : UnorderedMap Name IndexOid} :
      (catalog.tableNames.lookup tableName).isSome → catalog.indexNames.lookup tableName =
        some tableIndexes → (tableIndexes.lookup indexName).isSome →
          IndexCreation catalog indexName tableName keySchema keySize isPrimaryKey indexType build
            (none, catalog)
  | made {tableIndexes : UnorderedMap Name IndexOid} {oid : TableOid}
      {table : TableInfo Schema Heap}
    {info : IndexInfo Schema Index} : catalog.tableNames.lookup tableName = some oid →
      catalog.tables.lookup oid = some table → catalog.indexNames.lookup tableName =
        some tableIndexes → tableIndexes.lookup indexName = none →
          info = ⟨keySchema, indexName, build table, catalog.nextIndexOid, tableName,
            keySize, isPrimaryKey, indexType⟩ →
            IndexCreation catalog indexName tableName keySchema keySize isPrimaryKey indexType build
              (some info, catalog.trackIndex tableIndexes info)

theorem create_index_cases (standing : Standing catalog) (indexName tableName : Name)
    (keySchema : Schema) (keySize : Nat) (isPrimaryKey : Bool) (indexType : IndexType)
    (build : TableInfo Schema Heap → Index) :
    ∃ result, catalog.createIndex indexName tableName keySchema keySize isPrimaryKey indexType
      build = .ok result ∧
        IndexCreation catalog indexName tableName keySchema keySize isPrimaryKey indexType
        build result := by
  cases named : catalog.tableNames.lookup tableName with
  | none => exact ⟨_, by simp [createIndex, named], .noTable named⟩
  | some oid =>
      have listed := (standing.listed tableName).mp (by simp [named])
      obtain ⟨tableIndexes, here⟩ := Option.isSome_iff_exists.mp listed
      obtain ⟨table, found⟩ := Option.isSome_iff_exists.mp (standing.tables tableName oid named)
      cases old : tableIndexes.lookup indexName with
      | some before =>
          exact ⟨_,
            by simp [createIndex, named, here, old], .there (by simp [named]) here (by simp [old])⟩
      | none =>
          refine ⟨_, ?_, .made named found here old rfl⟩
          simp [createIndex, named, here, old, get_table_standing standing, found,
            bind, Except.bind]

theorem map_m_ok {Entry Value : Type} {lookup : Entry → Except Fault Value} {entries : List Entry}
    (each : ∀ entry ∈ entries, ∃ value, lookup entry = .ok value) :
    ∃ values, entries.mapM lookup = .ok values ∧ values.map .ok = entries.map lookup := by
  induction entries with
  | nil => exact ⟨[], rfl, rfl⟩
  | cons entry entries ih =>
      obtain ⟨value, found⟩ := each entry List.mem_cons_self
      obtain ⟨values, later, all⟩ :=
        ih fun entry member => each entry (List.mem_cons_of_mem _ member)
      exact ⟨value :: values, by simp only [List.mapM_cons, found, later]; rfl,
        by rw [List.map_cons, List.map_cons, all, found]⟩

theorem get_index_standing (standing : Standing catalog) (indexName tableName : Name) :
    catalog.getIndex indexName tableName =
      .ok ((catalog.indexNames.lookup tableName).bind fun tableIndexes =>
      (tableIndexes.lookup indexName).bind catalog.indexes.lookup) := by
  unfold getIndex
  cases listed : catalog.indexNames.lookup tableName with
  | none =>
      have unnamed : (catalog.tableNames.lookup tableName).isNone = true := by
        simpa [listed] using (standing.listed tableName).not
      simp [unnamed]
  | some tableIndexes =>
      cases old : tableIndexes.lookup indexName with
      | none => simp [old]
      | some oid =>
          obtain ⟨info, there⟩ := Option.isSome_iff_exists.mp (standing.indexes _ _ listed _ _ old)
          simp [old, there]

theorem get_table_indexes_standing (standing : Standing catalog) (tableName : Name) :
    ∃ list, catalog.getTableIndexes tableName = .ok list ∧
      (catalog.indexNames.lookup tableName = none → list = []) ∧
      ∀ tableIndexes, catalog.indexNames.lookup tableName = some tableIndexes →
        list.map some = tableIndexes.entries.map fun entry => catalog.indexes.lookup entry.2 := by
  unfold getTableIndexes
  cases listed : catalog.indexNames.lookup tableName with
  | none =>
      have unnamed : (catalog.tableNames.lookup tableName).isNone = true := by
        simpa [listed] using (standing.listed tableName).not
      exact ⟨[], by simp [unnamed], fun _ => rfl, fun _ same => absurd same (by simp)⟩
  | some tableIndexes =>
      have named := (standing.listed tableName).mpr (by simp [listed])
      have known : (catalog.tableNames.lookup tableName).isNone = false := by
        simpa [Option.isNone_iff_eq_none, ← Option.isSome_iff_ne_none] using named
      obtain ⟨list, done, each⟩ := @map_m_ok _ (IndexInfo Schema Index)
        (fun indexMeta : Sigma fun _ : Name => IndexOid =>
          match catalog.indexes.lookup indexMeta.2 with
          | none => .error .brokenInvariant
          | some index => .ok index) tableIndexes.entries (by
            intro entry member
            obtain ⟨info, there⟩ := Option.isSome_iff_exists.mp
              (standing.indexes _ _ listed _ _ (AList.mem_lookup_iff.mpr member))
            exact ⟨info, by simp [there]⟩)
      refine ⟨list,
        by simp [known, done], fun missing => absurd missing (by simp), fun other same => ?_⟩
      obtain rfl := Option.some.inj same
      have pairs := congrArg (List.map Except.toOption) each
      rw [List.map_map, List.map_map] at pairs
      refine pairs.trans (List.map_congr_left fun entry member => ?_)
      cases there : catalog.indexes.lookup entry.2 with
      | none => simp [there, Except.toOption]
      | some info => simp [there, Except.toOption]

theorem call_standing (standing : Standing catalog) (asked : Call Schema Heap Index) :
    ∃ answer after, catalog.call asked = .ok (answer, after) ∧ Standing after := by
  cases asked with
  | createTable tableName schema table =>
      refine ⟨.table (catalog.createTable tableName schema table).1,
          (catalog.createTable tableName schema table).2, rfl, ?_⟩
      unfold createTable
      split
      case isTrue => exact standing
      case isFalse fresh => exact track_table_standing standing (by simpa using fresh)
  | createIndex indexName tableName keySchema keySize isPrimaryKey indexType build =>
      obtain ⟨⟨info, after⟩, done, creation⟩ :=
        create_index_cases standing indexName tableName keySchema keySize isPrimaryKey
          indexType build
      refine ⟨.index info, after, by simp [call, done, bind, Except.bind], ?_⟩
      cases creation with
      | noTable | there => exact standing
      | made named found here old isInfo =>
          exact track_index_standing standing (by rw [isInfo]; exact here)
  | getTable tableName =>
      exact ⟨_, _, by simp [call, get_table_standing standing, bind, Except.bind]; rfl, standing⟩
  | getIndex indexName tableName =>
      exact ⟨_, _, by simp [call, get_index_standing standing, bind, Except.bind]; rfl, standing⟩
  | getIndexOfTable indexName tableOid =>
      cases found : catalog.tables.lookup tableOid with
      | none =>
          exact ⟨_, _, by simp [call, getIndexOfTable, found, bind, Except.bind]; rfl, standing⟩
      | some table =>
          exact ⟨_, _, by
            simp [call, getIndexOfTable, found, get_index_standing standing, bind, Except.bind];
              rfl, standing⟩
  | getTableIndexes tableName =>
      obtain ⟨list, done, -⟩ := get_table_indexes_standing standing tableName
      exact ⟨.indexes list, catalog, by simp [call, done, bind, Except.bind], standing⟩
  | getTableByOid | getIndexByOid | getTableNames => exact ⟨_, _, rfl, standing⟩

theorem new_standing : Standing ({} : Catalog Schema Heap Index) := by
  constructor
  · intro name oid found
    simp at found
  · intro name
    simp
  · intro name tableIndexes found
    simp at found

/-- In every run, however many tables and indexes it creates and whether or not their identifiers
have wrapped around, each call returns: no "Broken Invariant" is ever found. -/
theorem invariant_never_broken {labels : List (Call Schema Heap Index × Answer Schema Heap Index)}
    (run : Run Serves {} labels catalog) (asked : Call Schema Heap Index) :
    ∃ answer after, catalog.call asked = .ok (answer, after) := by
  have standing : Standing catalog := by
    apply TransitionSystem.run_preserves
      (fun before label after standing step => ?_) run new_standing
    obtain ⟨answer, next, done, stays⟩ := call_standing standing label.1
    obtain ⟨-, rfl⟩ := Prod.mk.inj (Except.ok.inj (done.symm.trans step))
    exact stays
  obtain ⟨answer, after, done, -⟩ := call_standing standing asked
  exact ⟨answer, after, done⟩

def oneTable : List (Call Unit Unit Unit × Answer Unit Unit Unit) :=
  [(.createTable ['t'] () (), .table (some ⟨(), ['t'], (), 0⟩)),
    (.createIndex ['i'] ['t'] () 4 true .bPlusTreeIndex fun _ => (),
      .index (some ⟨(), ['i'], (), 0, ['t'], 4, true, .bPlusTreeIndex⟩)),
    (.createTable ['t'] () (), .table none),
    (.getIndexOfTable ['i'] 0, .index (some ⟨(), ['i'], (), 0, ['t'], 4, true, .bPlusTreeIndex⟩))]

theorem one_table_runs :
    ∃ catalog, Run (guarded HasOids Serves) ({} : Catalog Unit Unit Unit) oneTable catalog :=
  ⟨_, .next ⟨show 0 < OIDS by decide, rfl⟩ (.next ⟨show 0 < OIDS by decide, rfl⟩
    (.next ⟨show 1 < OIDS by decide, rfl⟩ (.next ⟨trivial, rfl⟩ (.refl _))))⟩

theorem one_table_answers : ∃ catalog, Run Serves ({} : Catalog Unit Unit Unit) oneTable catalog ∧
    ∀ asked, ∃ answer after, catalog.call asked = .ok (answer, after) := by
  obtain ⟨catalog, run⟩ := one_table_runs
  have served := TransitionSystem.run_mono (fun _ _ _ step => step.2) run
  exact ⟨catalog, served, invariant_never_broken served⟩

end Runs

/-! ### The lists -/

structure Created (Schema Heap Index : Type) where
  tables : List (TableInfo Schema Heap) := []
  indexes : List (IndexInfo Schema Index) := []

namespace Created

def table (created : Created Schema Heap Index) (name : Name) : Option (TableInfo Schema Heap) :=
  created.tables.find? fun info => info.name = name

def index (created : Created Schema Heap Index) (indexName tableName : Name) :
    Option (IndexInfo Schema Index) :=
  created.indexes.find? fun info => info.tableName = tableName ∧ info.name = indexName

end Created

inductive CreatedStep : Created Schema Heap Index →
    Call Schema Heap Index × Answer Schema Heap Index → Created Schema Heap Index → Prop where
  | createsTable {created : Created Schema Heap Index} {name : Name} {schema : Schema}
      {table : Heap}
    {info : TableInfo Schema Heap} : created.table name = none →
      info = ⟨schema, name, table, created.tables.length⟩ →
        CreatedStep created (.createTable name schema table, .table (some info))
          { created with tables := created.tables ++ [info] }
  | refusesTable {created : Created Schema Heap Index} {name : Name} {schema : Schema}
      {table : Heap} :
      (created.table name).isSome →
        CreatedStep created (.createTable name schema table, .table none) created
  | createsIndex {created : Created Schema Heap Index} {indexName tableName : Name}
      {keySchema : Schema}
    {keySize : Nat} {isPrimaryKey : Bool} {indexType : IndexType}
      {build : TableInfo Schema Heap → Index}
    {table : TableInfo Schema Heap} {info : IndexInfo Schema Index} : created.table tableName =
      some table → created.index indexName tableName = none →
        info = ⟨keySchema, indexName, build table, created.indexes.length, tableName,
          keySize, isPrimaryKey, indexType⟩ →
          CreatedStep created
            (.createIndex indexName tableName keySchema keySize isPrimaryKey indexType build,
              .index (some info))
            { created with indexes := created.indexes ++ [info] }
  | refusesIndex {created : Created Schema Heap Index} {indexName tableName : Name}
      {keySchema : Schema}
    {keySize : Nat} {isPrimaryKey : Bool} {indexType : IndexType}
      {build : TableInfo Schema Heap → Index} :
      created.table tableName = none ∨ (created.index indexName tableName).isSome →
        CreatedStep created
          (.createIndex indexName tableName keySchema keySize isPrimaryKey indexType build,
            .index none) created
  | getsTable {created : Created Schema Heap Index} {name : Name} :
      CreatedStep created (.getTable name, .table (created.table name)) created
  | getsTableByOid {created : Created Schema Heap Index} {oid : TableOid} :
      CreatedStep created (.getTableByOid oid, .table created.tables[oid]?) created
  | getsIndex {created : Created Schema Heap Index} {indexName tableName : Name} :
      CreatedStep created (.getIndex indexName tableName,
        .index (created.index indexName tableName)) created
  | getsIndexOfTable {created : Created Schema Heap Index} {indexName : Name} {oid : TableOid} :
      CreatedStep created (.getIndexOfTable indexName oid,
        .index (created.tables[oid]?.bind fun table => created.index indexName table.name)) created
  | getsIndexByOid {created : Created Schema Heap Index} {oid : IndexOid} :
      CreatedStep created (.getIndexByOid oid, .index created.indexes[oid]?) created
  | lists {created : Created Schema Heap Index} {name : Name}
      {list : List (IndexInfo Schema Index)} :
      list.Perm (created.indexes.filter fun info => info.tableName = name) →
        CreatedStep created (.getTableIndexes name, .indexes list) created
  | names {created : Created Schema Heap Index} {list : List Name} :
      list.Perm (created.tables.map TableInfo.name) →
        CreatedStep created (.getTableNames, .names list) created

structure Records (catalog : Catalog Schema Heap Index)
    (created : Created Schema Heap Index) : Prop where
  nextTable : catalog.nextTableOid = created.tables.length % OIDS
  nextIndex : catalog.nextIndexOid = created.indexes.length % OIDS
  tables : ∀ oid, catalog.tables.lookup oid = created.tables[oid]?
  indexes : ∀ oid, catalog.indexes.lookup oid = created.indexes[oid]?
  tableNames : ∀ name, catalog.tableNames.lookup name = (created.table name).map TableInfo.oid
  listed : ∀ name, (catalog.indexNames.lookup name).isSome = (created.table name).isSome
  indexNames : ∀ name tableIndexes, catalog.indexNames.lookup name = some tableIndexes →
    ∀ indexName, tableIndexes.lookup indexName =
      (created.index indexName name).map IndexInfo.indexOid
  tableOids : ∀ (oid : TableOid) (info : TableInfo Schema Heap), created.tables[oid]? = some info →
    info.oid = oid
  indexOids : ∀ (oid : IndexOid) (info : IndexInfo Schema Index), created.indexes[oid]? =
    some info → info.indexOid = oid
  onTables : ∀ info ∈ created.indexes, (created.table info.tableName).isSome
  namesApart : (created.tables.map TableInfo.name).Nodup
  indexesApart : (created.indexes.map fun info => (info.tableName, info.name)).Nodup

section Lists
variable {catalog after : Catalog Schema Heap Index} {created : Created Schema Heap Index}
  {name : Name} {table : TableInfo Schema Heap} {index : IndexInfo Schema Index}

theorem table_found (found : created.table name = some table) :
    table.name = name ∧ ∃ oid : TableOid, created.tables[oid]? = some table := by
  refine ⟨by simpa using List.find?_some found, ?_⟩
  exact List.getElem?_of_mem (List.mem_of_find?_eq_some found)

theorem index_found {indexName tableName : Name}
    (found : created.index indexName tableName = some index) :
    (index.tableName = tableName ∧ index.name = indexName) ∧
      ∃ oid : IndexOid, created.indexes[oid]? = some index := by
  refine ⟨by simpa using List.find?_some found, ?_⟩
  exact List.getElem?_of_mem (List.mem_of_find?_eq_some found)

theorem records_standing (records : Records catalog created) : Standing catalog := by
  constructor
  · intro name oid named
    rw [records.tableNames] at named
    obtain ⟨table, found, rfl⟩ := Option.map_eq_some_iff.mp named
    obtain ⟨-, place, there⟩ := table_found found
    rw [records.tables, records.tableOids place table there, there]
    rfl
  · intro name
    rw [records.tableNames, Option.isSome_map, records.listed]
  · intro name tableIndexes listed indexName oid inside
    rw [records.indexNames name tableIndexes listed] at inside
    obtain ⟨index, found, rfl⟩ := Option.map_eq_some_iff.mp inside
    obtain ⟨-, place, there⟩ := index_found found
    rw [records.indexes, records.indexOids place index there, there]
    rfl

theorem records_get_table (records : Records catalog created) (name : Name) :
    (catalog.tableNames.lookup name).bind catalog.tables.lookup = created.table name := by
  rw [records.tableNames]
  cases found : created.table name with
  | none => rfl
  | some table =>
      obtain ⟨-, place, there⟩ := table_found found
      rw [Option.map_some, Option.bind_some, records.tables,
        records.tableOids place table there, there]

theorem records_get_index (records : Records catalog created) (indexName tableName : Name) :
    ((catalog.indexNames.lookup tableName).bind fun tableIndexes =>
      (tableIndexes.lookup indexName).bind catalog.indexes.lookup) =
        created.index indexName tableName := by
  cases listed : catalog.indexNames.lookup tableName with
  | none =>
      have noTable : created.table tableName = none := by
        simpa [listed] using (records.listed tableName).symm
      cases found : created.index indexName tableName with
      | none => rfl
      | some index =>
          obtain ⟨⟨rfl, -⟩, place, there⟩ := index_found found
          have onTable := records.onTables index (List.mem_of_getElem? there)
          simp [noTable] at onTable
  | some tableIndexes =>
      rw [Option.bind_some, records.indexNames tableName tableIndexes listed]
      cases found : created.index indexName tableName with
      | none => rfl
      | some index =>
          obtain ⟨-, place, there⟩ := index_found found
          rw [Option.map_some, Option.bind_some, records.indexes,
            records.indexOids place index there, there]

/-- An index that was created is the one that its two names find. -/
theorem index_unique (records : Records catalog created) (member : index ∈ created.indexes) :
    created.index index.name index.tableName = some index := by
  obtain ⟨front, back, isList⟩ := List.append_of_mem member
  have apart := records.indexesApart
  rw [isList, List.map_append, List.map_cons] at apart
  rw [Created.index, isList, List.find?_append]
  have none : front.find? (fun info => info.tableName = index.tableName ∧ info.name = index.name) =
      none := by
    rw [List.find?_eq_none]
    intro other inside same
    have names : other.tableName = index.tableName ∧ other.name = index.name := by simpa using same
    refine (List.nodup_append.mp apart).2.2 _ (List.mem_map_of_mem inside) _ List.mem_cons_self ?_
    rw [names.1, names.2]
  rw [none]
  simp

theorem records_names (records : Records catalog created) :
    catalog.getTableNames.Perm (created.tables.map TableInfo.name) := by
  apply (List.perm_ext_iff_of_nodup catalog.tableNames.keys_nodup records.namesApart).mpr
  intro name
  rw [← AList.mem_keys, ← AList.lookup_isSome, records.tableNames, Option.isSome_map, Created.table,
    List.find?_isSome]
  simp

theorem records_table_indexes (records : Records catalog created) (tableName : Name) :
    ∃ list, catalog.getTableIndexes tableName = .ok list ∧
      list.Perm (created.indexes.filter fun info => info.tableName = tableName) := by
  obtain ⟨list, done, empty, each⟩ :=
    get_table_indexes_standing (records_standing records) tableName
  refine ⟨list, done, ?_⟩
  cases listed : catalog.indexNames.lookup tableName with
  | none =>
      have noTable : created.table tableName = none := by
        simpa [listed] using (records.listed tableName).symm
      have none : created.indexes.filter (fun info => info.tableName = tableName) = [] := by
        rw [List.filter_eq_nil_iff]
        intro index member same
        have onTable := records.onTables index member
        rw [show index.tableName = tableName by simpa using same, noTable] at onTable
        cases onTable
      rw [empty listed, none]
  | some tableIndexes =>
      have pairs := each tableIndexes listed
      -- an entry is the name of the index to which it leads
      have named : ∀ entry ∈ tableIndexes.entries, ∀ info, catalog.indexes.lookup entry.2 =
          some info → created.index entry.1 tableName = some info := by
        intro entry member info found
        have inside := AList.mem_lookup_iff.mpr member
        rw [← records_get_index records, listed, Option.bind_some,
          show tableIndexes.lookup entry.1 = some entry.2 from
          inside, Option.bind_some, found]
      have names : list.map IndexInfo.name = tableIndexes.entries.map Sigma.fst := by
        apply List.map_injective_iff.mpr fun _ _ => Option.some.inj
        have both := congrArg (List.map (Option.map IndexInfo.name)) pairs
        rw [List.map_map, List.map_map] at both
        rw [List.map_map, List.map_map]
        refine both.trans (List.map_congr_left fun entry member => ?_)
        obtain ⟨info, found⟩ := Option.isSome_iff_exists.mp
          ((records_standing records).indexes _ _ listed _ _ (AList.mem_lookup_iff.mpr member))
        simp only [Function.comp_apply, found, Option.map_some]
        rw [(index_found (named entry member info found)).1.2]
      have shown : ∀ info, info ∈ list ↔
          ∃ entry ∈ tableIndexes.entries, catalog.indexes.lookup entry.2 = some info := by
        intro info
        rw [← List.mem_map_of_injective fun _ _ => Option.some.inj, pairs, List.mem_map]
      have apart : list.Nodup := List.Nodup.of_map IndexInfo.name (names ▸ tableIndexes.keys_nodup)
      have whole : (created.indexes.filter fun info => info.tableName = tableName).Nodup :=
        (List.Nodup.of_map _ records.indexesApart).filter _
      apply (List.perm_ext_iff_of_nodup apart whole).mpr
      intro info
      rw [List.mem_filter]
      constructor
      · intro member
        obtain ⟨entry, inside, found⟩ := (shown info).mp member
        obtain ⟨⟨same, -⟩, place, there⟩ := index_found (named entry inside info found)
        exact ⟨List.mem_of_getElem? there, by simpa using same⟩
      · rintro ⟨member, same⟩
        have isTable : info.tableName = tableName := by simpa using same
        have found := index_unique records member
        rw [isTable] at found
        have inside := records.indexNames tableName tableIndexes listed info.name
        rw [found, Option.map_some] at inside
        obtain ⟨-, place, there⟩ := index_found found
        refine (shown info).mpr ⟨_, AList.mem_lookup_iff.mp inside, ?_⟩
        rw [records.indexes, records.indexOids place info there, there]

/-! ### What a creation adds -/

theorem table_added (fresh : created.table table.name = none) (other : Name) :
    Created.table { created with tables := created.tables ++ [table] } other =
      if other = table.name then some table else created.table other := by
  unfold Created.table at fresh ⊢
  rw [List.find?_append]
  by_cases same : other = table.name
  · subst same
    rw [fresh]
    simp
  · cases created.tables.find? fun info => info.name = other with
    | none => simp [same, Ne.symm same]
    | some found => simp [same]

theorem index_added (fresh : created.index index.name index.tableName = none)
    (indexName tableName : Name) :
    Created.index { created with indexes := created.indexes ++ [index] } indexName tableName =
      if tableName = index.tableName ∧ indexName = index.name then some index
      else created.index indexName tableName := by
  unfold Created.index at fresh ⊢
  rw [List.find?_append]
  by_cases same : tableName = index.tableName ∧ indexName = index.name
  · obtain ⟨rfl, rfl⟩ := same
    rw [fresh]
    simp
  · rw [if_neg same]
    cases created.indexes.find? fun info => info.tableName = tableName ∧ info.name = indexName with
    | none =>
        have other : ¬(index.tableName = tableName ∧ index.name = indexName) :=
          fun both => same ⟨both.1.symm, both.2.symm⟩
        simp [other]
    | some found => rfl

theorem place_added {Value : Type} (list : List Value) (value : Value) (place : Nat) :
    (list ++ [value])[place]? = if place = list.length then some value else list[place]? := by
  by_cases last : place = list.length
  · simp [last]
  · rw [if_neg last]
    by_cases inside : place < list.length
    · rw [List.getElem?_append_left inside]
    · rw [List.getElem?_eq_none (by simp; omega), List.getElem?_eq_none (by omega)]

theorem records_track_table (records : Records catalog created)
    (fresh : created.table table.name = none) (isOid : table.oid = created.tables.length) :
    Records (catalog.trackTable table) { created with tables := created.tables ++ [table] } := by
  have newName : catalog.tableNames.lookup table.name = none := by
    rw [records.tableNames, fresh, Option.map_none]
  have newOid : catalog.tables.lookup table.oid = none := by
    rw [records.tables, isOid, List.getElem?_length]
  have newList : catalog.indexNames.lookup table.name = none := by
    simpa [fresh] using records.listed table.name
  constructor
  · simp only [trackTable, records.nextTable, List.length_append, List.length_singleton,
      Nat.mod_add_mod]
  · exact records.nextIndex
  · intro oid
    rw [trackTable, emplace_fresh newOid, place_added, isOid, records.tables]
  · exact records.indexes
  · intro name
    simp only [trackTable, emplace_fresh newName, table_added fresh]
    split
    · rfl
    · exact records.tableNames name
  · intro name
    simp only [trackTable, emplace_fresh newList, table_added fresh]
    split
    · rfl
    · exact records.listed name
  · intro name tableIndexes found indexName
    simp only [trackTable, emplace_fresh newList] at found
    split at found
    case isTrue same =>
        obtain rfl := Option.some.inj found
        cases old : created.index indexName name with
        | none =>
            rw [show Created.index
              { created with tables := created.tables ++ [table] } indexName name = none from old]
            rfl
        | some index =>
            -- an index has its table
            obtain ⟨⟨onName, -⟩, place, there⟩ := index_found old
            have onTable := records.onTables index (List.mem_of_getElem? there)
            rw [onName, same, fresh] at onTable
            cases onTable
    case isFalse => exact records.indexNames name tableIndexes found indexName
  · intro oid info found
    rw [place_added] at found
    split at found
    case isTrue last =>
        obtain rfl := Option.some.inj found
        rw [isOid, last]
    case isFalse => exact records.tableOids oid info found
  · exact records.indexOids
  · intro info member
    rw [table_added fresh]
    split
    · rfl
    · exact records.onTables info member
  · rw [List.map_append, List.map_singleton, List.nodup_append]
    refine ⟨records.namesApart, List.nodup_singleton _, fun name member other isName same => ?_⟩
    obtain rfl := List.mem_singleton.mp isName
    obtain ⟨info, inside, isInfo⟩ := List.mem_map.mp member
    have absent := List.find?_eq_none.mp fresh info inside
    exact absent (by simpa using isInfo.trans same)
  · exact records.indexesApart

theorem records_track_index (records : Records catalog created)
    {tableIndexes : UnorderedMap Name IndexOid}
    (listed : catalog.indexNames.lookup index.tableName = some tableIndexes)
    (fresh : created.index index.name index.tableName = none)
    (isOid : index.indexOid = created.indexes.length) :
    Records (catalog.trackIndex tableIndexes index) { created with
      indexes := created.indexes ++ [index] } := by
  have newName : tableIndexes.lookup index.name = none := by
    rw [records.indexNames _ _ listed, fresh, Option.map_none]
  have newOid : catalog.indexes.lookup index.indexOid = none := by
    rw [records.indexes, isOid, List.getElem?_length]
  have onTable : (created.table index.tableName).isSome = true := by
    rw [← records.listed, listed]; rfl
  constructor
  · exact records.nextTable
  · simp only [trackIndex, records.nextIndex, List.length_append, List.length_singleton,
      Nat.mod_add_mod]
  · exact records.tables
  · intro oid
    rw [trackIndex, emplace_fresh newOid, place_added, isOid, records.indexes]
  · exact records.tableNames
  · intro name
    by_cases same : name = index.tableName
    · subst same
      rw [trackIndex, AList.lookup_insert]
      exact onTable.symm
    · rw [trackIndex, AList.lookup_insert_ne same]
      exact records.listed name
  · intro name indexes found indexName
    rw [index_added fresh]
    by_cases same : name = index.tableName
    · subst same
      rw [trackIndex, AList.lookup_insert] at found
      obtain rfl := Option.some.inj found
      rw [emplace_fresh newName]
      by_cases here : indexName = index.name
      · simp [here]
      · rw [if_neg here, if_neg fun both => here both.2]
        exact records.indexNames _ _ listed indexName
    · rw [trackIndex, AList.lookup_insert_ne same] at found
      rw [if_neg fun both => same both.1]
      exact records.indexNames name indexes found indexName
  · exact records.tableOids
  · intro oid info found
    rw [place_added] at found
    split at found
    case isTrue last =>
        obtain rfl := Option.some.inj found
        rw [isOid, last]
    case isFalse => exact records.indexOids oid info found
  · intro info member
    rcases List.mem_append.mp member with old | last
    · exact records.onTables info old
    · obtain rfl := List.mem_singleton.mp last
      exact onTable
  · exact records.namesApart
  · rw [List.map_append, List.map_singleton, List.nodup_append]
    refine ⟨records.indexesApart, List.nodup_singleton _, fun names member other isNames same => ?_⟩
    obtain rfl := List.mem_singleton.mp isNames
    obtain ⟨info, inside, isInfo⟩ := List.mem_map.mp member
    have absent := List.find?_eq_none.mp fresh info inside
    obtain ⟨onName, isName⟩ := Prod.mk.inj (isInfo.trans same)
    exact absent (by simp [onName, isName])

theorem call_follows (records : Records catalog created)
    {label : Call Schema Heap Index × Answer Schema Heap Index} (has : HasOids catalog label)
    (served : Serves catalog label after) :
    ∃ next, CreatedStep created label next ∧ Records after next := by
  have standing := records_standing records
  obtain ⟨asked, answer⟩ := label
  cases asked with
  | createTable name schema table =>
      have named := records.tableNames name
      simp only [Serves, call, createTable] at served
      split at served
      case isTrue there =>
          obtain ⟨rfl, rfl⟩ := Prod.mk.inj (Except.ok.inj served)
          rw [named, Option.isSome_map] at there
          exact ⟨created, .refusesTable there, records⟩
      case isFalse absent =>
          obtain ⟨rfl, rfl⟩ := Prod.mk.inj (Except.ok.inj served)
          have fresh : created.table name = none := by simpa [named] using absent
          have room : created.tables.length < OIDS := places_length records.tables ▸ has
          have isOid : catalog.nextTableOid = created.tables.length := by
            rw [records.nextTable, Nat.mod_eq_of_lt room]
          exact ⟨_, .createsTable fresh (by rw [isOid]), records_track_table records fresh isOid⟩
  | createIndex indexName tableName keySchema keySize isPrimaryKey indexType build =>
      obtain ⟨⟨info, next⟩, done, creation⟩ :=
        create_index_cases standing indexName tableName keySchema keySize isPrimaryKey
          indexType build
      simp only [Serves, call, done, bind, Except.bind] at served
      obtain ⟨rfl, rfl⟩ := Prod.mk.inj (Except.ok.inj served)
      cases creation with
      | noTable absent =>
          rw [records.tableNames, Option.map_eq_none_iff] at absent
          exact ⟨created, .refusesIndex (Or.inl absent), records⟩
      | there named listed old =>
          rw [records.indexNames _ _ listed, Option.isSome_map] at old
          exact ⟨created, .refusesIndex (Or.inr old), records⟩
      | @made tableIndexes oid table info named found listed absent isInfo =>
          have isTable : created.table tableName = some table := by
            rw [← records_get_table records, named, Option.bind_some, found]
          rw [records.indexNames _ _ listed, Option.map_eq_none_iff] at absent
          have room : created.indexes.length < OIDS := places_length records.indexes ▸ has
          have isOid : catalog.nextIndexOid = created.indexes.length := by
            rw [records.nextIndex, Nat.mod_eq_of_lt room]
          rw [isOid] at isInfo
          subst isInfo
          exact ⟨_, .createsIndex isTable absent rfl, records_track_index records listed absent rfl⟩
  | getTable name =>
      simp only [Serves, call, get_table_standing standing, records_get_table records, bind,
        Except.bind] at served
      obtain ⟨rfl, rfl⟩ := Prod.mk.inj (Except.ok.inj served)
      exact ⟨created, .getsTable, records⟩
  | getTableByOid oid =>
      obtain ⟨rfl, rfl⟩ := Prod.mk.inj (Except.ok.inj served)
      rw [getTableByOid, records.tables]
      exact ⟨created, .getsTableByOid, records⟩
  | getIndex indexName tableName =>
      simp only [Serves, call, get_index_standing standing, records_get_index records, bind,
        Except.bind] at served
      obtain ⟨rfl, rfl⟩ := Prod.mk.inj (Except.ok.inj served)
      exact ⟨created, .getsIndex, records⟩
  | getIndexOfTable indexName oid =>
      have found : catalog.getIndexOfTable indexName oid =
          .ok (created.tables[oid]?.bind fun table => created.index indexName table.name) := by
        rw [getIndexOfTable, records.tables]
        cases created.tables[oid]? with
        | none => rfl
        | some table =>
            simp only [get_index_standing standing, records_get_index records, Option.bind_some]
      simp only [Serves, call, found, bind, Except.bind] at served
      obtain ⟨rfl, rfl⟩ := Prod.mk.inj (Except.ok.inj served)
      exact ⟨created, .getsIndexOfTable, records⟩
  | getIndexByOid oid =>
      obtain ⟨rfl, rfl⟩ := Prod.mk.inj (Except.ok.inj served)
      rw [getIndexByOid, records.indexes]
      exact ⟨created, .getsIndexByOid, records⟩
  | getTableIndexes name =>
      obtain ⟨list, done, perm⟩ := records_table_indexes records name
      simp only [Serves, call, done, bind, Except.bind] at served
      obtain ⟨rfl, rfl⟩ := Prod.mk.inj (Except.ok.inj served)
      exact ⟨created, .lists perm, records⟩
  | getTableNames =>
      obtain ⟨rfl, rfl⟩ := Prod.mk.inj (Except.ok.inj served)
      exact ⟨created, .names (records_names records), records⟩

theorem new_records : Records ({} : Catalog Schema Heap Index) {} := by
  constructor <;> simp [Created.table]

/-- While there are identifiers left, a run of the catalog answers as the two lists do, and its
maps say what the lists say. -/
theorem catalog_refines_lists {labels : List (Call Schema Heap Index × Answer Schema Heap Index)}
    (run : Run (guarded HasOids Serves) {} labels catalog) :
    ∃ created, Run CreatedStep {} labels created ∧ Records catalog created :=
  TransitionSystem.run_follows
    (show ∀ before label after (created : Created Schema Heap Index), Records before created →
        guarded HasOids Serves before label after → ∃ next, CreatedStep created label next ∧
          Records after next from
      fun _ _ _ _ records step => call_follows records step.1 step.2) run new_records

theorem one_table_refines : ∃ (catalog : Catalog Unit Unit Unit) (created : Created Unit Unit Unit),
    Run CreatedStep {} oneTable created ∧ Records catalog created := by
  obtain ⟨catalog, run⟩ := one_table_runs
  exact ⟨catalog, catalog_refines_lists run⟩

end Lists

end Catalog

end BusTub
