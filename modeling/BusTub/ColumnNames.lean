import Mathlib.Data.List.Basic

/-!
How `binder/bind_select.cpp` resolves the name of a column in a FROM tree, and how
the planner finds the column of that name in the schema it makes for the same tree.
The binder answers the parts of a name, the planner joins the parts with dots on its
own. The two agree where a reference to a CTE is not renamed and no dot inside an
identifier makes two names the same.
-/

namespace BusTub

/-! ### The tree -/

abbrev Identifier := List Char

def lower (name : Identifier) : Identifier := name.map Char.toLower

def dotted (parts : List Identifier) : Identifier := ['.'].intercalate parts

structure BoundSubqueryRef where
  selectListName : List (List Identifier)
  aliasName : Identifier
  named : ∀ name ∈ selectListName, name ≠ []

abbrev CTEList := List BoundSubqueryRef

inductive BoundTableRef where
  | baseTable (table : Identifier) (aliasName : Option Identifier) (schema : List Identifier)
  | crossProduct (left right : BoundTableRef)
  | join (left right : BoundTableRef)
  | subquery (ref : BoundSubqueryRef)
  | cte (cteName aliasName : Identifier)

def boundTableName (table : Identifier) (aliasName : Option Identifier) : Identifier :=
  aliasName.getD table

/-- The first CTE of the name, in the binder's scope or in the planner's list. -/
def findCTE (ctes : CTEList) (cteName : Identifier) : Option BoundSubqueryRef :=
  ctes.find? fun cte => cteName = cte.aliasName

/-! ### The binder -/

inductive BindError where
  | ambiguousInSchema
  | ambiguousInTable
  | ambiguousInSelectList
  | ambiguousInSubquery
  | ambiguous
  | cteNotFound
  | columnNotFound
  deriving DecidableEq

/-- A loop that keeps the name it meets and throws at a second one. -/
def onlyName (error : BindError) : List (List Identifier) →
    Except BindError (Option (List Identifier))
  | [] => .ok none
  | [name] => .ok (some name)
  | _ => .error error

def resolveColumnRefFromSchema (schema : List Identifier) :
    List Identifier → Except BindError (Option (List Identifier))
  | [name] =>
      onlyName .ambiguousInSchema
        ((schema.filter fun column => lower column = name).map fun column => [column])
  | _ => .ok none

def matchSuffix (suffix fullName : List Identifier) : Bool := suffix.isSuffixOf (fullName.map lower)

def resolveColumnRefFromSelectList (subquerySelectList : List (List Identifier))
    (colName : List Identifier) :
    Except BindError (Option (List Identifier)) :=
  onlyName .ambiguousInSelectList (subquerySelectList.filter fun fullName =>
    matchSuffix colName fullName)

def resolvePrefixed (resolve : List Identifier → Except BindError (Option (List Identifier)))
    (aliasName bound : Identifier) (error : BindError) (colName : List Identifier) :
    Except BindError (Option (List Identifier)) := do
  let direct ← resolve colName
  let strip ← (if 1 < colName.length ∧ colName.head? = some aliasName then resolve colName.tail
    else .ok none)
  if strip.isSome && direct.isSome then .error error
  else .ok ((strip.or direct).map fun name => bound :: name)

def resolveColumnRefFromBaseTableRef (table : Identifier) (aliasName : Option Identifier)
    (schema : List Identifier) :
    List Identifier → Except BindError (Option (List Identifier)) :=
  resolvePrefixed (resolveColumnRefFromSchema schema) (boundTableName table aliasName)
    (boundTableName table aliasName)
    .ambiguousInTable

def resolveColumnRefFromSubqueryRef (ref : BoundSubqueryRef) (aliasName : Identifier) :
    List Identifier → Except BindError (Option (List Identifier)) :=
  resolvePrefixed (resolveColumnRefFromSelectList ref.selectListName) aliasName ref.aliasName
    .ambiguousInSubquery

def fromEitherSide (left right : Option (List Identifier)) :
    Except BindError (Option (List Identifier)) :=
  if left.isSome && right.isSome then .error .ambiguous else .ok (left.or right)

def resolveColumnInternal (cteScope : CTEList) (colName : List Identifier) :
    BoundTableRef → Except BindError (Option (List Identifier))
  | .baseTable table aliasName schema =>
    resolveColumnRefFromBaseTableRef table aliasName schema colName
  | .crossProduct left right | .join left right => do
      let leftColumn ← resolveColumnInternal cteScope colName left
      let rightColumn ← resolveColumnInternal cteScope colName right
      fromEitherSide leftColumn rightColumn
  | .subquery ref => resolveColumnRefFromSubqueryRef ref ref.aliasName colName
  | .cte cteName aliasName =>
      match findCTE cteScope cteName with
      | some cte => resolveColumnRefFromSubqueryRef cte aliasName colName
      | none => .error .cteNotFound

def resolveColumn (cteScope : CTEList) (scope : BoundTableRef) (colName : List Identifier) :
    Except BindError (List Identifier) := do
  match ← resolveColumnInternal cteScope colName scope with
  | some expr => .ok expr
  | none => .error .columnNotFound

/-! ### The planner -/

def planSubquery (ref : BoundSubqueryRef) (aliasName : Identifier) : List Identifier :=
  ref.selectListName.map fun name => aliasName ++ '.' :: dotted name

/-- The column names of the plan that `PlanTableRef` makes, `none` where it finds no CTE. -/
def planTableRef (cteList : CTEList) : BoundTableRef → Option (List Identifier)
  | .baseTable table aliasName schema =>
    some (schema.map fun column => boundTableName table aliasName ++ '.' :: column)
  | .crossProduct left right | .join left right => do
      let leftSchema ← planTableRef cteList left
      let rightSchema ← planTableRef cteList right
      return leftSchema ++ rightSchema
  | .subquery ref => some (planSubquery ref ref.aliasName)
  | .cte cteName aliasName => (findCTE cteList cteName).map fun cte => planSubquery cte aliasName

inductive PlanError where
  | duplicatedColumn
  | columnDoesNotExist
  deriving DecidableEq

def planColumnRef (schema : List Identifier) (colName : List Identifier) : Except PlanError Nat :=
  if 1 < schema.count (dotted colName) then .error .duplicatedColumn
  else
    match schema.idxOf? (dotted colName) with
    | some colIdx => .ok colIdx
    | none => .error .columnDoesNotExist

/-! ### What a name denotes -/

/-- A column of the tree: the alias of its table there, the prefix that the binder
gives it, and its own name. -/
structure TableColumn where
  aliasName : Identifier
  bound : Identifier
  parts : List Identifier
  deriving DecidableEq

namespace TableColumn

/-- The name is a suffix of the column's, which may stand behind the alias. -/
def denotedBy (name : List Identifier) (column : TableColumn) : Bool :=
  matchSuffix name column.parts ||
    (decide (1 < name.length ∧ name.head? = some column.aliasName) &&
      matchSuffix name.tail column.parts)

def plannedName (column : TableColumn) : Identifier := dotted (column.aliasName :: column.parts)

end TableColumn

namespace BoundTableRef

def columns (ctes : CTEList) : BoundTableRef → Option (List TableColumn)
  | baseTable table aliasName schema =>
      some (schema.map fun column =>
        ⟨boundTableName table aliasName, boundTableName table aliasName, [column]⟩)
  | crossProduct left right | join left right => do
      let leftColumns ← left.columns ctes
      let rightColumns ← right.columns ctes
      return leftColumns ++ rightColumns
  | subquery ref => some (ref.selectListName.map fun name => ⟨ref.aliasName, ref.aliasName, name⟩)
  | cte cteName aliasName =>
      (findCTE ctes cteName).map fun cte => cte.selectListName.map fun name =>
        ⟨aliasName, cte.aliasName, name⟩

def cteNames : BoundTableRef → List Identifier
  | crossProduct left right | join left right => left.cteNames ++ right.cteNames
  | cte cteName _ => [cteName]
  | _ => []

end BoundTableRef

def Denotes (columns : List TableColumn) (name : List Identifier)
    (result : Option (List Identifier)) : Prop :=
  ∃ found : Option TableColumn, columns.filter (TableColumn.denotedBy name) = found.toList ∧
    result = found.map fun column => column.bound :: column.parts

section Tables
variable {name : List Identifier} {aliasName bound : Identifier} {error : BindError}
  {names : List (List Identifier)}

theorem except_bind {A B : Type} {first : Except BindError A} {next : A → Except BindError B}
    {result : B} (ran : (first >>= next) = .ok result) :
    ∃ value, first = .ok value ∧ next value = .ok result := by
  cases first with
  | error error => cases ran
  | ok value => exact ⟨value, rfl, ran⟩

theorem only_name_ok {found : Option (List Identifier)} :
    onlyName error names = .ok found ↔ names = found.toList := by
  unfold onlyName
  split <;> cases found <;> simp_all [eq_comm]

/-- A name of one part is a suffix of one column name when it is that, and no other name is one. -/
theorem schema_suffix {schema : List Identifier} (named : name ≠ []) :
    resolveColumnRefFromSchema schema name =
    onlyName .ambiguousInSchema ((schema.map fun column => [column]).filter fun fullName =>
      matchSuffix name fullName) := by
  unfold resolveColumnRefFromSchema
  split
  · rename_i part
    rw [List.filter_map]
    congr 3
    funext column
    have same : [part] <:+ [lower column] ↔ lower column = part := by
      constructor
      · intro suffix
        exact (List.singleton_inj.mp (suffix.eq_of_length rfl)).symm
      · rintro rfl
        exact List.suffix_refl _
    rw [Bool.eq_iff_iff, decide_eq_true_eq, Function.comp_apply, matchSuffix,
      List.isSuffixOf_iff_suffix]
    exact same.symm
  · rename_i several
    have nothing : ((schema.map fun column => [column]).filter fun fullName =>
        matchSuffix name fullName) = [] := by
      rw [List.filter_eq_nil_iff]
      intro fullName member
      obtain ⟨column, -, rfl⟩ := List.mem_map.mp member
      intro suffix
      have short := (List.isSuffixOf_iff_suffix.mp suffix).length_le
      cases name with
      | nil => exact named rfl
      | cons first rest =>
          cases rest with
          | nil => exact several first rfl
          | cons second rest => simp at short
    rw [nothing]
    rfl

/-- What either of two tests lets through, when not both let something through. -/
theorem filter_either {A : Type} {values : List A} {first second : A → Bool} {left right : Option A}
    (one : values.filter first = left.toList) (other : values.filter second = right.toList)
    (apart : ¬(right.isSome && left.isSome) = true) :
    values.filter (fun value => first value || second value) = (right.or left).toList := by
  cases right with
  | none =>
      rw [Option.none_or, ← one]
      apply List.filter_congr
      intro value member
      simp [List.filter_eq_nil_iff.mp other value member]
  | some value =>
      have nothing : left = none := by simpa using apart
      subst nothing
      rw [Option.some_or, ← other]
      apply List.filter_congr
      intro value member
      simp [List.filter_eq_nil_iff.mp one value member]

theorem prefixed_denotes {resolve : List Identifier → Except BindError (Option (List Identifier))}
    {only : BindError} (suffixes : ∀ name, name ≠ [] →
      resolve name = onlyName only (names.filter fun fullName => matchSuffix name fullName))
    (named : name ≠ []) {result : Option (List Identifier)}
    (resolved : resolvePrefixed resolve aliasName bound error name = .ok result) :
    Denotes (names.map fun parts => ⟨aliasName, bound, parts⟩) name result := by
  obtain ⟨direct, resolvedDirect, resolved⟩ := except_bind resolved
  obtain ⟨strip, resolvedStrip, resolved⟩ := except_bind resolved
  rw [suffixes name named, only_name_ok] at resolvedDirect
  -- the names of which it is a suffix behind the alias
  have stripped : names.filter (fun fullName =>
      decide (1 < name.length ∧ name.head? = some aliasName) && matchSuffix name.tail fullName) =
        strip.toList := by
    split at resolvedStrip
    · rename_i behind
      have tailed : name.tail ≠ [] := by
        intro short
        have length := congrArg List.length short
        rw [List.length_tail, List.length_nil] at length
        omega
      rw [suffixes name.tail tailed, only_name_ok] at resolvedStrip
      simpa [behind] using resolvedStrip
    · rename_i apart
      obtain rfl := Except.ok.inj resolvedStrip
      simp [apart]
  split at resolved
  · cases resolved
  · rename_i apart
    obtain rfl := Except.ok.inj resolved
    refine ⟨(strip.or direct).map fun parts => ⟨aliasName, bound, parts⟩, ?_,
      by rw [Option.map_map]; rfl⟩
    have either := filter_either resolvedDirect stripped apart
    rw [List.filter_map, Option.toList_map, ← either]
    rfl

end Tables

section Trees
variable {scope cteList : CTEList} {tree : BoundTableRef} {name : List Identifier}
  {result : Option (List Identifier)} {parts : List Identifier} {schema : List Identifier}
  {ref : List Identifier}

/-- What the binder answers for a tree is what the name denotes in it. -/
theorem resolved_denotes (named : name ≠ [])
    (resolved : resolveColumnInternal scope name tree = .ok result) :
    ∃ columns, tree.columns scope = some columns ∧ Denotes columns name result := by
  induction tree generalizing result with
  | baseTable table aliasName schema =>
      refine ⟨_, rfl, ?_⟩
      have denotes :=
        @prefixed_denotes name _ _ _ (schema.map fun column => [column]) _ _
          (fun name => schema_suffix) named
        _ resolved
      simpa [Function.comp_def] using denotes
  | subquery ref => exact ⟨_, rfl, prefixed_denotes (fun _ _ => rfl) named resolved⟩
  | cte cteName aliasName =>
      unfold resolveColumnInternal at resolved
      split at resolved
      · rename_i cte found
        exact ⟨_,
          by rw [BoundTableRef.columns, found]; rfl, prefixed_denotes
          (fun _ _ => rfl) named resolved⟩
      · cases resolved
  | crossProduct left right ihLeft ihRight | join left right ihLeft ihRight =>
      obtain ⟨leftColumn, resolvedLeft, resolved⟩ := except_bind resolved
      obtain ⟨rightColumn, resolvedRight, resolved⟩ := except_bind resolved
      obtain ⟨leftColumns, there, first, denotesLeft, rfl⟩ := ihLeft resolvedLeft
      obtain ⟨rightColumns, there', second, denotesRight, rfl⟩ := ihRight resolvedRight
      refine ⟨leftColumns ++ rightColumns,
        by rw [BoundTableRef.columns, there, there']; rfl, first.or second, ?_, ?_⟩
      · rw [List.filter_append, denotesLeft, denotesRight]
        cases first with
        | none => simp
        | some column =>
            cases second with
            | none => simp
            | some other => cases resolved
      · unfold fromEitherSide at resolved
        split at resolved
        · cases resolved
        · obtain rfl := Except.ok.inj resolved
          cases first with
          | none => simp
          | some column => simp

theorem dotted_cons {first : Identifier} (more : parts ≠ []) :
    dotted (first :: parts) = first ++ '.' :: dotted parts := by
  rw [dotted, List.intercalate_cons_of_ne_nil more]
  simp [dotted]

theorem dotted_first {first other : Identifier}
    (same : dotted (first :: parts) = dotted (other :: parts)) : first = other := by
  by_cases more : parts = []
  · subst more
    simpa [dotted] using same
  · rw [dotted_cons more, dotted_cons more] at same
    exact List.append_cancel_right same

theorem subquery_names (ref : BoundSubqueryRef) (aliasName bound : Identifier) :
    planSubquery ref aliasName =
    (ref.selectListName.map fun parts => (⟨aliasName, bound, parts⟩ : TableColumn)).map
      TableColumn.plannedName := by
  rw [planSubquery, List.map_map]
  apply List.map_congr_left
  intro parts member
  exact (dotted_cons (ref.named parts member)).symm

/-- The planner gives each column the name of its own table reference. -/
theorem planned_names (tree : BoundTableRef) : planTableRef cteList tree =
    (tree.columns cteList).map fun columns => columns.map TableColumn.plannedName := by
  induction tree with
  | baseTable table aliasName schema =>
      simp [planTableRef, BoundTableRef.columns, TableColumn.plannedName, dotted_cons]
      simp [dotted]
  | subquery ref => exact congrArg some (subquery_names ref ref.aliasName ref.aliasName)
  | cte cteName aliasName =>
      rw [planTableRef, BoundTableRef.columns, Option.map_map]
      congr 1
      funext cte
      exact subquery_names cte aliasName cte.aliasName
  | crossProduct left right ihLeft ihRight | join left right ihLeft ihRight =>
      rw [planTableRef, BoundTableRef.columns, ihLeft, ihRight]
      cases left.columns cteList with
      | none => rfl
      | some leftColumns =>
          cases right.columns cteList with
          | none => rfl
          | some rightColumns => simp

theorem same_columns
    (same : ∀ cteName ∈ tree.cteNames, findCTE cteList cteName = findCTE scope cteName) :
    tree.columns cteList = tree.columns scope := by
  induction tree with
  | baseTable | subquery => rfl
  | cte cteName aliasName =>
      rw [BoundTableRef.columns, BoundTableRef.columns, same cteName List.mem_cons_self]
  | crossProduct left right ihLeft ihRight | join left right ihLeft ihRight =>
      rw [BoundTableRef.columns, BoundTableRef.columns,
        ihLeft fun cteName member => same cteName (List.mem_append_left _ member),
        ihRight fun cteName member => same cteName (List.mem_append_right _ member)]

/-- `PlanColumnRef` finds a name that stands once in the schema. -/
theorem plan_column_ok {colIdx : Nat} (found : planColumnRef schema ref = .ok colIdx) :
    schema.count (dotted ref) ≤ 1 ∧ schema[colIdx]? = some (dotted ref) := by
  unfold planColumnRef at found
  split at found
  · cases found
  · rename_i once
    split at found
    · rename_i idx there
      obtain rfl := Except.ok.inj found
      obtain ⟨within, here, -⟩ := List.findIdx?_eq_some_iff_getElem.mp there
      refine ⟨Nat.not_lt.mp once, ?_⟩
      rw [List.getElem?_eq_getElem within]
      simpa using here
    · cases found

theorem plan_column_of (once : schema.count (dotted ref) ≤ 1)
    (member : dotted ref ∈ schema) : ∃ colIdx, planColumnRef schema ref = .ok colIdx := by
  unfold planColumnRef
  rw [if_neg (Nat.not_lt.mpr once)]
  cases there : schema.idxOf? (dotted ref) with
  | some colIdx => exact ⟨colIdx, rfl⟩
  | none => exact absurd member (List.idxOf?_eq_none_iff.mp there)

theorem planned_count (columns : List TableColumn) (planned : Identifier) :
    (columns.map TableColumn.plannedName).count planned =
      (columns.filter fun column => column.plannedName = planned).length := by
  rw [List.count, List.countP_map, List.countP_eq_length_filter]
  apply congrArg
  apply List.filter_congr
  intro column _
  simp [beq_eq_decide]

end Trees

/-- `PlanColumnRef` finds one column of the name that the binder has answered, and the name
denotes it. -/
def PlannerFinds (scope cteList : CTEList) (tree : BoundTableRef)
    (name ref : List Identifier) : Prop :=
  ∃ schema colIdx columns column, planTableRef cteList tree = some schema ∧
    planColumnRef schema ref = .ok colIdx ∧ tree.columns scope = some columns ∧
      columns[colIdx]? = some column ∧ column.denotedBy name = true

/-- The column that the name denotes is in no renamed reference to a CTE, and a column
with the same dotted name has the same parts. -/
def NamedAlike (scope : CTEList) (tree : BoundTableRef) (name : List Identifier) : Prop :=
  ∀ columns, tree.columns scope = some columns → ∀ column ∈ columns, column.denotedBy name = true →
    column.bound = column.aliasName ∧ ∀ other ∈ columns, other.plannedName = column.plannedName →
      other.aliasName :: other.parts = column.aliasName :: column.parts

section Agreement
variable {scope cteList : CTEList} {tree : BoundTableRef} {name ref : List Identifier}
  {columns : List TableColumn} {column : TableColumn}

/-- A name is denoted by its parts and the alias in front of them. -/
theorem denoted_alike {other : TableColumn} (denoted : column.denotedBy name = true)
    (same : other.aliasName :: other.parts = column.aliasName :: column.parts) :
    other.denotedBy name = true := by
  obtain ⟨sameAlias, sameParts⟩ := List.cons.inj same
  rw [TableColumn.denotedBy, sameAlias, sameParts]
  exact denoted

theorem planner_finds (there : tree.columns scope = some columns)
    (same : tree.columns cteList = tree.columns scope)
    (only : columns.filter (TableColumn.denotedBy name) = [column])
    (alike : NamedAlike scope tree name) :
    PlannerFinds scope cteList tree name (column.bound :: column.parts) := by
  have member : column ∈ columns.filter (TableColumn.denotedBy name) := by simp [only]
  obtain ⟨inside, denoted⟩ := List.mem_filter.mp member
  obtain ⟨sameBound, unique⟩ := alike columns there column inside denoted
  have planned : planTableRef cteList tree = some (columns.map TableColumn.plannedName) := by
    rw [planned_names, same, there, Option.map_some]
  have refName : dotted (column.bound :: column.parts) = column.plannedName := by
    rw [sameBound]; rfl
  have once : (columns.map TableColumn.plannedName).count (dotted (column.bound :: column.parts)) ≤
      1 := by
    rw [planned_count, refName, ← List.countP_eq_length_filter]
    calc columns.countP (fun other => other.plannedName = column.plannedName)
        ≤ columns.countP (TableColumn.denotedBy name) := by
          apply List.countP_mono_left
          intro other among sameName
          exact denoted_alike denoted (unique other among (of_decide_eq_true sameName))
      _ = 1 := by rw [List.countP_eq_length_filter, only, List.length_singleton]
  obtain ⟨colIdx, found⟩ := plan_column_of once (refName ▸ List.mem_map_of_mem inside)
  have here := (plan_column_ok found).2
  rw [refName, List.getElem?_map, Option.map_eq_some_iff] at here
  obtain ⟨other, at_, sameName⟩ := here
  have among := List.mem_of_getElem? at_
  exact ⟨_, colIdx, columns, other, planned, found, there, at_,
    denoted_alike denoted (unique other among sameName)⟩

theorem named_alike (there : tree.columns scope = some columns)
    (same : tree.columns cteList = tree.columns scope)
    (only : columns.filter (TableColumn.denotedBy name) = [column])
    (finds : PlannerFinds scope cteList tree name (column.bound :: column.parts)) :
    NamedAlike scope tree name := by
  obtain ⟨schema, colIdx, columns', other, planned, found, there', at_, denoted⟩ := finds
  obtain rfl := Option.some.inj (there.symm.trans there')
  obtain rfl :=
    Option.some.inj (planned.symm.trans (by rw [planned_names, same, there, Option.map_some]))
  obtain ⟨once, here⟩ := plan_column_ok found
  have onlyOne (candidate : TableColumn) (inside : candidate ∈ columns)
    (denoted : candidate.denotedBy name = true) :
    candidate = column := by
    have member : candidate ∈ columns.filter (TableColumn.denotedBy name) :=
      List.mem_filter.mpr ⟨inside, denoted⟩
    rw [only] at member
    exact List.mem_singleton.mp member
  obtain rfl := onlyOne other (List.mem_of_getElem? at_) denoted
  rw [List.getElem?_map, at_, Option.map_some, Option.some.injEq] at here
  have sameBound : other.bound = other.aliasName := (dotted_first here).symm
  rw [← here, planned_count] at once
  intro columns' there' candidate inside denotedToo
  obtain rfl := Option.some.inj (there.symm.trans there')
  obtain rfl := onlyOne candidate inside denotedToo
  refine ⟨sameBound, fun third among sameName => ?_⟩
  -- both have the name that stands once in the schema
  have listed (one : TableColumn) (member : one ∈ columns)
    (planned : one.plannedName = candidate.plannedName) :
    one ∈ columns.filter fun column => column.plannedName = candidate.plannedName :=
    List.mem_filter.mpr ⟨member, decide_eq_true planned⟩
  have first := listed candidate inside rfl
  have second := listed third among sameName
  generalize (columns.filter fun column => column.plannedName = candidate.plannedName) =
    named at once first second
  cases named with
  | nil => cases first
  | cons one named =>
      obtain rfl : named = [] := List.eq_nil_of_length_eq_zero (by simpa using once)
      rw [List.mem_singleton.mp first, List.mem_singleton.mp second]

end Agreement

/-- For every tree, every name and all CTEs that binder and planner find alike: the
planner finds what the binder has answered exactly when the names are alike; and the
binder throws unless the name denotes one column. -/
theorem planner_finds_iff (scope cteList : CTEList) (tree : BoundTableRef) (name : List Identifier)
    (named : name ≠ [])
    (same : ∀ cteName ∈ tree.cteNames, findCTE cteList cteName = findCTE scope cteName) :
    (∀ ref, resolveColumn scope tree name = .ok ref →
      (PlannerFinds scope cteList tree name ref ↔ NamedAlike scope tree name)) ∧
    ∀ columns, tree.columns scope = some columns →
      (columns.filter (TableColumn.denotedBy name)).length ≠ 1 →
      ∃ error, resolveColumn scope tree name = .error error := by
  constructor
  · intro ref resolved
    obtain ⟨result, internal, answered⟩ := except_bind resolved
    obtain ⟨columns, there, found, only, rfl⟩ := resolved_denotes named internal
    cases found with
    | none => cases answered
    | some column =>
        obtain rfl := Except.ok.inj answered
        exact ⟨named_alike there (same_columns same) only,
          planner_finds there (same_columns same) only⟩
  · intro columns there several
    cases resolved : resolveColumn scope tree name with
    | error error => exact ⟨error, rfl⟩
    | ok ref =>
        obtain ⟨result, internal, answered⟩ := except_bind resolved
        obtain ⟨columns', there', found, only, rfl⟩ := resolved_denotes named internal
        obtain rfl := Option.some.inj (there.symm.trans there')
        cases found with
        | none => cases answered
        | some column => exact absurd (by rw [only]; rfl) several

theorem dotless_names {first second : List Identifier} (some : first ≠ []) (others : second ≠ [])
    (dotless : ∀ part ∈ first ++ second, '.' ∉ part) (same : dotted first = dotted second) :
    first = second := by
  have left :=
    List.splitOn_intercalate '.' (fun part member =>
      dotless part (List.mem_append_left _ member)) some
  have right :=
    List.splitOn_intercalate '.' (fun part member =>
      dotless part (List.mem_append_right _ member)) others
  rw [← left, ← right]
  exact congrArg (List.splitOn '.') same

theorem dotless_alike {scope : CTEList} {tree : BoundTableRef} {columns : List TableColumn}
    (there : tree.columns scope = some columns)
    (dotless : ∀ column ∈ columns, ∀ part ∈ column.aliasName :: column.parts, '.' ∉ part)
    (kept : ∀ column ∈ columns, column.bound = column.aliasName) (name : List Identifier) :
    NamedAlike scope tree name := by
  intro columns' there' column inside _
  obtain rfl := Option.some.inj (there.symm.trans there')
  refine ⟨kept column inside, fun other among sameName => ?_⟩
  apply dotless_names (List.cons_ne_nil _ _) (List.cons_ne_nil _ _) _ sameName
  intro part member
  rcases List.mem_append.mp member with member | member
  · exact dotless other among part member
  · exact dotless column inside part member

/-! ### Two trees -/

/-- `WITH c AS (SELECT x FROM t)`. -/
def oneCTE : CTEList := [⟨[[['t'], ['x']]], ['c'], by decide⟩]

/-- `FROM c, t AS a`. -/
def besideCTE : BoundTableRef :=
  .crossProduct (.cte ['c'] ['c']) (.baseTable ['t'] (some ['a']) [['X'], ['y']])

theorem beside_found : PlannerFinds oneCTE oneCTE besideCTE [['a'], ['x']] [['a'], ['X']] := by
  have agreed :=
    planner_finds_iff oneCTE oneCTE besideCTE [['a'], ['x']] (by decide) (fun _ _ => rfl)
  apply (agreed.1 [['a'], ['X']] rfl).mpr
  exact @dotless_alike oneCTE besideCTE _ rfl (by decide) (by decide) _

/-- `FROM c AS d`. -/
def renamedCTE : BoundTableRef := .cte ['c'] ['d']

/-- The binder takes `d.x` for `c.t.x`, the column of the plan is `d.t.x`. -/
theorem renamed_not_found :
    ¬∀ (ctes : CTEList) (tree : BoundTableRef) (name : List Identifier), name ≠ [] →
      (∀ ref, resolveColumn ctes tree name = .ok ref → PlannerFinds ctes ctes tree name ref) ∧
      ∀ columns, tree.columns ctes = some columns →
        (columns.filter (TableColumn.denotedBy name)).length ≠ 1 →
        ∃ error, resolveColumn ctes tree name = .error error := by
  intro claim
  obtain ⟨schema, colIdx, columns, column, planned, found, -⟩ :=
    (claim oneCTE renamedCTE [['d'], ['x']] (by decide)).1 [['c'], ['t'], ['x']] rfl
  obtain rfl := Option.some.inj planned
  obtain ⟨-, here⟩ := plan_column_ok found
  have member := List.mem_of_getElem? here
  exact absurd member (by decide)

end BusTub
