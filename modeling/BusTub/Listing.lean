import Mathlib.Data.List.Nodup
import Mathlib.Data.List.Perm.Basic
import Mathlib.Logic.Function.Basic

/-!
Finite partial functions by the list of their rows, which has no order: writing
one key, selecting among the rows, and expressions that may fail on a row.
Nothing here names a program.
-/

namespace BusTub.Listing

variable {Key Value Image : Type}

structure Lists (view : Key → Option Value) (rows : List (Key × Value)) : Prop where
  unique : (rows.map Prod.fst).Nodup
  rows : ∀ key value, (key, value) ∈ rows ↔ view key = some value

section Views
variable {view : Key → Option Value} {rows other : List (Key × Value)} {key : Key}
  {accepts : Value → Bool}

theorem lists_perm (lists : Lists view rows) (lists' : Lists view other) : rows.Perm other := by
  refine (List.perm_ext_iff_of_nodup lists.unique.of_map lists'.unique.of_map).mpr ?_
  rintro ⟨key, value⟩
  rw [lists.rows, lists'.rows]

def selectRow (view : Key → Option Value) (accepts : Value → Bool) (key : Key) :
    Option (Key × Value) :=
  ((view key).filter accepts).map fun value => (key, value)

theorem select_row_iff {row : Key × Value} :
    selectRow view accepts key = some row ↔ row.1 = key ∧ view key = some row.2 ∧
      accepts row.2 = true := by
  obtain ⟨place, value⟩ := row
  simp only [selectRow, Option.map_eq_some_iff, Option.filter_eq_some_iff, Prod.mk.injEq]
  constructor
  · rintro ⟨found, ⟨here, accepted⟩, rfl, rfl⟩
    exact ⟨rfl, here, accepted⟩
  · rintro ⟨rfl, here, accepted⟩
    exact ⟨value, ⟨here, accepted⟩, rfl, rfl⟩

/-- A scan of keys that leaves out nothing accepted finds the accepted rows. -/
theorem selected_perm {keys : List Key} (lists : Lists view rows) (unique : keys.Nodup)
    (covers : ∀ key value, view key = some value → accepts value = true → key ∈ keys) :
    (keys.filterMap (selectRow view accepts)).Perm (rows.filter fun row => accepts row.2) := by
  have distinct : (keys.filterMap (selectRow view accepts)).Nodup := by
    refine unique.filterMap ?_
    intro left right row first second
    rw [← (select_row_iff.mp first).1, (select_row_iff.mp second).1]
  refine (List.perm_ext_iff_of_nodup distinct (lists.unique.of_map.filter _)).mpr ?_
  rintro ⟨key, value⟩
  rw [List.mem_filterMap, List.mem_filter, lists.rows]
  constructor
  · rintro ⟨place, _, same⟩
    obtain ⟨rfl, here, accepted⟩ := select_row_iff.mp same
    exact ⟨here, accepted⟩
  · rintro ⟨here, accepted⟩
    exact ⟨key, covers key value here accepted, select_row_iff.mpr ⟨rfl, here, accepted⟩⟩

end Views

section Updates
variable [DecidableEq Key] {view : Key → Option Value} {rows : List (Key × Value)} {key : Key}

theorem lists_erase (lists : Lists view rows) :
    Lists (Function.update view key none) (rows.filter fun row => row.1 ≠ key) := by
  refine ⟨(List.filter_sublist.map _).nodup lists.unique, fun place value => ?_⟩
  by_cases same : place = key
  · subst same
    simp
  · simp [same, lists.rows]

theorem lists_insert (lists : Lists view rows) (free : view key = none) (value : Value) :
    Lists (Function.update view key (some value)) ((key, value) :: rows) := by
  refine ⟨?_, fun place row => ?_⟩
  · rw [List.map_cons, List.nodup_cons]
    refine ⟨fun member => ?_, lists.unique⟩
    obtain ⟨⟨_, row⟩, inside, rfl⟩ := List.mem_map.mp member
    cases free.symm.trans ((lists.rows _ _).mp inside)
  · by_cases same : place = key
    · subst same
      simp [lists.rows, free, eq_comm]
    · simp [same, lists.rows]

theorem lists_update (lists : Lists view rows) (value : Option Value) :
    Lists (Function.update view key value)
      ((value.toList.map fun value => (key, value)) ++ rows.filter fun row => row.1 ≠ key) := by
  have erased : Lists (Function.update view key none) (rows.filter fun row => row.1 ≠ key) :=
    lists_erase lists
  cases value with
  | none => exact erased
  | some value => simpa using lists_insert erased (Function.update_self ..) value

end Updates

section Expressions
variable {Source : Type} {evaluate : Source → Option Image} {list other : List Source}
  {images : List Image} {image : Source → Image}

theorem map_m_length (evaluated : list.mapM evaluate = some images) :
    images.length = list.length := by
  induction list generalizing images with
  | nil =>
      obtain rfl : images = [] := by simpa using evaluated.symm
      rfl
  | cons first rest ih =>
      simp only [List.mapM_cons, Option.bind_eq_bind, Option.bind_eq_some_iff] at evaluated
      obtain ⟨image, _, more, there, same⟩ := evaluated
      obtain rfl := Option.some.inj same
      rw [List.length_cons, List.length_cons, ih there]

theorem map_m_perm (perm : list.Perm other) (evaluated : list.mapM evaluate = some images) :
    ∃ others, other.mapM evaluate = some others ∧ images.Perm others := by
  induction perm generalizing images with
  | nil => exact ⟨images, evaluated, List.Perm.refl _⟩
  | cons first _ ih =>
      simp only [List.mapM_cons, Option.bind_eq_bind, Option.bind_eq_some_iff] at evaluated ⊢
      obtain ⟨image, here, more, there, same⟩ := evaluated
      obtain rfl := Option.some.inj same
      obtain ⟨others, evaluated', perm⟩ := ih there
      exact ⟨image :: others, ⟨image, here, others, evaluated', rfl⟩, perm.cons image⟩
  | swap first second rest =>
      simp only [List.mapM_cons, Option.bind_eq_bind, Option.bind_eq_some_iff] at evaluated ⊢
      obtain ⟨image, here, more, ⟨image', here', more', there, same'⟩, same⟩ := evaluated
      obtain rfl := Option.some.inj same'
      obtain rfl := Option.some.inj same
      exact ⟨image' :: image :: more',
          ⟨image', here', image :: more', ⟨image, here, more', there, rfl⟩, rfl⟩, List.Perm.swap ..⟩
  | trans _ _ ih ih' =>
      obtain ⟨middle, evaluated', perm⟩ := ih evaluated
      obtain ⟨others, evaluated'', perm'⟩ := ih' evaluated'
      exact ⟨others, evaluated'', perm.trans perm'⟩

theorem map_m_append {front back : List Image} (first : list.mapM evaluate = some front)
    (second : other.mapM evaluate = some back) :
    (list ++ other).mapM evaluate = some (front ++ back) := by
  simp [List.mapM_append, first, second]

theorem map_m_each (each : ∀ element ∈ list, evaluate element = some (image element)) :
    list.mapM evaluate = some (list.map image) := by
  induction list with
  | nil => rfl
  | cons first rest ih =>
      have others := ih fun element member => each element (List.mem_cons_of_mem _ member)
      rw [List.mapM_cons, each first List.mem_cons_self, others]
      rfl

theorem map_m_each_iff :
    list.mapM evaluate = some (list.map image) ↔
      ∀ element ∈ list, evaluate element = some (image element) := by
  refine ⟨fun evaluated => ?_, map_m_each⟩
  induction list with
  | nil => exact List.forall_mem_nil _
  | cons first rest ih =>
      simp only [List.mapM_cons, Option.bind_eq_bind, Option.bind_eq_some_iff] at evaluated
      obtain ⟨one, here, more, there, same⟩ := evaluated
      obtain ⟨rfl, rfl⟩ : one = image first ∧ more = rest.map image := by simpa using same
      exact List.forall_mem_cons.mpr ⟨here, ih there⟩

theorem map_m_congr {evaluate' : Source → Option Image}
    (same : ∀ element ∈ list, evaluate element = evaluate' element) :
    list.mapM evaluate = list.mapM evaluate' := by
  induction list with
  | nil => rfl
  | cons first rest ih =>
      have later := ih fun element member => same element (List.mem_cons_of_mem _ member)
      rw [List.mapM_cons, List.mapM_cons, same first List.mem_cons_self, later]

theorem map_m_member (evaluated : list.mapM evaluate = some images) {element : Source}
    (member : element ∈ list) :
    ∃ image ∈ images, evaluate element = some image := by
  induction list generalizing images with
  | nil => cases member
  | cons first rest ih =>
      simp only [List.mapM_cons, Option.bind_eq_bind, Option.bind_eq_some_iff] at evaluated
      obtain ⟨image, here, more, there, same⟩ := evaluated
      obtain rfl := Option.some.inj same
      rcases List.mem_cons.mp member with rfl | later
      · exact ⟨image, List.mem_cons_self, here⟩
      · obtain ⟨other, listed, found⟩ := ih there later
        exact ⟨other, List.mem_cons_of_mem _ listed, found⟩

theorem map_m_source (evaluated : list.mapM evaluate = some images) {image : Image}
    (member : image ∈ images) :
    ∃ element ∈ list, evaluate element = some image := by
  induction list generalizing images with
  | nil =>
      obtain rfl : images = [] := by simpa using evaluated.symm
      cases member
  | cons first rest ih =>
      simp only [List.mapM_cons, Option.bind_eq_bind, Option.bind_eq_some_iff] at evaluated
      obtain ⟨here, found, more, there, same⟩ := evaluated
      obtain rfl := Option.some.inj same
      rcases List.mem_cons.mp member with rfl | later
      · exact ⟨first, List.mem_cons_self, found⟩
      · obtain ⟨element, listed, gives⟩ := ih there later
        exact ⟨element, List.mem_cons_of_mem _ listed, gives⟩

theorem map_m_some (list : List Source) : (list.mapM fun element => some element) = some list := by
  induction list with
  | nil => rfl
  | cons first rest ih =>
      rw [List.mapM_cons, ih]
      rfl

end Expressions

end BusTub.Listing
