import Mathlib.Data.List.Nodup
import Mathlib.Data.List.Basic

/-!
Doubly linked lists whose iterators stay valid: an iterator names a node, and
a node keeps its name until it is erased. Names are never used twice in one
list, so an iterator kept after its node is gone points at nothing.
-/

namespace BusTub

/-- The nodes front first, each with its name; `next` is the name the next
pushed node gets. -/
structure StdList (α : Type) where
  next : Nat
  nodes : List (Nat × α)
  bounded : ∀ node ∈ nodes, node.1 < next
  distinct : (nodes.map Prod.fst).Nodup

namespace StdList

variable {α : Type} {list : StdList α} {value : α} {iter : Nat} {node : Nat × α}

def empty : StdList α := ⟨0, [], by simp, by simp⟩

def toList (list : StdList α) : List α := list.nodes.map Prod.snd

def size (list : StdList α) : Nat := list.nodes.length

/-- The iterator of the front node; the end iterator when there is none. -/
def begin (list : StdList α) : Nat :=
  match list.nodes with
  | [] => list.next
  | node :: _ => node.1

def back? (list : StdList α) : Option α := list.toList.getLast?

def pushFront (list : StdList α) (value : α) : StdList α where
  next := list.next + 1
  nodes := (list.next, value) :: list.nodes
  bounded := by
    intro node member
    rcases List.mem_cons.mp member with same | old
    · simp [same]
    · exact Nat.lt_succ_of_lt (list.bounded node old)
  distinct := by
    rw [List.map_cons, List.nodup_cons]
    refine ⟨?_, list.distinct⟩
    intro member
    obtain ⟨node, inside, same⟩ := List.mem_map.mp member
    have limit := list.bounded node inside
    omega

def erase (list : StdList α) (iter : Nat) : StdList α where
  next := list.next
  nodes := list.nodes.filter (fun node => node.1 ≠ iter)
  bounded := fun node member => list.bounded node (List.mem_filter.mp member).1
  distinct := list.distinct.sublist (List.filter_sublist.map Prod.fst)

def popBack (list : StdList α) : StdList α where
  next := list.next
  nodes := list.nodes.dropLast
  bounded := fun node member => list.bounded node (List.dropLast_subset _ member)
  distinct := list.distinct.sublist ((List.dropLast_sublist _).map Prod.fst)

@[simp] theorem to_list_empty : (empty : StdList α).toList = [] := rfl

@[simp] theorem to_list_push_front (list : StdList α) (value : α) :
    (list.pushFront value).toList = value :: list.toList := rfl

@[simp] theorem begin_push_front (list : StdList α) (value : α) :
    (list.pushFront value).begin = list.next := rfl

@[simp] theorem to_list_pop_back (list : StdList α) :
    list.popBack.toList = list.toList.dropLast := by
  simp [toList, popBack, List.map_dropLast]

theorem mem_to_list :
    value ∈ list.toList ↔ ∃ iter, (iter, value) ∈ list.nodes := by
  simp [toList]

theorem size_eq_length (list : StdList α) : list.size = list.toList.length := by
  simp [size, toList]

theorem mem_nodes_push_front :
    node ∈ (list.pushFront value).nodes ↔ node = (list.next, value) ∨ node ∈ list.nodes := by
  simp [pushFront]

theorem mem_nodes_erase :
    node ∈ (list.erase iter).nodes ↔ node ∈ list.nodes ∧ node.1 ≠ iter := by
  simp [erase]

/-- One name, one node: what an iterator points at is determined. -/
theorem node_value_unique {left right : α} (first : (iter, left) ∈ list.nodes)
    (second : (iter, right) ∈ list.nodes) : left = right := by
  have same := List.inj_on_of_nodup_map list.distinct first second rfl
  exact congrArg Prod.snd same

private theorem filter_named_nodes (nodes : List (Nat × α)) (distinct : (nodes.map Prod.fst).Nodup)
    [DecidableEq α] (unique : (nodes.map Prod.snd).Nodup) (member : (iter, value) ∈ nodes) :
    (nodes.filter (fun node => node.1 ≠ iter)).map Prod.snd = (nodes.map Prod.snd).erase value := by
  induction nodes with
  | nil => simp at member
  | cons node rest ih =>
      simp only [List.map_cons, List.nodup_cons] at distinct unique
      rcases List.mem_cons.mp member with same | later
      · subst same
        have kept : rest.filter (fun node => node.1 ≠ iter) = rest := by
          rw [List.filter_eq_self]
          intro node inside
          have absent := distinct.1
          simp only [ne_eq, decide_eq_true_eq]
          intro hit
          exact absent (List.mem_map.mpr ⟨node, inside, hit⟩)
        rw [List.filter_cons_of_neg (by simp), kept]
        simp
      · have otherName : node.1 ≠ iter := by
          intro hit
          exact distinct.1 (List.mem_map.mpr ⟨(iter, value), later, hit.symm⟩)
        have otherValue : node.2 ≠ value := by
          intro hit
          exact unique.1 (List.mem_map.mpr ⟨(iter, value), later, hit.symm⟩)
        rw [List.filter_cons_of_pos (by simpa using otherName), List.map_cons, List.map_cons,
          ih distinct.2 unique.2 later]
        simp [otherValue]

/-- Erasing through an iterator removes the value it points at. -/
theorem to_list_erase [DecidableEq α] (unique : list.toList.Nodup)
    (member : (iter, value) ∈ list.nodes) :
    (list.erase iter).toList = list.toList.erase value :=
  filter_named_nodes list.nodes list.distinct unique member

/-! A map that stores the iterator of each value on the list, as the owner of a
list keeps them. -/

/-- Exactly the values with an iterator are on the list, each at its own node. -/
def Indexed (list : StdList α) (place : α → Option Nat) : Prop :=
  ∀ iter value, (iter, value) ∈ list.nodes ↔ place value = some iter

section Indexed
variable {list : StdList α} {place : α → Option Nat} {iter : Nat} {value : α}

theorem size_push_front (list : StdList α) (value : α) :
    (list.pushFront value).size = list.size + 1 := rfl

theorem size_pop_back (list : StdList α) : list.popBack.size = list.size - 1 := by
  simp [size, popBack]

theorem size_erase (member : (iter, value) ∈ list.nodes) :
    (list.erase iter).size + 1 = list.size := by
  have once : (list.nodes.map Prod.fst).count iter = 1 :=
    List.count_eq_one_of_mem list.distinct (List.mem_map.mpr ⟨_, member, rfl⟩)
  have named : (list.nodes.filter fun node => node.1 = iter).length = 1 := by
    rw [← List.countP_eq_length_filter, ← once, List.count, List.countP_map]
    apply List.countP_congr
    simp
  have split := List.length_eq_length_filter_add (l := list.nodes) fun node =>
    decide (node.1 = iter)
  simp only [size, erase, ne_eq, decide_not]
  omega

theorem indexed_mem (indexed : list.Indexed place) : value ∈ list.toList ↔
    (place value).isSome := by
  rw [mem_to_list, Option.isSome_iff_exists]
  exact exists_congr fun iter => indexed iter value

theorem indexed_nodup (indexed : list.Indexed place) : list.toList.Nodup := by
  apply List.Nodup.map_on _ (List.Nodup.of_map _ list.distinct)
  rintro ⟨iter, value⟩ member ⟨other, same⟩ present rfl
  have first := (indexed iter value).mp member
  have second := (indexed other value).mp present
  rw [Option.some.inj (first.symm.trans second)]

theorem indexed_size_pos (indexed : list.Indexed place) (present : (place value).isSome) :
    0 < list.size := by
  rw [size_eq_length]
  exact List.length_pos_of_mem ((indexed_mem indexed).mpr present)

section Updates
variable [DecidableEq α]
open Function (update)

theorem indexed_push (indexed : list.Indexed place) (absent : place value = none) :
    (list.pushFront value).Indexed (update place value (some list.next)) := by
  intro iter other
  rw [mem_nodes_push_front, indexed, Prod.mk.injEq]
  by_cases hit : other = value
  · subst hit
    simp [absent, eq_comm]
  · simp [hit]

theorem indexed_erase (indexed : list.Indexed place) (here : place value = some iter) :
    (list.erase iter).Indexed (update place value none) := by
  intro kept other
  rw [mem_nodes_erase, indexed]
  by_cases hit : other = value
  · subst hit
    simp [here, eq_comm]
  · rw [Function.update_of_ne hit]
    refine and_iff_left_of_imp ?_
    intro present same
    have member := (indexed kept other).mpr present
    simp only at same
    rw [same] at member
    exact hit (node_value_unique member ((indexed iter value).mpr here))

theorem indexed_pop_back (indexed : list.Indexed place) :
    list.popBack.Indexed (match list.back? with
      | some value => update place value none
      | none => place) := by
  have shape : list.popBack.nodes = list.nodes.dropLast := rfl
  rcases List.eq_nil_or_concat list.nodes with empty | ⟨front, last, whole⟩
  · have none : list.back? = none := by simp [back?, toList, empty]
    intro iter value
    rw [none, shape, empty, ← indexed, empty]
    rfl
  · have some : list.back? = some last.2 := by simp [back?, toList, whole]
    have here := (indexed last.1 last.2).mp (by simp [whole])
    have distinct := list.distinct
    rw [whole, List.concat_eq_append, List.map_append, List.nodup_append] at distinct
    intro iter value
    rw [some, shape, whole, List.concat_eq_append,
        List.dropLast_concat, ← indexed_erase indexed here, mem_nodes_erase,
      whole, List.concat_eq_append, List.mem_append, List.mem_singleton]
    constructor
    · intro member
      refine ⟨Or.inl member, ?_⟩
      exact distinct.2.2 iter (List.mem_map.mpr ⟨_, member, rfl⟩) last.1 (by simp)
    · rintro ⟨member | same, different⟩
      · exact member
      · exact absurd (congrArg Prod.fst same) different

end Updates

end Indexed

end StdList

end BusTub
