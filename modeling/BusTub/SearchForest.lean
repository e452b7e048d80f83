import Mathlib.Order.WithBot
import Mathlib.Data.List.Nodup
import Mathlib.Logic.Function.Basic

/-!
Search trees in a store of pages, level by level. A row is a list of pages of one
level, each with the fence that its keys do not go below; the children of a row
are a row again. What a change of some pages does to a tree is then said by the rows
that it leaves alone. Nothing here names a program: pages are leaves or nodes of
any type, and a node has a list of keys and children whose first key means nothing.
-/

namespace BusTub.SearchForest

variable {K P L N : Type}

/-- Pages of one level from left to right, each with its fence; the leftmost one has none. -/
abbrev Row (K P : Type) := List (WithBot K × P)

def raise (entries : List (K × P)) : Row K P :=
  entries.map fun entry => ((entry.1 : WithBot K), entry.2)

def refence (fence : WithBot K) : List (K × P) → Row K P
  | [] => []
  | entry :: rest => (fence, entry.2) :: raise rest

def fenceAt (fence : WithBot K) (left : List (K × P)) (key : K) : WithBot K :=
  if left = [] then fence else key

section Rows
variable (entries : N → List (K × P)) (pages : P → Option (L ⊕ N))

def kids (page : P) : List (K × P) :=
  match pages page with
  | some (.inr node) => entries node
  | _ => []

def expand (row : Row K P) : Row K P :=
  row.flatMap fun slot => refence slot.1 (kids entries pages slot.2)

def fringe : Nat → Row K P → Row K P
  | 0, row => row
  | height + 1, row => fringe height (expand entries pages row)

def Forest (OkLeaf : P → L → Prop) (OkNode : P → N → Prop) : Nat → Row K P → Prop
  | 0, row => ∀ slot ∈ row, ∃ leaf, pages slot.2 = some (.inl leaf) ∧ OkLeaf slot.2 leaf
  | height + 1, row =>
      (∀ slot ∈ row, ∃ node, pages slot.2 = some (.inr node) ∧ entries node ≠ [] ∧
        OkNode slot.2 node) ∧ Forest OkLeaf OkNode height (expand entries pages row)

inductive Descent (root : P) : List P → Row K P → WithBot K → P → Row K P → Prop where
  | here : Descent root [] [] ⊥ root []
  | down {path : List P} {before after : Row K P} {fence : WithBot K} {page child : P} {node : N}
      {left right : List (K × P)} {key : K} :
      Descent root path before fence page after → pages page = some (.inr node) →
      entries node = left ++ (key, child) :: right →
      Descent root (page :: path) (expand entries pages before ++ refence fence left)
        (fenceAt fence left key) child (raise right ++ expand entries pages after)

end Rows

section Rows
variable {entries : N → List (K × P)} {pages other : P → Option (L ⊕ N)} {OkLeaf : P → L → Prop}
  {OkNode : P → N → Prop} {front back row : Row K P} {height : Nat} {page : P} {fence : WithBot K}
  {Leaf : P → L → Prop} {Node : P → N → Prop} {node : N} {slot : WithBot K × P}

@[simp] theorem raise_nil : raise ([] : List (K × P)) = [] := rfl

@[simp] theorem raise_cons (entry : K × P) (rest : List (K × P)) :
    raise (entry :: rest) = ((entry.1 : WithBot K), entry.2) :: raise rest := rfl

@[simp] theorem raise_append (left right : List (K × P)) :
    raise (left ++ right) = raise left ++ raise right := by
  simp [raise]

theorem raise_pages (list : List (K × P)) : (raise list).map Prod.snd = list.map Prod.snd := by
  simp [raise]

theorem refence_pages (fence : WithBot K) (list : List (K × P)) :
    (refence fence list).map Prod.snd = list.map Prod.snd := by
  cases list with
  | nil => rfl
  | cons entry rest => simp [refence, raise_pages]

theorem refence_append (fence : WithBot K) {left : List (K × P)} (right : List (K × P))
    (more : left ≠ []) :
    refence fence (left ++ right) = refence fence left ++ raise right := by
  cases left with
  | nil => exact absurd rfl more
  | cons entry rest => simp [refence]

theorem refence_cut (fence : WithBot K) (left : List (K × P)) (key : K) (child : P)
    (right : List (K × P)) :
    refence fence (left ++ (key, child) :: right) =
      refence fence left ++ (fenceAt fence left key, child) :: raise right := by
  by_cases first : left = []
  · simp [first, refence, fenceAt]
  · simp [refence_append fence _ first, fenceAt, first]

@[simp] theorem expand_nil : expand entries pages ([] : Row K P) = [] := rfl

@[simp] theorem expand_append :
    expand entries pages (front ++ back) = expand entries pages front ++
      expand entries pages back := by
  simp [expand]

@[simp] theorem expand_cons (slot : WithBot K × P) :
    expand entries pages (slot :: row) = refence slot.1 (kids entries pages slot.2) ++
      expand entries pages row := by
  simp [expand]

theorem kids_node (found : pages page = some (.inr node)) :
    kids entries pages page = entries node := by
  simp [kids, found]

theorem fringe_append : fringe entries pages height (front ++ back) =
    fringe entries pages height front ++ fringe entries pages height back := by
  induction height generalizing front back with
  | zero => rfl
  | succ height ih =>
      simp only [fringe, expand_append]
      exact ih

theorem fringe_cons (slot : WithBot K × P) : fringe entries pages height (slot :: row) =
    fringe entries pages height [slot] ++ fringe entries pages height row := by
  rw [← fringe_append]
  rfl

theorem fringe_succ :
    fringe entries pages (height + 1) row =
      expand entries pages (fringe entries pages height row) := by
  induction height generalizing row with
  | zero => rfl
  | succ height ih =>
      rw [fringe, ih]
      rfl

theorem forest_append : Forest entries pages OkLeaf OkNode height (front ++ back) ↔
    Forest entries pages OkLeaf OkNode height front ∧
    Forest entries pages OkLeaf OkNode height back := by
  induction height generalizing front back with
  | zero => simp only [Forest, List.forall_mem_append]
  | succ height ih =>
      simp only [Forest, List.forall_mem_append, expand_append, ih]
      tauto

theorem forest_cons (slot : WithBot K × P) :
    Forest entries pages OkLeaf OkNode height (slot :: row) ↔
      Forest entries pages OkLeaf OkNode height [slot] ∧
      Forest entries pages OkLeaf OkNode height row := by
  rw [← forest_append]
  rfl

theorem forest_nil : Forest entries pages OkLeaf OkNode height ([] : Row K P) := by
  induction height with
  | zero => simp [Forest]
  | succ height ih => exact ⟨by simp, ih⟩

theorem forest_mem (forest : Forest entries pages OkLeaf OkNode height row) (member : slot ∈ row) :
    Forest entries pages OkLeaf OkNode height [slot] := by
  obtain ⟨left, right, rfl⟩ := List.append_of_mem member
  exact ((forest_cons slot).mp (forest_append.mp forest).2).1

theorem forest_subset (forest : Forest entries pages OkLeaf OkNode height row)
    (inside : ∀ slot ∈ front, slot ∈ row) :
    Forest entries pages OkLeaf OkNode height front := by
  induction front with
  | nil => exact forest_nil
  | cons slot front ih =>
      rw [forest_cons]
      exact ⟨forest_mem forest (inside slot List.mem_cons_self), ih fun other member =>
        inside other (List.mem_cons_of_mem _ member)⟩

/-- Pages of a forest that are good in one way may be good in another one. -/
theorem forest_mono (forest : Forest entries pages OkLeaf OkNode height row)
    (better : ∀ page above fence, above ≤ height →
      Forest entries pages OkLeaf OkNode above [(fence, page)] →
      (∀ leaf, OkLeaf page leaf → Leaf page leaf) ∧ ∀ node, OkNode page node → Node page node) :
    Forest entries pages Leaf Node height row := by
  induction height generalizing row with
  | zero =>
      intro slot member
      obtain ⟨leaf, found, good⟩ := forest slot member
      exact ⟨leaf, found,
        (better slot.2 0 slot.1 (le_refl _) (forest_mem forest member)).1 leaf good⟩
  | succ height ih =>
      refine ⟨fun slot member => ?_, ih forest.2 fun page above fence low =>
        better page above fence (by omega)⟩
      obtain ⟨node, found, more, good⟩ := forest.1 slot member
      exact ⟨node, found, more,
        (better slot.2 (height + 1) slot.1 (le_refl _) (forest_mem forest member)).2 node good⟩

/-- Another store in which the pages of all rows are the same has the same forest. -/
theorem forest_same (forest : Forest entries pages OkLeaf OkNode height row)
    (same : ∀ depth ≤ height, ∀ slot ∈ fringe entries pages depth row,
      other slot.2 = pages slot.2) :
    Forest entries other OkLeaf OkNode height row ∧
      fringe entries other height row = fringe entries pages height row := by
  have here : ∀ slot ∈ row, other slot.2 = pages slot.2 := same 0 (Nat.zero_le _)
  induction height generalizing row with
  | zero =>
      refine ⟨fun slot member => ?_, rfl⟩
      rw [here slot member]
      exact forest slot member
  | succ height ih =>
      have below : expand entries other row = expand entries pages row := by
        unfold expand
        apply List.flatMap_congr
        intro slot member
        simp [kids, here slot member]
      have deeper : ∀ depth ≤ height,
          ∀ slot ∈ fringe entries pages depth (expand entries pages row), other slot.2 =
            pages slot.2 := fun depth low => same (depth + 1) (by omega)
      obtain ⟨lower, rest⟩ := ih forest.2 deeper (deeper 0 (Nat.zero_le _))
      refine ⟨⟨fun slot member => ?_, ?_⟩, ?_⟩
      · rw [here slot member]
        exact forest.1 slot member
      · rw [below]
        exact lower
      · rw [fringe, fringe, below, rest]

/-- Pages that are good in one way and in a row of the forest may be good in another one. -/
theorem forest_better (forest : Forest entries pages OkLeaf OkNode height row)
    (better : ∀ depth ≤ height, ∀ slot ∈ fringe entries pages depth row,
      (∀ leaf, pages slot.2 = some (.inl leaf) → OkLeaf slot.2 leaf → Leaf slot.2 leaf) ∧
        ∀ node, pages slot.2 = some (.inr node) → OkNode slot.2 node → Node slot.2 node) :
    Forest entries pages Leaf Node height row := by
  have here := better 0 (Nat.zero_le _)
  induction height generalizing row with
  | zero =>
      intro slot member
      obtain ⟨leaf, found, good⟩ := forest slot member
      exact ⟨leaf, found, (here slot member).1 leaf found good⟩
  | succ height ih =>
      have deeper := fun depth (low : depth ≤ height) => better (depth + 1) (by omega)
      refine ⟨fun slot member => ?_, ih forest.2 deeper (deeper 0 (Nat.zero_le _))⟩
      obtain ⟨node, found, more, good⟩ := forest.1 slot member
      exact ⟨node, found, more, (here slot member).2 node found good⟩

/-! Fences do not matter for what a row's pages are. -/

theorem expand_pages (same : front.map Prod.snd = back.map Prod.snd) :
    (expand entries pages front).map Prod.snd = (expand entries pages back).map Prod.snd := by
  have flat : ∀ list : Row K P, (expand entries pages list).map Prod.snd =
      (list.map Prod.snd).flatMap fun page => (kids entries pages page).map Prod.snd := by
    intro list
    simp [expand, List.map_flatMap, List.flatMap_map, refence_pages]
  rw [flat, flat, same]

theorem fringe_pages (same : front.map Prod.snd = back.map Prod.snd) :
    (fringe entries pages height front).map Prod.snd =
      (fringe entries pages height back).map Prod.snd := by
  induction height generalizing front back with
  | zero => exact same
  | succ height ih => exact ih (expand_pages same)

theorem forest_pages (same : front.map Prod.snd = back.map Prod.snd)
    (forest : Forest entries pages OkLeaf OkNode height front) :
    Forest entries pages OkLeaf OkNode height back := by
  have carried : ∀ slot ∈ back, ∃ twin ∈ front, twin.2 = slot.2 := by
    intro slot member
    have : slot.2 ∈ front.map Prod.snd := by
      rw [same]
      exact List.mem_map_of_mem member
    exact List.mem_map.mp this
  induction height generalizing front back with
  | zero =>
      intro slot member
      obtain ⟨twin, inside, page⟩ := carried slot member
      rw [← page]
      exact forest twin inside
  | succ height ih =>
      have below : (expand entries pages front).map Prod.snd =
          (expand entries pages back).map Prod.snd :=
        expand_pages same
      refine ⟨fun slot member => ?_, ih below forest.2 fun slot member => ?_⟩
      · obtain ⟨twin, inside, page⟩ := carried slot member
        rw [← page]
        exact forest.1 twin inside
      · have : slot.2 ∈ (expand entries pages front).map Prod.snd := by
          rw [below]
          exact List.mem_map_of_mem member
        exact List.mem_map.mp this

theorem forest_fence (other : WithBot K)
    (forest : Forest entries pages OkLeaf OkNode height [(fence, page)]) :
    Forest entries pages OkLeaf OkNode height [(other, page)] := by
  apply forest_pages _ forest
  rfl

/-! A page has one height, and every page has something below it. -/

theorem expand_first (found : pages page = some (.inr node)) (more : entries node ≠ []) :
    ∃ child rest, expand entries pages ((fence, page) :: row) = (fence, child) :: rest := by
  rw [expand_cons, kids_node found]
  cases list : entries node with
  | nil => exact absurd list more
  | cons entry rest => exact ⟨entry.2, _, rfl⟩

theorem height_unique {n m : Nat} {f g : WithBot K}
    (one : Forest entries pages OkLeaf OkNode n [(f, page)])
    (two : Forest entries pages OkLeaf OkNode m [(g, page)]) : n = m := by
  induction n generalizing m f g page with
  | zero =>
      obtain ⟨leaf, found, _⟩ := one _ List.mem_cons_self
      cases m with
      | zero => rfl
      | succ m =>
          obtain ⟨node, node_found, _⟩ := two.1 _ List.mem_cons_self
          rw [found] at node_found
          cases node_found
  | succ n ih =>
      obtain ⟨node, found, more, _⟩ := one.1 _ List.mem_cons_self
      cases m with
      | zero =>
          obtain ⟨leaf, leaf_found, _⟩ := two _ List.mem_cons_self
          rw [found] at leaf_found
          cases leaf_found
      | succ m =>
          -- both heights are one more than that of the first child
          cases list : entries node with
          | nil => exact absurd list more
          | cons entry rest =>
              have child : ∀ fence : WithBot K, (fence, entry.2) ∈
                expand entries pages [(fence, page)] := by
                intro fence
                simp [kids_node found, list, refence]
              rw [ih (forest_mem one.2 (child f)) (forest_mem two.2 (child g))]

theorem fringe_first (forest : Forest entries pages OkLeaf OkNode height ((fence, page) :: row)) :
    ∃ low rest, fringe entries pages height ((fence, page) :: row) = (fence, low) :: rest := by
  induction height generalizing page row with
  | zero => exact ⟨page, row, rfl⟩
  | succ height ih =>
      obtain ⟨node, found, more, _⟩ := forest.1 _ List.mem_cons_self
      obtain ⟨child, rest, below⟩ : ∃ child rest, expand entries pages ((fence, page) :: row) =
        (fence, child) :: rest :=
        expand_first found more
      have deeper := forest.2
      rw [fringe, below]
      rw [below] at deeper
      exact ih deeper

/-- The fences of a row are among those of the rows below it. -/
theorem fences_sublist (forest : Forest entries pages OkLeaf OkNode height row) :
    (row.map Prod.fst).Sublist ((fringe entries pages height row).map Prod.fst) := by
  induction row with
  | nil => simp
  | cons slot row ih =>
      obtain ⟨first, later⟩ := (forest_cons slot).mp forest
      obtain ⟨low, rest, below⟩ := fringe_first first
      rw [fringe_cons, below]
      simp only [List.map_cons, List.cons_append, List.map_append]
      exact (ih later |>.trans (List.sublist_append_right _ _)).cons_cons _

theorem fringe_subset (member : slot ∈ row) :
    ∀ low ∈ fringe entries pages height [slot], low ∈ fringe entries pages height row := by
  obtain ⟨left, right, rfl⟩ := List.append_of_mem member
  intro low inside
  rw [fringe_append, fringe_cons slot]
  exact List.mem_append_right _ (List.mem_append_left _ inside)

theorem pages_nodup (forest : Forest entries pages OkLeaf OkNode height row)
    (unique : ((fringe entries pages height row).map Prod.snd).Nodup) :
    (row.map Prod.snd).Nodup := by
  induction row with
  | nil => simp
  | cons slot row ih =>
      obtain ⟨first, later⟩ := (forest_cons slot).mp forest
      rw [fringe_cons, List.map_append, List.nodup_append] at unique
      rw [List.map_cons, List.nodup_cons]
      refine ⟨fun again => ?_, ih later unique.2.1⟩
      -- a second place of the page would have the same pages below it
      obtain ⟨twin, member, same⟩ := List.mem_map.mp again
      obtain ⟨low, rest, below⟩ := fringe_first first
      have lowFirst : low ∈ (fringe entries pages height [slot]).map Prod.snd := by simp [below]
      have lowTwin : low ∈ (fringe entries pages height [twin]).map Prod.snd := by
        rwa [fringe_pages (show [twin].map Prod.snd = [slot].map Prod.snd by simp [same])]
      obtain ⟨place, inside, rfl⟩ := List.mem_map.mp lowTwin
      exact unique.2.2 _ lowFirst _ (List.mem_map_of_mem (fringe_subset member place inside)) rfl

theorem way_pages (forest : Forest entries pages OkLeaf OkNode height [(fence, page)]) :
    ∃ list : List P, list.length = height + 1 ∧ list.Nodup ∧
      ∀ other ∈ list, ∃ above ≤ height, ∃ low : WithBot K,
        Forest entries pages OkLeaf OkNode above [(low, other)] := by
  induction height generalizing fence page with
  | zero =>
      refine ⟨[page], rfl, List.nodup_singleton page, fun other member => ⟨0, le_refl _, fence, ?_⟩⟩
      rwa [List.mem_singleton.mp member]
  | succ height ih =>
      obtain ⟨node, found, more, _⟩ := forest.1 _ List.mem_cons_self
      obtain ⟨child, rest, below⟩ : ∃ child rest, expand entries pages [(fence, page)] =
          (fence, child) :: rest :=
        expand_first found more
      have first : Forest entries pages OkLeaf OkNode height [(fence, child)] :=
        forest_mem forest.2 (below ▸ List.mem_cons_self)
      obtain ⟨list, length, unique, lower⟩ := ih first
      refine ⟨page :: list, by simp [length], List.nodup_cons.mpr ⟨fun again => ?_, unique⟩, ?_⟩
      · obtain ⟨above, low, g, there⟩ := lower page again
        have := height_unique forest there
        omega
      · intro other member
        rcases List.mem_cons.mp member with rfl | later
        · exact ⟨height + 1, le_refl _, fence, forest⟩
        · obtain ⟨above, low, rest⟩ := lower other later
          exact ⟨above, Nat.le_succ_of_le low, rest⟩

/-! What a change of the store leaves alone. -/

def Apart (entries : N → List (K × P)) (OkLeaf : P → L → Prop) (OkNode : P → N → Prop)
    (pages other : P → Option (L ⊕ N)) (height : Nat) (row : Row K P) : Prop :=
  ∀ page, other page ≠ pages page → pages page = none ∨ ∃ fence above,
    Forest entries pages OkLeaf OkNode above [(fence, page)] ∧
      (height < above ∨ (height = above ∧ page ∉ row.map Prod.snd))

theorem found_of_forest (forest : Forest entries pages OkLeaf OkNode height [(fence, page)]) :
    pages page ≠ none := by
  cases height with
  | zero =>
      obtain ⟨leaf, found, _⟩ := forest _ List.mem_cons_self
      simp only at found
      simp [found]
  | succ height =>
      obtain ⟨node, found, _⟩ := forest.1 _ List.mem_cons_self
      simp only at found
      simp [found]

theorem same_of_apart (apart : Apart entries OkLeaf OkNode pages other height row)
    (forest : Forest entries pages OkLeaf OkNode height row) :
    ∀ slot ∈ row, other slot.2 = pages slot.2 := by
  intro slot member
  by_contra changed
  have here := forest_mem forest member
  rcases apart slot.2 changed with missing | ⟨fence, above, there, place⟩
  · exact found_of_forest here missing
  · have same := height_unique here there
    rcases place with higher | ⟨_, beside⟩
    · omega
    · exact beside (List.mem_map_of_mem member)

theorem expand_congr (same : ∀ slot ∈ row, other slot.2 = pages slot.2) :
    expand entries other row = expand entries pages row := by
  unfold expand
  apply List.flatMap_congr
  intro slot member
  simp [kids, same slot member]

theorem apart_new [DecidableEq P] (missing : pages page = none) (content : L ⊕ N) :
    Apart entries OkLeaf OkNode pages (Function.update pages page (some content)) height row := by
  intro other changed
  refine Or.inl ?_
  by_cases same : other = page
  · rw [same, missing]
  · exact absurd (Function.update_of_ne same _ _) changed

theorem apart_set [DecidableEq P] {above : Nat}
    (there : Forest entries pages OkLeaf OkNode above [(fence, page)])
    (place : height < above ∨ (height = above ∧ page ∉ row.map Prod.snd))
    (content : Option (L ⊕ N)) :
    Apart entries OkLeaf OkNode pages (Function.update pages page content) height row := by
  intro other changed
  by_cases same : other = page
  · subst same
    exact Or.inr ⟨fence, above, there, place⟩
  · exact absurd (Function.update_of_ne same _ _) changed

theorem apart_expand (apart : Apart entries OkLeaf OkNode pages other (height + 1) row) :
    Apart entries OkLeaf OkNode pages other height (expand entries pages row) := by
  intro page changed
  rcases apart page changed with missing | ⟨fence, above, there, place⟩
  · exact Or.inl missing
  · refine Or.inr ⟨fence, above, there, Or.inl ?_⟩
    omega

theorem forest_frame (apart : Apart entries OkLeaf OkNode pages other height row)
    (ground : Forest entries pages OkLeaf OkNode height row)
    (forest : Forest entries pages Leaf Node height row) :
    Forest entries other Leaf Node height row ∧ fringe entries other height row =
      fringe entries pages height row := by
  have same := same_of_apart apart ground
  induction height generalizing row with
  | zero =>
      refine ⟨fun slot member => ?_, rfl⟩
      rw [same slot member]
      exact forest slot member
  | succ height ih =>
      have below : expand entries other row = expand entries pages row := expand_congr same
      obtain ⟨deeper, rest⟩ :=
        ih (apart_expand apart) ground.2 forest.2 (same_of_apart (apart_expand apart) ground.2)
      refine ⟨⟨fun slot member => ?_, ?_⟩, ?_⟩
      · rw [same slot member]
        exact forest.1 slot member
      · rw [below]
        exact deeper
      · rw [fringe, fringe, below, rest]

/-! The way down. -/

section Ways
variable {root page : P} {path : List P} {before after : Row K P} {fence : WithBot K}

theorem descent_row (way : Descent entries pages root path before fence page after) :
    fringe entries pages path.length [((⊥ : WithBot K), root)] =
      before ++ (fence, page) :: after := by
  induction way with
  | here => rfl
  | @down path before after fence page child node left right key _ found list ih =>
      rw [List.length_cons, fringe_succ, ih]
      simp [kids_node found, list, refence_cut]

theorem forest_fringe {steps : Nat}
    (forest : Forest entries pages OkLeaf OkNode (height + steps) row) :
    Forest entries pages OkLeaf OkNode height (fringe entries pages steps row) := by
  induction steps generalizing row with
  | zero => exact forest
  | succ steps ih => exact ih forest.2

theorem fringe_fringe (steps : Nat) :
    fringe entries pages height (fringe entries pages steps row) =
      fringe entries pages (steps + height) row := by
  induction steps generalizing row with
  | zero => simp [fringe]
  | succ steps ih =>
      rw [Nat.add_right_comm]
      exact ih

/-- A part of a tree has changed below the nodes of a way down; with the row in which
it ends, the tree is one again. -/
theorem forest_lift {Leaf : P → L → Prop} {Node : P → N → Prop}
    (way : Descent entries pages root path before fence page after)
    (ground : Forest entries pages OkLeaf OkNode (height + path.length) [((⊥ : WithBot K), root)])
    (forest : Forest entries pages Leaf Node (height + path.length) [((⊥ : WithBot K), root)])
    (kept : ∀ other_page above fence, height < above →
      Forest entries pages OkLeaf OkNode above [(fence, other_page)] →
      other other_page = pages other_page)
    (changed : Forest entries other Leaf Node height (before ++ (fence, page) :: after)) :
    Forest entries other Leaf Node (height + path.length) [((⊥ : WithBot K), root)] ∧
      fringe entries other (height + path.length) [((⊥ : WithBot K), root)] =
        fringe entries other height (before ++ (fence, page) :: after) := by
  induction way generalizing height with
  | here => exact ⟨changed, rfl⟩
  | @down path before after fence page child node left right key way found list ih =>
      have row := descent_row way
      have shift : height + (path.length + 1) = height + 1 + path.length := by omega
      rw [List.length_cons, shift] at ground forest ⊢
      have upper : Forest entries pages OkLeaf OkNode (height + 1)
        (before ++ (fence, page) :: after) :=
        row ▸ forest_fringe ground
      have upperNew : Forest entries pages Leaf Node (height + 1)
        (before ++ (fence, page) :: after) :=
        row ▸ forest_fringe forest
      have same : ∀ slot ∈ before ++ (fence, page) :: after, other slot.2 = pages slot.2 :=
        fun slot member =>
          kept slot.2 (height + 1) slot.1 (Nat.lt_succ_self _) (forest_mem upper member)
      have below : expand entries other (before ++ (fence, page) :: after) =
          (expand entries pages before ++ refence fence left) ++
            (fenceAt fence left key, child) :: (raise right ++ expand entries pages after) := by
        rw [expand_congr same]
        simp [kids_node found, list, refence_cut]
      have whole : Forest entries other Leaf Node (height + 1)
        (before ++ (fence, page) :: after) := by
        refine ⟨fun slot member => ?_, below ▸ changed⟩
        rw [same slot member]
        exact upperNew.1 slot member
      obtain ⟨done, lowest⟩ :=
        ih ground forest (fun page above fence higher => kept page above fence (by omega)) whole
      refine ⟨done, ?_⟩
      rw [lowest, fringe, below]

theorem descent_last (way : Descent entries pages root path before fence page after) :
    (page :: path).getLast? = some root := by
  induction way with
  | here => rfl
  | down _ _ _ ih => exact ih

/-- The way down is the same in a store that differs only below it. -/
theorem descent_kept (way : Descent entries pages root path before fence page after)
    (ground : Forest entries pages OkLeaf OkNode (height + path.length) [((⊥ : WithBot K), root)])
    (kept : ∀ other_page above fence, height < above →
      Forest entries pages OkLeaf OkNode above [(fence, other_page)] →
      other other_page = pages other_page) :
    Descent entries other root path before fence page after := by
  induction way generalizing height with
  | here => exact Descent.here
  | @down path before after fence page child node left right key way found list ih =>
      rw [List.length_cons, show height + (path.length + 1) = height + 1 + path.length by omega]
        at ground
      have upper : Forest entries pages OkLeaf OkNode (height + 1)
        (before ++ (fence, page) :: after) :=
        descent_row way ▸ forest_fringe ground
      have same : ∀ slot ∈ before ++ (fence, page) :: after, other slot.2 = pages slot.2 :=
        fun slot member =>
          kept slot.2 (height + 1) slot.1 (Nat.lt_succ_self _) (forest_mem upper member)
      have above := ih ground fun page above fence higher => kept page above fence (by omega)
      have there : other page = some (.inr node) := (same (fence, page) (by simp)).trans found
      have down := Descent.down above there list
      rwa [expand_congr fun slot member => same slot (List.mem_append_left _ member),
        expand_congr fun slot member =>
          same slot (List.mem_append_right _ (List.mem_cons_of_mem _ member))] at down

/-- The nodes on a way down are above the page to which it leads. -/
theorem descent_levels (way : Descent entries pages root path before fence page after)
    (ground : Forest entries pages OkLeaf OkNode (height + path.length) [((⊥ : WithBot K), root)]) :
    ∀ node ∈ path, ∃ above low, height < above ∧
      Forest entries pages OkLeaf OkNode above [(low, node)] := by
  induction way generalizing height with
  | here => exact fun node member => nomatch member
  | @down path before after fence page child node left right key way found list ih =>
      rw [List.length_cons, show height + (path.length + 1) = height + 1 + path.length by omega]
        at ground
      intro node member
      rcases List.mem_cons.mp member with rfl | higher
      · have row := descent_row way ▸ forest_fringe ground
        exact ⟨height + 1, fence, Nat.lt_succ_self _, forest_mem row (by simp)⟩
      · obtain ⟨above, low, further, there⟩ := ih ground node higher
        exact ⟨above, low, by omega, there⟩

theorem expand_replaced {node : N} (found : other page = some (.inr node))
    (sameBefore : ∀ slot ∈ before, other slot.2 = pages slot.2)
    (sameAfter : ∀ slot ∈ after, other slot.2 = pages slot.2) :
    expand entries other (before ++ (fence, page) :: after) =
      expand entries pages before ++
        (refence fence (entries node) ++ expand entries pages after) := by
  rw [expand_append, expand_cons, kids_node found, expand_congr sameBefore, expand_congr sameAfter]

end Ways

end Rows

/-! Keys in order. -/

section Order
variable [LinearOrder K] {keys newKeys : P → List K} {before after row : Row K P}
  {fence : WithBot K}

def Ordered (keys : P → List K) (row : Row K P) : Prop :=
  row.Pairwise (fun slot next => slot.1 < next.1 ∧ ∀ key ∈ keys slot.2,
    (key : WithBot K) < next.1) ∧ ∀ slot ∈ row, (keys slot.2).Pairwise (· < ·) ∧
      ∀ key ∈ keys slot.2, slot.1 ≤ (key : WithBot K)

def Near (key : K) (fence : WithBot K) (after : Row K P) : Prop :=
  fence ≤ key ∧ ∀ slot ∈ after, (key : WithBot K) < slot.1

theorem ordered_append : Ordered keys (before ++ after) ↔ Ordered keys before ∧ Ordered keys after ∧
    ∀ slot ∈ before, ∀ next ∈ after, slot.1 < next.1 ∧
    ∀ key ∈ keys slot.2, (key : WithBot K) < next.1 := by
  simp only [Ordered, List.pairwise_append, List.forall_mem_append]
  tauto

theorem ordered_cons (slot : WithBot K × P) : Ordered keys (slot :: row) ↔
    ((keys slot.2).Pairwise (· < ·) ∧ ∀ key ∈ keys slot.2, slot.1 ≤ (key : WithBot K)) ∧
      Ordered keys row ∧ ∀ next ∈ row, slot.1 < next.1 ∧
      ∀ key ∈ keys slot.2, (key : WithBot K) < next.1 := by
  simp only [Ordered, List.pairwise_cons, List.forall_mem_cons]
  tauto

theorem ordered_fences (ordered : Ordered keys row) : (row.map Prod.fst).Pairwise (· < ·) :=
  List.pairwise_map.mpr (ordered.1.imp fun pair => pair.1)

theorem ordered_keys (ordered : Ordered keys row) :
    (row.flatMap fun slot => keys slot.2).Pairwise (· < ·) := by
  rw [List.pairwise_flatMap]
  refine ⟨fun slot member => (ordered.2 slot member).1, List.Pairwise.imp_of_mem ?_ ordered.1⟩
  intro slot next _ inRow pair one inOne two inTwo
  have above := (ordered.2 next inRow).2 two inTwo
  exact WithBot.coe_lt_coe.mp (lt_of_lt_of_le (pair.2 one inOne) above)

theorem ordered_congr (same : ∀ slot ∈ row, newKeys slot.2 = keys slot.2)
    (ordered : Ordered keys row) :
    Ordered newKeys row := by
  constructor
  · refine List.Pairwise.imp_of_mem ?_ ordered.1
    intro slot next member _ pair
    rw [same slot member]
    exact pair
  · intro slot member
    rw [same slot member]
    exact ordered.2 slot member

/-- A part of a row is replaced by another one that begins with the same fence. -/
theorem ordered_replace {fence : WithBot K} {page newPage : P} {part newPart : Row K P}
    (ordered : Ordered keys (before ++ ((fence, page) :: part ++ after)))
    (inner : Ordered newKeys ((fence, newPage) :: newPart))
    (below : ∀ slot ∈ (fence, newPage) :: newPart, ∀ next ∈ after,
      slot.1 < next.1 ∧ ∀ key ∈ newKeys slot.2, (key : WithBot K) < next.1)
    (sameBefore : ∀ slot ∈ before, newKeys slot.2 = keys slot.2)
    (sameAfter : ∀ slot ∈ after, newKeys slot.2 = keys slot.2) :
    Ordered newKeys (before ++ ((fence, newPage) :: newPart ++ after)) := by
  obtain ⟨left, rest, across⟩ := ordered_append.mp ordered
  obtain ⟨_, right, _⟩ := ordered_append.mp rest
  have above : ∀ slot ∈ (fence, newPage) :: newPart, fence ≤ slot.1 := by
    intro slot member
    rcases List.mem_cons.mp member with rfl | later
    · exact le_refl _
    · exact (((ordered_cons _).mp inner).2.2 slot later).1.le
  rw [ordered_append, ordered_append]
  refine ⟨ordered_congr sameBefore left, ⟨inner, ordered_congr sameAfter right, below⟩, ?_⟩
  intro slot inBefore next member
  rw [sameBefore slot inBefore]
  have atFence := across slot inBefore (fence, page) (by simp)
  rcases List.mem_append.mp member with inPart | inAfter
  · have up := above next inPart
    exact ⟨lt_of_lt_of_le atFence.1 up, fun key inside => lt_of_lt_of_le (atFence.2 key inside) up⟩
  · exact across slot inBefore next (List.mem_append_right _ inAfter)

theorem ordered_near {page : P} {key : K}
    (ordered : Ordered keys (before ++ (fence, page) :: after)) (near : Near key fence after)
    {slot : WithBot K × P} (member : slot ∈ before ++ (fence, page) :: after)
    (inside : key ∈ keys slot.2) : slot = (fence, page) := by
  obtain ⟨_, rest, across⟩ := ordered_append.mp ordered
  rcases List.mem_append.mp member with inBefore | later
  · have := (across slot inBefore (fence, page) List.mem_cons_self).2 key inside
    exact absurd near.1 (not_le.mpr this)
  · rcases List.mem_cons.mp later with same | inAfter
    · exact same
    · have low := (rest.2 slot (List.mem_cons_of_mem _ inAfter)).2 key inside
      exact absurd (near.2 slot inAfter) (not_lt.mpr low)

variable {entries : N → List (K × P)} {pages : P → Option (L ⊕ N)}

theorem near_down {left right : List (K × P)} {key separator : K} (near : Near key fence after)
    (nodes : ∀ slot ∈ after, ∃ node, pages slot.2 = some (.inr node) ∧ entries node ≠ [])
    (rising : ((expand entries pages after).map Prod.fst).Pairwise (· < ·))
    (low : left ≠ [] → separator ≤ key) (high : ∀ entry ∈ right, key < entry.1) :
    Near key (fenceAt fence left separator) (raise right ++ expand entries pages after) := by
  constructor
  · by_cases first : left = []
    · simpa [fenceAt, first] using near.1
    · simpa [fenceAt, first] using low first
  · intro slot member
    rcases List.mem_append.mp member with inRight | inAfter
    · obtain ⟨entry, inside, rfl⟩ := List.mem_map.mp inRight
      exact WithBot.coe_lt_coe.mpr (high entry inside)
    · cases after with
      | nil => cases inAfter
      | cons next rest =>
          obtain ⟨node, found, more⟩ := nodes next List.mem_cons_self
          obtain ⟨first, others, list⟩ : ∃ first others, expand entries pages (next :: rest) =
            (next.1, first) :: others :=
            expand_first found more
          rw [list] at inAfter rising
          have atNext := near.2 next List.mem_cons_self
          rcases List.mem_cons.mp inAfter with rfl | later
          · exact atNext
          · rw [List.map_cons, List.pairwise_cons] at rising
            exact lt_trans atNext (rising.1 _ (List.mem_map_of_mem later))

end Order

end BusTub.SearchForest
