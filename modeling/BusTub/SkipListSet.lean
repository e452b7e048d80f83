import BusTub.SkipList
import BusTub.SkipListLayers

/-!
The skip list answers like a finite set: the links of its nodes are layers of
chains, each search ends in the part where its key belongs, and the keys of all the
parts are the set.
-/

namespace BusTub.SkipList

open LinkedChain

section Nodes
variable {K : Type} {nodes : List (SkipNode K)} {place level : Nat}

def keyAt [Inhabited K] (nodes : List (SkipNode K)) (place : Nat) : K :=
  (nodes[place]?.map SkipNode.key).getD default

def heightAt (nodes : List (SkipNode K)) (place : Nat) :
    Nat := (nodes[place]?.map fun node => node.links.length).getD 0

def linkAt (nodes : List (SkipNode K)) (level place : Nat) : Option Nat :=
  (nodes[place]?.bind fun node => node.links[level]?).join

theorem height_inside (tower : level < heightAt nodes place) :
    ∃ node, nodes[place]? = some node ∧ level < node.links.length := by
  unfold heightAt at tower
  cases found : nodes[place]? with
  | none => simp [found] at tower
  | some node => exact ⟨node, rfl, by simpa [found] using tower⟩

theorem height_place (tower : level < heightAt nodes place) : place < nodes.length := by
  obtain ⟨node, found, -⟩ := height_inside tower
  exact (List.getElem?_eq_some_iff.mp found).1

theorem next_link (tower : level < heightAt nodes place) :
    next nodes place level = some (linkAt nodes level place) := by
  obtain ⟨node, found, inside⟩ := height_inside tower
  have below : ¬ node.links.length < level := by omega
  simp [next, linkAt, SkipNode.next, found, below, List.getElem?_eq_getElem inside]

theorem link_outside (short : heightAt nodes place ≤ level) : linkAt nodes level place = none := by
  unfold heightAt at short
  unfold linkAt
  cases found : nodes[place]? with
  | none => rfl
  | some node =>
      have outside : node.links.length ≤ level := by simpa [found] using short
      simp [List.getElem?_eq_none outside]

theorem node_key [Inhabited K] {node : SkipNode K} (found : nodes[place]? = some node) :
    keyAt nodes place = node.key := by
  simp [keyAt, found]

section Setting
variable (target : Option Nat) (other : Nat)

theorem get_set_next : (setNext nodes place level target)[other]? =
    if place = other then nodes[other]?.map fun node => node.setNext level target
    else nodes[other]? := by
  rw [setNext, List.getElem?_modify]
  split <;> simp

theorem set_next_key [Inhabited K] :
    keyAt (setNext nodes place level target) other = keyAt nodes other := by
  rw [keyAt, keyAt, get_set_next]
  split
  · cases found : nodes[other]? with
    | none => rfl
    | some node =>
        by_cases inside : level < node.links.length <;> simp [SkipNode.setNext, inside]
  · rfl

theorem set_next_height :
    heightAt (setNext nodes place level target) other = heightAt nodes other := by
  rw [heightAt, heightAt, get_set_next]
  split
  · cases found : nodes[other]? with
    | none => rfl
    | some node =>
        by_cases inside : level < node.links.length <;> simp [SkipNode.setNext, inside]
  · rfl

theorem set_next_link (tower : level < heightAt nodes place) (height : Nat) :
    linkAt (setNext nodes place level target) height =
      if height = level then Function.update (linkAt nodes height) place target
      else linkAt nodes height := by
  funext other
  obtain ⟨node, found, inside⟩ := height_inside tower
  rw [linkAt, get_set_next]
  by_cases here : place = other
  · subst here
    by_cases same : height = level
    · subst same
      simp [found, SkipNode.setNext, inside]
    · have apart : level ≠ height := fun equal => same equal.symm
      simp [found, SkipNode.setNext, inside, same, linkAt, List.getElem?_set_ne apart]
  · by_cases same : height = level
    · simp [here, same, linkAt, Function.update_of_ne (Ne.symm here)]
    · simp [here, same, linkAt]

end Setting

section Appending
variable (height other : Nat) (key : K)

theorem get_append (node : SkipNode K) :
    (nodes ++ [node])[other]? = if other = nodes.length then some node else nodes[other]? := by
  split
  case isTrue here => simp [here]
  case isFalse apart =>
    rcases Nat.lt_or_gt_of_ne apart with inside | beyond
    · exact List.getElem?_append_left inside
    · rw [List.getElem?_eq_none (Nat.le_of_lt beyond)]
      exact List.getElem?_eq_none (by rw [List.length_append]; exact beyond)

theorem append_key [Inhabited K] : keyAt (nodes ++ [⟨List.replicate height none, key⟩]) other =
    if other = nodes.length then key else keyAt nodes other := by
  rw [keyAt, get_append]
  split <;> rfl

theorem append_height : heightAt (nodes ++ [⟨List.replicate height none, key⟩]) other =
    if other = nodes.length then height else heightAt nodes other := by
  rw [heightAt, get_append]
  split
  · simp
  · rfl

theorem append_link :
    linkAt (nodes ++ [⟨List.replicate height none, key⟩]) level other =
      linkAt nodes level other := by
  rw [linkAt, linkAt, get_append]
  split
  case isTrue here =>
    by_cases low : level < height <;> simp [here, low]
  case isFalse => rfl

end Appending

theorem link_spec [Inhabited K] {node : Nat} (update : List Nat)
    (inside : ∀ place offset, update[offset]? = some place →
      level + offset < heightAt nodes place ∧ place ≠ node)
    (reach : level + update.length ≤ heightAt nodes node) :
    ∃ linked, link node level update nodes = some linked ∧
      (∀ place, keyAt linked place = keyAt nodes place) ∧
      (∀ place, heightAt linked place = heightAt nodes place) ∧
      (∀ offset place, update[offset]? = some place → linkAt linked (level + offset) =
        Function.update (Function.update (linkAt nodes (level + offset)) place (some node)) node
          (linkAt nodes (level + offset) place)) ∧
      ∀ height, height < level ∨ level + update.length ≤ height →
      linkAt linked height = linkAt nodes height := by
  induction update generalizing nodes level with
  | nil => exact ⟨nodes, rfl, fun _ => rfl, fun _ => rfl, by simp, fun _ _ => rfl⟩
  | cons place update ih =>
      obtain ⟨tower, apart⟩ := inside place 0 rfl
      rw [Nat.add_zero] at tower
      rw [List.length_cons] at reach
      have nodeTower : level < heightAt nodes node := by omega
      have placeTower : level <
          heightAt (setNext nodes node level (linkAt nodes level place)) place := by
        rwa [set_next_height]
      have later : ∀ other offset, update[offset]? = some other → level + 1 + offset <
          heightAt
            (setNext (setNext nodes node level (linkAt nodes level place)) place level (some node))
            other ∧ other ≠ node := by
        intro other offset found
        have there := inside other (offset + 1) (by simpa using found)
        rw [set_next_height, set_next_height]
        exact ⟨by omega, there.2⟩
      obtain ⟨linked, ran, keys, heights, links, others⟩ :=
        ih later (by rw [set_next_height, set_next_height]; omega)
      refine ⟨linked, ?_, ?_, ?_, ?_, ?_⟩
      · rw [link, next_link tower]
        exact ran
      · intro other
        rw [keys, set_next_key, set_next_key]
      · intro other
        rw [heights, set_next_height, set_next_height]
      · intro offset other found
        cases offset with
        | zero =>
            obtain rfl : place = other := Option.some.inj found
            rw [others _ (Or.inl (by omega)), set_next_link _ placeTower,
                set_next_link _ nodeTower, Nat.add_zero, if_pos rfl, if_pos rfl,
                  Function.update_comm apart]
        | succ offset =>
            have notHere : level + 1 + offset ≠ level := by omega
            have linksHere := links offset other (by simpa using found)
            rw [set_next_link _ placeTower, set_next_link _ nodeTower, if_neg notHere,
              if_neg notHere] at linksHere
            rwa [show level + (offset + 1) = level + 1 + offset by omega]
      · intro height outside
        rw [List.length_cons] at outside
        have notHere : height ≠ level := by omega
        rw [others height (by omega), set_next_link _ placeTower, set_next_link _ nodeTower,
            if_neg notHere, if_neg notHere]

/-! ### Searches -/

theorem walk_room {visited : List Nat} {cur : Nat} (unique : visited.Nodup)
    (inside : ∀ place ∈ visited, 0 < heightAt nodes place ∧ place ≠ 0)
    (header : cur < nodes.length) :
    visited.length < nodes.length := by
  have apart : (0 :: visited).Nodup :=
    List.nodup_cons.mpr ⟨fun member => (inside 0 member).2 rfl, unique⟩
  have bounded : (0 :: visited) ⊆ List.range nodes.length := by
    intro place member
    rw [List.mem_range]
    rcases List.mem_cons.mp member with rfl | member
    · omega
    · exact height_place (inside place member).1
  have short := (List.subperm_of_subset apart bounded).length_le
  rwa [List.length_cons, List.length_range] at short

section Searches
variable [Inhabited K] {compare : K → K → Bool} {key : K}

/-- A walk stops in front of the first node that is not below the key. -/
theorem walk_chain {front back : List Nat} {stop : Option Nat} {cur fuel : Nat}
    (chain : Chain (linkAt nodes level) cur (front ++ back) stop)
    (tower : level < heightAt nodes cur)
    (linked : ∀ place next, linkAt nodes level place = some next → level < heightAt nodes next)
    (below : ∀ place ∈ front, compare (keyAt nodes place) key = true)
    (above : ∀ place ∈ back.head?.or stop, compare (keyAt nodes place) key = false)
    (room : front.length < fuel) :
    walk compare nodes key level fuel cur = some (last cur front) := by
  induction front generalizing cur fuel with
  | nil =>
      obtain ⟨fuel, rfl⟩ : ∃ less, fuel = less + 1 := ⟨fuel - 1, by simp at room; omega⟩
      have target : linkAt nodes level cur = back.head?.or stop := (chain_append.mp chain).1
      rw [walk, next_link tower]
      cases reached : back.head?.or stop with
      | none => simp [target, reached]
      | some place =>
          obtain ⟨node, found, -⟩ := height_inside (linked cur place (target.trans reached))
          have notBelow := above place reached
          rw [node_key found] at notBelow
          simp [target, reached, found, notBelow]
  | cons place front ih =>
      obtain ⟨fuel, rfl⟩ : ∃ less, fuel = less + 1 := ⟨fuel - 1, by simp at room; omega⟩
      have target : linkAt nodes level cur = some place := chain.1
      have placeTower := linked cur place target
      obtain ⟨node, found, -⟩ := height_inside placeTower
      have less := below place List.mem_cons_self
      rw [node_key found] at less
      have onward : walk compare nodes key level fuel place = some (last place front) :=
        ih chain.2 placeTower (fun other member => below other (List.mem_cons_of_mem _ member))
          (by simp only [List.length_cons] at room; omega)
      rw [walk, next_link tower, last_cons]
      simpa [target, found, less] using onward

variable {tall low high front back : List Nat} {part : Nat → List Nat}

theorem walk_upper (layers : Layers compare (keyAt nodes) (heightAt nodes) (linkAt nodes) tall part)
    (cut : Cut compare (keyAt nodes) tall part key low high front back) (level : Nat)
    (header : level + 1 < heightAt nodes 0) :
    walk compare nodes key (level + 1) nodes.length
      (last 0 (low.filter fun place => level + 1 + 1 < heightAt nodes place)) =
      some (last 0 (low.filter fun place => level + 1 < heightAt nodes place)) := by
  obtain ⟨before, after, whole, stopped⟩ := upper_split (heightAt nodes) low (level + 1)
  have chain := layers.upper (level + 1) (Nat.succ_pos level)
  have unique : (tall.filter fun place => level + 1 < heightAt nodes place).Nodup :=
    (List.nodup_cons.mp layers.apart).2.filter _
  have inside : ∀ place ∈ tall.filter (fun place => level + 1 < heightAt nodes place),
    level + 1 < heightAt nodes place ∧ place ≠ 0 := by
    intro place member
    rw [List.mem_filter, decide_eq_true_eq] at member
    exact ⟨member.2, tall_not_header layers member.1⟩
  rw [cut.tallCut, List.filter_append, whole, List.append_assoc] at chain unique inside
  have onward := (chain_append.mp chain).2
  rw [← stopped, whole, last_append]
  apply walk_chain onward
  · rcases List.mem_cons.mp (last_mem 0 before) with same | member
    · rwa [same]
    · exact (inside _ (List.mem_append_left _ member)).1
  · exact fun place next target => (layers.linked _ place next target).1
  · intro place member
    have inLow : place ∈ low.filter fun place => level + 1 < heightAt nodes place :=
      whole ▸ List.mem_append_right _ member
    exact cut.lowBelow place (List.mem_filter.mp inLow).1
  · intro place reached
    rw [Option.or_none] at reached
    exact cut.highAbove place (List.mem_filter.mp (List.mem_of_mem_head? reached)).1
  · have sub :
      after.Sublist
      (before ++
        (after ++ List.filter (fun place => decide (level + 1 < heightAt nodes place)) high)) :=
      (List.sublist_append_left after _).trans (List.sublist_append_right before _)
    apply walk_room (unique.sublist sub) _ (height_place header)
    intro place member
    have there := inside place (sub.subset member)
    exact ⟨by omega, there.2⟩

theorem walk_lowest (order : TotalOrder compare)
    (layers : Layers compare (keyAt nodes) (heightAt nodes) (linkAt nodes) tall part)
    (cut : Cut compare (keyAt nodes) tall part key low high front back)
    (header : 0 < heightAt nodes 0) :
    walk compare nodes key 0 nodes.length (last 0 low) = some (last (last 0 low) front) := by
  have here := cut_part layers cut
  have unique := part_unique order layers cut.tallCut
  have inside := part_linked layers cut.tallCut
  rw [cut.partCut] at unique inside
  obtain ⟨stop, chain, stopBeyond⟩ := here.chain
  apply walk_chain chain
  · rcases List.mem_cons.mp (last_mem 0 low) with same | member
    · rwa [same]
    · have tower := layers.towers _ (cut.tallCut ▸ List.mem_append_left high member)
      omega
  · exact fun place next target => (layers.linked _ place next target).1
  · exact cut.frontBelow
  · intro place reached
    cases back with
    | nil =>
        -- the part ends here, and what it leads on to is beyond the next tall node
        obtain ⟨bound, isBound, less⟩ := stopBeyond place (by simpa using reached)
        exact order_asymm order
          (order_le_lt order (cut.highAbove bound (List.mem_of_mem_head? isBound)) less)
    | cons first rest =>
        obtain rfl : first = place := by simpa using reached
        exact cut.backAbove first List.mem_cons_self
  · have sub : front.Sublist (front ++ back) := List.sublist_append_left front back
    apply walk_room ((List.nodup_cons.mp unique).2.sublist sub) _ (height_place header)
    exact fun place member => inside place (sub.subset member)

/-- What the loop over the levels finds, and where it has stopped on each of them. -/
theorem search_found (order : TotalOrder compare)
    (layers : Layers compare (keyAt nodes) (heightAt nodes) (linkAt nodes) tall part)
    (cut : Cut compare (keyAt nodes) tall part key low high front back) (level : Nat)
    (header : level + 1 ≤ heightAt nodes 0) :
    search compare nodes key (level + 1)
      (last 0 (low.filter fun place => level + 1 < heightAt nodes place)) =
      some (last (last 0 low) front,
        (List.range (level + 1)).map (edge (heightAt nodes) low front)) := by
  induction level with
  | zero =>
      have everyTall : (low.filter fun place => 0 + 1 < heightAt nodes place) = low := by
        apply List.filter_eq_self.mpr
        intro place member
        simpa using layers.towers place (cut.tallCut ▸ List.mem_append_left high member)
      rw [everyTall, search, walk_lowest order layers cut header]
      simp [search, edge]
  | succ level ih =>
      have stopped := walk_upper layers cut level header
      have rest := ih (Nat.le_of_succ_le header)
      rw [search, stopped]
      rw [List.range_succ, List.map_append, List.map_singleton]
      simp [rest, edge]

end Searches

end Nodes

section Sets
variable {K : Type} [Inhabited K] {maxHeight : Nat} {compare : K → K → Bool} {list : SkipList K}
  {keys : Finset K} {key : K} {height : Nat}

structure Represents (maxHeight : Nat) (compare : K → K → Bool) (list : SkipList K)
    (keys : Finset K) (tall : List Nat) (part : Nat → List Nat) : Prop where
  layers : Layers compare (keyAt list.nodes) (heightAt list.nodes) (linkAt list.nodes) tall part
  header : heightAt list.nodes 0 = maxHeight
  reached : ∀ place ∈ tall, heightAt list.nodes place ≤ list.height
  members : ∀ key, key ∈ keys ↔ ∃ place, Placed tall part place ∧ keyAt list.nodes place = key
  counted : list.size = keys.card
  bounded : list.height ≤ maxHeight
  cleared : list.height = 0 → keys = ∅

section Searched
variable {tall low high front back : List Nat} {part : Nat → List Nat}

theorem edge_header (stands : Represents maxHeight compare list keys tall part)
    (cut : Cut compare (keyAt list.nodes) tall part key low high front back) (level : Nat)
    (above : list.height ≤ level) :
    edge (heightAt list.nodes) low front level = 0 := by
  have reached : ∀ place ∈ low, heightAt list.nodes place ≤ list.height := fun place member =>
    stands.reached place (cut.tallCut ▸ List.mem_append_left _ member)
  cases level with
  | zero =>
      -- a list that was cleared has no nodes left
      have noHeight : list.height = 0 := Nat.le_zero.mp above
      have noLow : low = [] := by
        apply List.eq_nil_iff_forall_not_mem.mpr
        intro place member
        have tower := stands.layers.towers place (cut.tallCut ▸ List.mem_append_left _ member)
        have short := reached place member
        omega
      have noFront : front = [] := by
        apply List.eq_nil_iff_forall_not_mem.mpr
        intro place member
        have placed : Placed tall part place :=
          ⟨last 0 low, cut_owner cut, cut.partCut ▸ List.mem_append_left _ member⟩
        have inKeys := (stands.members _).mpr ⟨place, placed, rfl⟩
        rw [stands.cleared noHeight] at inKeys
        exact absurd inKeys (Finset.notMem_empty _)
      rw [noLow, noFront]
      rfl
  | succ level =>
      have nothing : (low.filter fun place => level + 1 < heightAt list.nodes place) = [] := by
        apply List.filter_eq_nil_iff.mpr
        intro place member
        have short := reached place member
        simp
        omega
      rw [edge, nothing]
      rfl

theorem search_list (order : TotalOrder compare)
    (stands : Represents maxHeight compare list keys tall part)
    (cut : Cut compare (keyAt list.nodes) tall part key low high front back) :
    search compare list.nodes key list.height header =
      some (last (last 0 low) front,
        (List.range list.height).map (edge (heightAt list.nodes) low front)) := by
  cases tower : list.height with
  | zero =>
      have atHeader := edge_header stands cut 0 (Nat.le_of_eq tower)
      rw [edge] at atHeader
      rw [atHeader]
      rfl
  | succ level =>
      have start : last 0 (low.filter fun place => level + 1 < heightAt list.nodes place) = 0 :=
        edge_header stands cut (level + 1) (Nat.le_of_eq tower)
      have tall := stands.bounded
      have found := search_found order stands.layers cut level (by rw [stands.header]; omega)
      rwa [start] at found

theorem edge_tower (stands : Represents maxHeight compare list keys tall part)
    (positive : 0 < maxHeight)
    (cut : Cut compare (keyAt list.nodes) tall part key low high front back) (level : Nat)
    (inside : level < maxHeight) :
    level < heightAt list.nodes (edge (heightAt list.nodes) low front level) := by
  have header := stands.header
  cases level with
  | zero =>
      rw [edge]
      rcases List.mem_cons.mp (last_mem (last 0 low) front) with same | member
      · rw [same]
        rcases List.mem_cons.mp (cut_owner cut) with isHeader | isTall
        · rw [isHeader]
          omega
        · have tower := stands.layers.towers _ isTall
          omega
      · have inPart : last (last 0 low) front ∈ part (last 0 low) :=
          cut.partCut ▸ List.mem_append_left _ member
        exact (part_linked stands.layers cut.tallCut _ inPart).1
  | succ level =>
      rw [edge]
      rcases List.mem_cons.mp
        (last_mem 0 (low.filter fun place =>
          level + 1 < heightAt list.nodes place)) with same | member
      · rw [same]
        omega
      · have kept := (List.mem_filter.mp member).2
        rwa [decide_eq_true_eq] at kept

/-- The test of the node that the search has stopped in front of. -/
theorem holds_key [DecidableEq K] (order : TotalOrder compare)
    (stands : Represents maxHeight compare list keys tall part)
    (cut : Cut compare (keyAt list.nodes) tall part key low high front back) :
    holdsKey compare list.nodes key (linkAt list.nodes 0 (last (last 0 low) front)) =
      some (decide (key ∈ keys)) := by
  obtain ⟨stop, chain, stopBeyond⟩ := (cut_part stands.layers cut).chain
  have target : linkAt list.nodes 0 (last (last 0 low) front) = back.head?.or stop :=
    chain_last (chain_append.mp chain).1
  have present : ∀ place, keyAt list.nodes place = key → Placed tall part place →
      ∃ rest, back = place :: rest :=
    fun place keyed placed => placed_back order stands.layers cut placed keyed
  cases back with
  | nil =>
      have absent : key ∉ keys := by
        intro member
        obtain ⟨place, placed, keyed⟩ := (stands.members key).mp member
        obtain ⟨rest, empty⟩ := present place keyed placed
        simp at empty
      rw [decide_eq_false absent, target, List.head?_nil, Option.none_or]
      cases stop with
      | none => rfl
      | some place =>
          obtain ⟨bound, isBound, less⟩ := stopBeyond place rfl
          have beyond :=
            order_le_lt order (cut.highAbove bound (List.mem_of_mem_head? isBound)) less
          obtain ⟨node, found, -⟩ := height_inside (stands.layers.linked 0 _ place target).1
          rw [node_key found] at beyond
          simp [holdsKey, found, beyond]
  | cons first rest =>
      obtain ⟨node, found, -⟩ := height_inside (stands.layers.linked 0 _ first target).1
      have notBelow := cut.backAbove first List.mem_cons_self
      have keyed := node_key found
      rw [keyed] at notBelow
      rw [target]
      simp only [List.head?_cons, Option.some_or, holdsKey, found, Option.pure_def,
        Option.bind_eq_bind, Option.bind_some,
        notBelow, Bool.not_false, Bool.true_and]
      congr 1
      by_cases member : key ∈ keys
      · obtain ⟨place, placed, sameKey⟩ := (stands.members key).mp member
        obtain ⟨others, whole⟩ := present place sameKey placed
        obtain rfl : first = place := (List.cons.inj whole).1
        rw [← keyed, sameKey, order.irrefl, decide_eq_true member]
        rfl
      · have different : keyAt list.nodes first ≠ key := by
          intro same
          have inPart : first ∈ part (last 0 low) := by
            rw [cut.partCut]
            exact List.mem_append_right _ List.mem_cons_self
          exact member ((stands.members key).mpr ⟨first, ⟨_, cut_owner cut, inPart⟩, same⟩)
        rw [decide_eq_false member]
        cases beyond : compare key node.key with
        | true => rfl
        | false => exact absurd (keyed.trans (order.total _ _ notBelow beyond)) different

end Searched

theorem int_height (small : height < 2147483648) :
    (BitVec.ofNat 32 height).toInt = height := by
  rw [BitVec.toInt_ofNat']
  exact Int.bmod_eq_of_le (by omega) (by omega)

theorem insert_levels (small : height < 2147483648) :
    insertLevels height = height := by
  rw [insertLevels, int_height small, Int.toNat_natCast]

/-- The difference wraps around when the height is zero, and the cast takes it back. -/
theorem search_levels (small : height < 2147483648) :
    searchLevels height = height := by
  have one : BitVec.toInt (1 : BitVec 32) = 1 := by decide
  have fits : (BitVec.ofNat 32 height - 1).toInt = (height : Int) - 1 := by
    rw [BitVec.toInt_sub, int_height small, one]
    exact Int.bmod_eq_of_le (by omega) (by omega)
  rw [searchLevels, fits]
  omega

theorem climb_room (room : Nat) (rng : Nat → Nat) : climb room rng ≤ room := by
  induction room generalizing rng with
  | zero => exact Nat.le_refl 0
  | succ room ih =>
      rw [climb]
      split
      · exact Nat.succ_le_succ (ih _)
      · exact Nat.zero_le _

theorem update_entries (stops : Nat → Nat) (height newHeight : Nat)
    (above : ∀ level, height ≤ level → stops level = 0) :
    ((List.range height).map stops ++ List.replicate (newHeight - height) 0).take newHeight =
      (List.range newHeight).map stops := by
  rcases Nat.le_total newHeight height with short | tall
  · have none : newHeight - height = 0 := Nat.sub_eq_zero_of_le short
    rw [none, List.replicate_zero, List.append_nil, ← List.map_take, List.take_range,
      Nat.min_eq_left short]
  · obtain ⟨more, rfl⟩ : ∃ more, newHeight = height + more := ⟨newHeight - height, by omega⟩
    have headers : ((List.range more).map fun level => stops (height + level)) =
        List.replicate more 0 := by
      rw [List.eq_replicate_iff]
      constructor
      · simp
      · intro place member
        obtain ⟨level, -, rfl⟩ := List.mem_map.mp member
        exact above _ (Nat.le_add_right height level)
    rw [Nat.add_sub_cancel_left, List.range_add, List.map_append, List.map_map]
    rw [show (stops ∘ fun level => height + level) = fun level =>
      stops (height + level) from rfl, headers]
    exact List.take_of_length_le (by simp)

def Stands (maxHeight : Nat) (compare : K → K → Bool) (list : SkipList K)
    (keys : Finset K) : Prop :=
  ∃ tall part, Represents maxHeight compare list keys tall part

section Operations
variable {tall low high front back : List Nat} {part : Nat → List Nat} {newHeight : Nat}

theorem next_edge (stands : Represents maxHeight compare list keys tall part)
    (positive : 0 < maxHeight)
    (cut : Cut compare (keyAt list.nodes) tall part key low high front back) :
    next list.nodes (last (last 0 low) front) 0 =
      some (linkAt list.nodes 0 (last (last 0 low) front)) :=
  next_link (edge_tower stands positive cut 0 positive)

/-- Linking a new node in at every level where the search has stopped. -/
theorem link_appended (stands : Represents maxHeight compare list keys tall part)
    (positive : 0 < maxHeight)
    (cut : Cut compare (keyAt list.nodes) tall part key low high front back)
    (capped : newHeight ≤ maxHeight) :
    ∃ linked, link list.nodes.length 0
      ((List.range newHeight).map (edge (heightAt list.nodes) low front))
        (list.nodes ++ [⟨List.replicate newHeight none, key⟩]) = some linked ∧
      (∀ place, keyAt linked place = if place = list.nodes.length then key
        else keyAt list.nodes place) ∧
          (∀ place, heightAt linked place = if place = list.nodes.length then newHeight
          else heightAt list.nodes place) ∧
      ∀ level, linkAt linked level = linkNode (heightAt linked)
        (linkAt list.nodes) low front list.nodes.length level := by
  have sameLinks : linkAt (list.nodes ++ [⟨List.replicate newHeight none, key⟩]) =
      linkAt list.nodes :=
    funext fun level => funext fun place => append_link newHeight place key
  have inside :
    ∀ place offset, ((List.range newHeight).map (edge (heightAt list.nodes) low front))[offset]? =
      some place →
        0 + offset < heightAt (list.nodes ++ [⟨List.replicate newHeight none, key⟩]) place ∧
          place ≠ list.nodes.length := by
    intro place offset found
    obtain ⟨level, isLevel, rfl⟩ := List.getElem?_eq_some_iff.mp found
    simp only [List.length_map, List.length_range] at level
    simp only [List.getElem_map, List.getElem_range]
    have tower := edge_tower stands positive cut offset (Nat.lt_of_lt_of_le level capped)
    have old := Nat.ne_of_lt (height_place tower)
    rw [append_height, if_neg old, Nat.zero_add]
    exact ⟨tower, old⟩
  have reach : 0 + ((List.range newHeight).map (edge (heightAt list.nodes) low front)).length ≤
      heightAt (list.nodes ++ [⟨List.replicate newHeight none, key⟩]) list.nodes.length := by
    rw [append_height, if_pos rfl, List.length_map, List.length_range]
    omega
  obtain ⟨linked, ran, sameKeys, sameHeights, links, others⟩ := link_spec _ inside reach
  have heights :
    ∀ place, heightAt linked place = if place = list.nodes.length then newHeight
      else heightAt list.nodes place :=
    fun place => (sameHeights place).trans (append_height newHeight place key)
  refine ⟨linked, ran, fun place => (sameKeys place).trans (append_key newHeight place key),
    heights, ?_⟩
  have oldHeights : ∀ place, 0 < heightAt list.nodes place →
      heightAt linked place = heightAt list.nodes place := by
    intro place tower
    rw [heights, if_neg (Nat.ne_of_lt (height_place tower))]
  intro level
  have towered : heightAt linked list.nodes.length = newHeight := by rw [heights, if_pos rfl]
  rw [linkNode, towered, edge_congr oldHeights stands.layers cut level]
  split
  case isTrue reached =>
    have entry : ((List.range newHeight).map (edge (heightAt list.nodes) low front))[level]? =
        some (edge (heightAt list.nodes) low front level) := by
      simp [reached]
    have here := links level _ entry
    rwa [sameLinks, Nat.zero_add] at here
  case isFalse beyond =>
    have outside := others level (Or.inr (by rw [List.length_map, List.length_range]; omega))
    rwa [sameLinks] at outside

variable [DecidableEq K]

theorem contains_answer (order : TotalOrder compare) (positive : 0 < maxHeight)
    (small : maxHeight < 2147483648) (stands : Represents maxHeight compare list keys tall part)
    (key : K) :
    contains compare list key = some (decide (key ∈ keys)) := by
  obtain ⟨low, high, front, back, cut⟩ := cut_exists order stands.layers key
  have bounded := stands.bounded
  rw [contains, search_levels (by omega), search_list order stands cut]
  simp only [Option.bind_eq_bind, Option.bind_some, next_edge stands positive cut]
  exact holds_key order stands cut

/-- The list after the node that holds the key has been taken out. -/
theorem represents_erase (order : TotalOrder compare)
    (stands : Represents maxHeight compare list keys tall part) (positive : 0 < maxHeight)
    {found : Nat} {rest : List Nat}
    (cut : Cut compare (keyAt list.nodes) tall part key low high front (found :: rest))
    (keyed : keyAt list.nodes found = key) (member : key ∈ keys) :
    Represents maxHeight compare
      { list with
        nodes := setNext list.nodes (last (last 0 low) front) 0 (linkAt list.nodes 0 found)
        size := list.size - 1 }
      (keys.erase key) tall (Function.update part (last 0 low) (front ++ rest)) := by
  have tower : 0 < heightAt list.nodes (last (last 0 low) front) :=
    edge_tower stands positive cut 0 positive
  have sameKey :
    keyAt (setNext list.nodes (last (last 0 low) front) 0 (linkAt list.nodes 0 found)) =
      keyAt list.nodes :=
    funext fun place => set_next_key _ place
  have sameHeight :
    heightAt (setNext list.nodes (last (last 0 low) front) 0 (linkAt list.nodes 0 found)) =
      heightAt list.nodes :=
    funext fun place => set_next_height _ place
  refine ⟨?_, ?_, ?_, ?_, ?_, stands.bounded, ?_⟩
  · simp only [sameKey, sameHeight]
    apply layers_erase order stands.layers cut
    · intro level above
      rw [set_next_link _ tower, if_neg (by omega)]
    · rw [set_next_link _ tower, if_pos rfl]
  · simp only [sameHeight]
    exact stands.header
  · simp only [sameHeight]
    exact stands.reached
  · intro other
    simp only [sameKey, Finset.mem_erase, stands.members other,
      placed_erase order stands.layers cut keyed]
    constructor
    · rintro ⟨different, place, placed, rfl⟩
      exact ⟨place, ⟨placed, different⟩, rfl⟩
    · rintro ⟨place, ⟨placed, different⟩, rfl⟩
      exact ⟨different, place, placed, rfl⟩
  · rw [Finset.card_erase_of_mem member, ← stands.counted]
  · intro noHeight
    rw [stands.cleared noHeight] at member
    exact absurd member (Finset.notMem_empty _)

structure Removed (list after : SkipList K) (key : K) (tall : List Nat)
    (part newPart : Nat → List Nat) : Prop where
  keys : keyAt after.nodes = keyAt list.nodes
  heights : heightAt after.nodes = heightAt list.nodes
  placed : ∀ place, Placed tall newPart place ↔ Placed tall part place ∧
    keyAt list.nodes place ≠ key

theorem erase_answer (order : TotalOrder compare) (positive : 0 < maxHeight)
    (small : maxHeight < 2147483648) (stands : Represents maxHeight compare list keys tall part)
    (key : K) :
    (key ∉ keys → erase maxHeight compare list key = some (false, list)) ∧
    (key ∈ keys → ∃ after newPart, erase maxHeight compare list key = some (true, after) ∧
      Represents maxHeight compare after (keys.erase key) tall newPart ∧
        Removed list after key tall part newPart) := by
  obtain ⟨low, high, front, back, cut⟩ := cut_exists order stands.layers key
  have bounded := stands.bounded
  rw [erase, search_levels (by omega), search_list order stands cut]
  simp only [Option.bind_eq_bind, Option.bind_some, next_edge stands positive cut,
    holds_key order stands cut, decide_eq_true_eq]
  constructor
  · intro absent
    rw [if_neg absent]
    rfl
  · intro member
    obtain ⟨place, placed, keyed⟩ := (stands.members key).mp member
    obtain ⟨rest, rfl⟩ := placed_back order stands.layers cut placed keyed
    obtain ⟨level, tower⟩ : ∃ level, list.height = level + 1 := by
      cases height : list.height with
      | zero =>
          rw [stands.cleared height] at member
          exact absurd member (Finset.notMem_empty _)
      | succ level => exact ⟨level, rfl⟩
    obtain ⟨stop, chain, -⟩ := (cut_part stands.layers cut).chain
    have target : linkAt list.nodes 0 (last (last 0 low) front) = some place :=
      (chain_append.mp chain).2.1
    have placeTower := (stands.layers.linked 0 _ place target).1
    have first : (List.range (level + 1)).map (edge (heightAt list.nodes) low front) =
        last (last 0 low) front :: (List.range level).map fun below =>
          edge (heightAt list.nodes) low front (below + 1) := by
      rw [List.range_succ_eq_map, List.map_cons, List.map_map]
      rfl
    have loops : 0 < (BitVec.ofNat 32 maxHeight).toInt := by
      rw [int_height small]
      omega
    refine ⟨{ list with
        nodes := setNext list.nodes (last (last 0 low) front) 0 (linkAt list.nodes 0 place), size :=
          list.size - 1 },
      _, ?_, represents_erase order stands positive cut keyed member, funext fun other =>
        set_next_key _ other,
      funext fun other => set_next_height _ other, fun other =>
        placed_erase order stands.layers cut keyed⟩
    rw [if_pos member, tower, first]
    simp only [if_pos loops, next_edge stands positive cut, target, Option.bind_some,
      next_link placeTower]
    rfl

theorem represents_insert (order : TotalOrder compare)
    (stands : Represents maxHeight compare list keys tall part) (positive : 0 < maxHeight)
    (cut : Cut compare (keyAt list.nodes) tall part key low high front back) (absent : key ∉ keys)
    (tower : 0 < newHeight) (capped : newHeight ≤ maxHeight)
    {linked : List (SkipNode K)}
    (sameKeys : ∀ place, keyAt linked place = if place = list.nodes.length then key
      else keyAt list.nodes place)
    (sameHeights : ∀ place,
      heightAt linked place = if place = list.nodes.length then newHeight
        else heightAt list.nodes place)
    (links : ∀ level, linkAt linked level = linkNode (heightAt linked)
      (linkAt list.nodes) low front list.nodes.length level) :
    ∃ newTall newPart, Represents maxHeight compare
      { nodes := linked
        height := if list.height < newHeight then newHeight else list.height
        size := list.size + 1 }
      (Insert.insert key keys) newTall newPart ∧
      (∀ place, Placed newTall newPart place ↔ place = list.nodes.length ∨ Placed tall part place) ∧
      ∀ place, place ∈ newTall ↔ place ∈ tall ∨ place = list.nodes.length ∧ 1 < newHeight := by
  have header : heightAt list.nodes 0 = maxHeight := stands.header
  have headerTower : 0 < heightAt list.nodes 0 := by omega
  have fresh : list.nodes.length ≠ 0 := Nat.ne_of_gt (height_place headerTower)
  have old : ∀ place, 0 < heightAt list.nodes place → place ≠ list.nodes.length := fun place high =>
    Nat.ne_of_lt (height_place high)
  have oldKeys : ∀ place, 0 < heightAt list.nodes place →
      keyAt linked place = keyAt list.nodes place :=
    fun place high => by
    rw [sameKeys, if_neg (old place high)]
  have oldHeights : ∀ place, 0 < heightAt list.nodes place →
      heightAt linked place = heightAt list.nodes place :=
    fun place high => by
    rw [sameHeights, if_neg (old place high)]
  have tallHigh : ∀ place ∈ tall, 0 < heightAt list.nodes place := fun place member =>
    Nat.lt_trans Nat.zero_lt_one (stands.layers.towers place member)
  have unlinked : ∀ level place, linkAt list.nodes level place ≠ some list.nodes.length :=
    fun level place target =>
      old _ (Nat.zero_lt_of_lt (stands.layers.linked level place _ target).1) rfl
  have notTall : list.nodes.length ∉ tall := fun member => old _ (tallHigh _ member) rfl
  have keyed : keyAt linked list.nodes.length = key := by rw [sameKeys, if_pos rfl]
  have towered : heightAt linked list.nodes.length = newHeight := by rw [sameHeights, if_pos rfl]
  have layers := layers_congr oldKeys oldHeights stands.layers
  have newCut := cut_congr oldKeys stands.layers cut
  have beyond : ∀ place ∈ back, compare key (keyAt linked place) = true := by
    intro place member
    have inPart : place ∈ part (last 0 low) := cut.partCut ▸ List.mem_append_right _ member
    cases less : compare key (keyAt linked place) with
    | true => rfl
    | false =>
        have same := order.total _ _ (newCut.backAbove place member) less
        rw [oldKeys place (part_linked stands.layers cut.tallCut place inPart).1] at same
        exact absurd ((stands.members key).mpr ⟨place, ⟨_, cut_owner cut, inPart⟩, same⟩) absent
  have sameLinks : linkAt linked =
      linkNode (heightAt linked) (linkAt list.nodes) low front list.nodes.length :=
    funext links
  have linkedHeader : heightAt linked 0 = maxHeight := by rw [oldHeights 0 headerTower, header]
  have counted : list.size + 1 = (Insert.insert key keys).card := by
    rw [Finset.card_insert_of_notMem absent, stands.counted]
  have oldPlaced : ∀ place, Placed tall part place → 0 < heightAt list.nodes place := by
    rintro place ⟨owner, isOwner, member⟩
    obtain ⟨before, after, split, rfl⟩ := owner_split isOwner
    exact (part_linked stands.layers split place member).1
  -- whichever parts there are now, the new node is the only one that has been added to them
  have members : ∀ newTall newPart, (∀ place, Placed newTall newPart place ↔
      place = list.nodes.length ∨ Placed tall part place) →
      ∀ other, other ∈ Insert.insert key keys ↔
        ∃ place, Placed newTall newPart place ∧ keyAt linked place = other := by
    intro newTall newPart placed other
    rw [Finset.mem_insert, stands.members other]
    constructor
    · rintro (rfl | ⟨place, isPlaced, same⟩)
      · exact ⟨_, (placed _).mpr (Or.inl rfl), keyed⟩
      · exact ⟨place, (placed _).mpr (Or.inr isPlaced),
          (oldKeys place (oldPlaced place isPlaced)).trans same⟩
    · rintro ⟨place, isPlaced, same⟩
      rcases (placed place).mp isPlaced with rfl | isPlaced
      · exact Or.inl (same.symm.trans keyed)
      · exact Or.inr ⟨place, isPlaced, (oldKeys place (oldPlaced place isPlaced)).symm.trans same⟩
  have bounded := stands.bounded
  have oldReached :
    ∀ place ∈ tall, heightAt linked place ≤ if list.height < newHeight then newHeight
      else list.height := by
    intro place member
    have reached := stands.reached place member
    rw [oldHeights place (tallHigh place member)]
    split <;> omega
  have newReached : newHeight ≤ if list.height < newHeight then newHeight
    else list.height := by split <;> omega
  have newBounded : (if list.height < newHeight then newHeight else list.height) ≤ maxHeight := by
    split <;> omega
  have newCleared :
    (if list.height < newHeight then newHeight else list.height) = 0 →
      Insert.insert key keys = ∅ := by
    intro noHeight
    split at noHeight <;> omega
  by_cases single : newHeight = 1
  · refine ⟨tall, _, ⟨?_, linkedHeader, oldReached, members _ _ fun place =>
      placed_insert_low cut, counted, newBounded,
      newCleared⟩, fun place => placed_insert_low cut, by simp [single]⟩
    simp only [sameLinks]
    exact layers_insert_low order layers newCut fresh unlinked notTall keyed beyond
      (towered.trans single)
  · have towering : 1 < newHeight := by omega
    have tallMembers : ∀ place, place ∈ low ++ list.nodes.length :: high ↔
      place ∈ tall ∨ place = list.nodes.length := by
      intro place
      rw [cut.tallCut, List.mem_append, List.mem_append, List.mem_cons]
      tauto
    refine ⟨low ++ list.nodes.length :: high, _, ⟨?_, linkedHeader, ?_,
      members _ _ fun place =>
        placed_insert_tall cut fresh notTall, counted, newBounded, newCleared⟩,
      fun place => placed_insert_tall cut fresh notTall, by simpa [towering] using tallMembers⟩
    · simp only [sameLinks]
      exact layers_insert_tall order layers newCut fresh unlinked notTall keyed beyond
        (towered ▸ towering)
    · intro place member
      rcases (tallMembers place).mp member with member | rfl
      · exact oldReached place member
      · rw [towered]
        exact newReached

structure Added (list after : SkipList K) (key : K) (tall newTall : List Nat)
    (part newPart : Nat → List Nat) : Prop where
  keys : ∀ place, keyAt after.nodes place = if place = list.nodes.length then key
    else keyAt list.nodes place
  heights : ∀ place, place ≠ list.nodes.length →
    heightAt after.nodes place = heightAt list.nodes place
  placed : ∀ place, Placed newTall newPart place ↔ place = list.nodes.length ∨
    Placed tall part place
  towers : ∀ place, place ∈ newTall ↔ place ∈ tall ∨ place = list.nodes.length ∧
    1 < heightAt after.nodes place

theorem insert_answer (order : TotalOrder compare) (positive : 0 < maxHeight)
    (small : maxHeight < 2147483648) (stands : Represents maxHeight compare list keys tall part)
    (key : K) (rng : Nat → Nat) :
    (key ∈ keys → insert maxHeight compare list key rng = some (false, list)) ∧
    (key ∉ keys → ∃ after newTall newPart, insert maxHeight compare list key rng =
      some (true, after) ∧
        Represents maxHeight compare after (Insert.insert key keys) newTall newPart ∧
        Added list after key tall newTall part newPart) := by
  obtain ⟨low, high, front, back, cut⟩ := cut_exists order stands.layers key
  have bounded := stands.bounded
  rw [insert, insert_levels (by omega), search_list order stands cut]
  simp only [Option.bind_eq_bind, Option.bind_some, next_edge stands positive cut,
    holds_key order stands cut, decide_eq_true_eq]
  constructor
  · intro member
    rw [if_pos member]
    rfl
  · intro absent
    have grown := climb_room (maxHeight - 1) rng
    have capped : randomHeight maxHeight rng ≤ maxHeight := by
      rw [randomHeight]
      omega
    have tower : 0 < randomHeight maxHeight rng := by
      rw [randomHeight]
      omega
    rw [if_neg absent]
    generalize randomHeight maxHeight rng = newHeight at capped tower ⊢
    have fits : newHeight % UInt32.size = newHeight := Nat.mod_eq_of_lt (by rw [UInt32.size]; omega)
    have enough : ¬ ((List.range list.height).map (edge (heightAt list.nodes) low front) ++
        List.replicate (newHeight - list.height) header).length < newHeight := by
      rw [List.length_append, List.length_map, List.length_range, List.length_replicate]
      omega
    have entries :=
      update_entries (edge (heightAt list.nodes) low front) list.height newHeight
        (edge_header stands cut)
    obtain ⟨linked, ran, sameKeys, sameHeights, links⟩ := link_appended stands positive cut capped
    obtain ⟨newTall, newPart, stands, placed, towers⟩ :=
      represents_insert order stands positive cut absent tower capped sameKeys sameHeights links
    refine ⟨_, newTall, newPart, ?_, stands, sameKeys, ?_, placed, ?_⟩
    · rw [if_neg enough, fits, header, entries, ran]
      rfl
    · intro place old
      rw [sameHeights, if_neg old]
    · intro place
      rw [towers place, sameHeights]
      grind

end Operations

/-! ### Runs -/

theorem represents_cleared (maxHeight : Nat) (height : Nat) (bounded : height ≤ maxHeight) :
    Represents maxHeight compare
      (⟨[⟨List.replicate maxHeight none, default⟩], height, 0⟩ : SkipList K) ∅ [] fun _ =>
      [] := by
  have header : heightAt [(⟨List.replicate maxHeight none, default⟩ : SkipNode K)] 0 =
    maxHeight := by simp [heightAt]
  have nowhere : ∀ level place,
    linkAt [(⟨List.replicate maxHeight none, default⟩ : SkipNode K)] level place = none := by
    intro level place
    have appended := @append_link K [] level maxHeight place default
    rw [List.nil_append] at appended
    rw [appended]
    rfl
  refine ⟨⟨?_, ?_, by simp, List.Pairwise.nil, ?_, ?_⟩, header,
    by simp, ?_, rfl, bounded, fun _ => rfl⟩
  · intro level place next target
    rw [nowhere] at target
    exact absurd target (by simp)
  · simp
  · intro level _
    exact nowhere level 0
  · intro front back split
    obtain ⟨rfl, rfl⟩ := List.append_eq_nil_iff.mp split.symm
    refine ⟨⟨none, nowhere 0 0, by simp⟩, List.Pairwise.nil, by simp, by simp⟩
  · intro key
    simp [Placed]

section Runs
variable [DecidableEq K]

/-- Each call answers as on the set, and the list stands for the set after it. -/
theorem call_answer (order : TotalOrder compare) (positive : 0 < maxHeight)
    (small : maxHeight < 2147483648)
    (stands : Stands maxHeight compare list keys) (asked : Call K) :
    ∃ after, call maxHeight compare list asked = some ((onSet keys asked).1, after) ∧
      Stands maxHeight compare after (onSet keys asked).2 := by
  obtain ⟨tall, part, represents⟩ := stands
  cases asked with
  | insert key rng =>
      obtain ⟨present, absent⟩ := insert_answer order positive small represents key rng
      by_cases member : key ∈ keys
      · have same : Insert.insert key keys = keys := Finset.insert_eq_self.mpr member
        exact ⟨list, by simp [call, present member, onSet, member], tall, part,
          by simpa [onSet, same] using represents⟩
      · obtain ⟨after, newTall, newPart, ran, stands, -⟩ := absent member
        exact ⟨after, by simp [call, ran, onSet, member], newTall, newPart, stands⟩
  | erase key =>
      obtain ⟨absent, present⟩ := erase_answer order positive small represents key
      by_cases member : key ∈ keys
      · obtain ⟨after, newPart, ran, stands, -⟩ := present member
        exact ⟨after, by simp [call, ran, onSet, member], tall, newPart, stands⟩
      · have same : keys.erase key = keys := Finset.erase_eq_of_notMem member
        exact ⟨list, by simp [call, absent member, onSet, member], tall, part,
          by simpa [onSet, same] using represents⟩
  | contains key =>
      have found := contains_answer order positive small represents key
      exact ⟨list, by simp [call, found, onSet], tall, part, represents⟩
  | size => exact ⟨list, by simp [call, onSet, represents.counted], tall, part, represents⟩
  | empty => exact ⟨list, by simp [call, onSet, represents.counted], tall, part, represents⟩
  | clear =>
      exact ⟨clear maxHeight, rfl, [], fun _ => [], represents_cleared maxHeight 0 (Nat.zero_le _)⟩

theorem run_answers (order : TotalOrder compare) (positive : 0 < maxHeight)
    (small : maxHeight < 2147483648) (calls : List (Call K))
    (stands : Stands maxHeight compare list keys) :
    answers maxHeight compare list calls = some (setAnswers keys calls) := by
  induction calls generalizing list keys with
  | nil => rfl
  | cons first calls ih =>
      obtain ⟨after, ran, stands⟩ := call_answer order positive small stands first
      rw [answers, ran]
      simp [ih stands, setAnswers]

/-- From the constructor on, whatever the towers are, the answers are those of a finite set. -/
theorem answers_like_set (maxHeight : Nat) (compare : K → K → Bool) (order : TotalOrder compare)
    (positive : 0 < maxHeight) (small : maxHeight < 2147483648) (calls : List (Call K)) :
    answers maxHeight compare (new maxHeight) calls = some (setAnswers ∅ calls) :=
  run_answers order positive small calls ⟨[], fun _ => [], represents_cleared maxHeight 1 positive⟩

end Runs

end Sets

theorem less_total : TotalOrder fun first second : Nat => decide (first < second) := by
  refine ⟨?_, ?_, ?_⟩
  · simp
  · intro first second third less later
    simp only [decide_eq_true_eq] at less later ⊢
    exact Nat.lt_trans less later
  · intro first second notLess notBeyond
    simp only [decide_eq_false_iff_not, Nat.not_lt] at notLess notBeyond
    exact Nat.le_antisymm notBeyond notLess

/-- The default height, with a key that is put back on fewer levels than it had been on. -/
theorem answers_with_default_height :
    answers 14 (fun first second : Nat => decide (first < second)) (new 14)
      [.insert 3 fun _ => 4, .erase 3, .insert 3 fun _ => 1, .contains 3, .size] =
      some [.bool true, .bool true, .bool true, .bool true, .count 1] :=
  answers_like_set 14 _ less_total (by decide) (by decide) _

/-- With no level at all the header has no link to read. -/
theorem no_levels_undefined :
    answers 0 (fun first second : Nat => decide (first < second)) (new 0) [.contains 3] ≠ some
      (setAnswers ∅ [.contains 3]) := by
  decide

/-- Where the levels do not fit an `int`, the loop of `Erase` over them does not run. -/
theorem erase_unrun {maxHeight : Nat} (positive : 0 < maxHeight)
    (beyond : (BitVec.ofNat 32 maxHeight).toInt ≤ 0) :
    answers maxHeight (fun first second : Nat => decide (first < second)) (new maxHeight)
      [.insert 3 fun _ => 1, .erase 3] = some [.bool true, .bool false] := by
  obtain ⟨levels, rfl⟩ := Nat.exists_eq_succ_of_ne_zero positive.ne'
  have tower : randomHeight (levels + 1) (fun _ => 1) = 1 := by
    cases levels <;> simp [randomHeight, climb]
  have unrun : ¬0 < (BitVec.ofNat 32 (levels + 1)).toInt := not_lt.mpr beyond
  have once : insertLevels 1 = 1 ∧ searchLevels 1 = 1 := by decide
  simp [answers, call, insert, erase, new, tower, once, search, walk, next, holdsKey, link,
    setNext, header, SkipNode.next, SkipNode.setNext, List.replicate_succ, unrun]

/-- As an `int` the number of levels is negative from 2^31 on, and `Erase` does not look. -/
theorem many_levels_lost :
    answers 2147483648 (fun first second : Nat => decide (first < second)) (new 2147483648)
      [.insert 3 fun _ => 1, .erase 3] ≠ some (setAnswers ∅ [.insert 3 fun _ => 1, .erase 3]) := by
  rw [erase_unrun (by decide) (by decide)]
  decide

end BusTub.SkipList
