import BusTub.LinkedChain
import Mathlib.Data.List.Basic

/-!
Layers of chains, as erasing from the lowest one alone leaves them. The nodes that
have ever been on two levels (`tall`, erased ones among them) divide the keys:
behind each of them the lowest level has a part of its own, with the keys up to the
next of them, and what a part leads on to is beyond every key that is looked for in it.
-/

namespace BusTub.SkipList

open LinkedChain

structure TotalOrder {K : Type} (compare : K → K → Bool) : Prop where
  irrefl : ∀ key, compare key key = false
  trans : ∀ first second third, compare first second = true → compare second third = true →
    compare first third = true
  total : ∀ first second, compare first second = false → compare second first = false →
    first = second

section Orders
variable {K : Type} {compare : K → K → Bool} {first second third : K}

theorem order_asymm (order : TotalOrder compare) (less : compare first second = true) :
    compare second first = false := by
  cases back : compare second first with
  | false => rfl
  | true => exact absurd (order.trans _ _ _ less back) (by simp [order.irrefl])

theorem order_le_lt (order : TotalOrder compare) (front : compare second first = false)
    (back : compare second third = true) : compare first third = true := by
  cases less : compare first second with
  | true => exact order.trans _ _ _ less back
  | false => rwa [order.total first second less front]

theorem order_lt_le (order : TotalOrder compare) (front : compare first second = true)
    (back : compare third second = false) : compare first third = true := by
  cases less : compare second third with
  | true => exact order.trans _ _ _ front less
  | false => rwa [← order.total second third less back]

theorem order_le_le (order : TotalOrder compare) (front : compare second first = false)
    (back : compare third second = false) : compare third first = false := by
  cases less : compare third first with
  | false => rfl
  | true => exact absurd (order_lt_le order less front) (by simp [back])

end Orders

variable {K : Type} (compare : K → K → Bool)

/-- The part of the lowest level behind an owner, before the next tall node. The
header is `0`, and its own key does not count. -/
structure Part (key : Nat → K) (link : Nat → Option Nat) (owner : Nat) (next : Option Nat)
    (part : List Nat) : Prop where
  chain : ∃ stop, Chain link owner part stop ∧
    ∀ place ∈ stop, ∃ bound ∈ next, compare (key bound) (key place) = true
  rising : part.Pairwise fun first second => compare (key first) (key second) = true
  above : owner ≠ 0 → ∀ place ∈ part, compare (key owner) (key place) = true
  within : ∀ bound ∈ next, ∀ place ∈ part, compare (key bound) (key place) = false

structure Layers (key : Nat → K) (height : Nat → Nat) (link : Nat → Nat → Option Nat)
    (tall : List Nat) (part : Nat → List Nat) : Prop where
  linked : ∀ level place next, link level place = some next → level < height next ∧ next ≠ 0
  towers : ∀ place ∈ tall, 1 < height place
  apart : (0 :: tall).Nodup
  ascending : tall.Pairwise fun first second => compare (key second) (key first) = false
  upper : ∀ level, 0 < level →
    Chain (link level) 0 (tall.filter fun place => level < height place) none
  lowest : ∀ front back, tall = front ++ back → Part compare key (link 0) (last 0 front) back.head?
    (part (last 0 front))

structure Cut (key : Nat → K) (tall : List Nat) (part : Nat → List Nat) (sought : K)
    (low high front back : List Nat) : Prop where
  tallCut : tall = low ++ high
  lowBelow : ∀ place ∈ low, compare (key place) sought = true
  highAbove : ∀ place ∈ high, compare (key place) sought = false
  partCut : part (last 0 low) = front ++ back
  frontBelow : ∀ place ∈ front, compare (key place) sought = true
  backAbove : ∀ place ∈ back, compare (key place) sought = false

section Cuts
variable {compare : K → K → Bool} {key : Nat → K} {height : Nat → Nat}
  {link : Nat → Nat → Option Nat} {tall low high front back : List Nat} {part : Nat → List Nat}
  {sought : K} {place : Nat} {other rest : List Nat} {found : Nat} {before after : List Nat}

theorem divide_list (order : TotalOrder compare) (sought : K) (places : List Nat)
    (ascending : places.Pairwise fun first second => compare (key second) (key first) = false) :
    ∃ low high, places = low ++ high ∧ (∀ place ∈ low, compare (key place) sought = true) ∧
      ∀ place ∈ high, compare (key place) sought = false := by
  induction places with
  | nil => exact ⟨[], [], rfl, by simp, by simp⟩
  | cons first rest ih =>
      rw [List.pairwise_cons] at ascending
      cases less : compare (key first) sought with
      | true =>
          obtain ⟨low, high, same, below, above⟩ := ih ascending.2
          refine ⟨first :: low, high, by rw [same, List.cons_append], ?_, above⟩
          simpa [less] using below
      | false =>
          refine ⟨[], first :: rest, rfl, by simp, ?_⟩
          intro place member
          rcases List.mem_cons.mp member with rfl | member
          · exact less
          · exact order_le_le order less (ascending.1 place member)

theorem rising_ascending (order : TotalOrder compare) {places : List Nat}
    (rising : places.Pairwise fun first second => compare (key first) (key second) = true) :
    places.Pairwise fun first second => compare (key second) (key first) = false :=
  rising.imp fun less => order_asymm order less

theorem cut_exists (order : TotalOrder compare) (layers : Layers compare key height link tall part)
    (sought : K) :
    ∃ low high front back, Cut compare key tall part sought low high front back := by
  obtain ⟨low, high, tallCut, lowBelow, highAbove⟩ := divide_list order sought tall layers.ascending
  have lowest := layers.lowest low high tallCut
  obtain ⟨front, back, partCut, frontBelow, backAbove⟩ :=
    divide_list order sought (part (last 0 low)) (rising_ascending order lowest.rising)
  exact ⟨low, high, front, back, tallCut, lowBelow, highAbove, partCut, frontBelow, backAbove⟩

theorem tall_not_header (layers : Layers compare key height link tall part)
    (member : place ∈ tall) :
    place ≠ 0 := by
  have apart := (List.nodup_cons.mp layers.apart).1
  rintro rfl
  exact apart member

theorem below_last (order : TotalOrder compare) (start : Nat) (rest : List Nat)
    (ascending : (start :: rest).Pairwise fun first second =>
      compare (key second) (key first) = false) :
    ∀ place ∈ start :: rest, compare (key (last start rest)) (key place) = false := by
  induction rest generalizing start with
  | nil =>
      intro place member
      rw [List.mem_singleton.mp member]
      exact order.irrefl _
  | cons address rest ih =>
      rw [List.pairwise_cons] at ascending
      intro place member
      rw [last_cons]
      rcases List.mem_cons.mp member with rfl | member
      · exact order_le_le order (ascending.1 address List.mem_cons_self)
          (ih address ascending.2 address List.mem_cons_self)
      · exact ih address ascending.2 place member

theorem prefix_below_last (order : TotalOrder compare)
    (layers : Layers compare key height link tall part) (split : tall = before ++ after) :
    ∀ place ∈ before, compare (key (last 0 before)) (key place) = false := by
  have ascending := layers.ascending
  rw [split, List.pairwise_append] at ascending
  cases before with
  | nil => simp
  | cons first rest =>
      rw [last_cons]
      exact below_last order first rest ascending.1

theorem owner_member {before : List Nat} (owned : last 0 before ≠ 0) : last 0 before ∈ before := by
  rcases List.mem_cons.mp (last_mem 0 before) with same | member
  · exact absurd same owned
  · exact member

theorem cut_part (layers : Layers compare key height link tall part)
    (cut : Cut compare key tall part sought low high front back) :
    Part compare key (link 0) (last 0 low) high.head? (front ++ back) := by
  have lowest := layers.lowest low high cut.tallCut
  rwa [cut.partCut] at lowest

theorem part_linked (layers : Layers compare key height link tall part)
    (split : tall = before ++ after) : ∀ place ∈ part (last 0 before), 0 < height place ∧
    place ≠ 0 := by
  obtain ⟨stop, chain, -⟩ := (layers.lowest before after split).chain
  intro place member
  obtain ⟨origin, target⟩ := chain_target chain place member
  exact layers.linked 0 origin place target

theorem edge_below (cut : Cut compare key tall part sought low high front back)
    (inside : last (last 0 low) front ≠ 0) :
    compare (key (last (last 0 low) front)) sought = true := by
  rcases List.mem_cons.mp (last_mem (last 0 low) front) with same | member
  · rw [same] at inside ⊢
    exact cut.lowBelow _ (owner_member inside)
  · exact cut.frontBelow _ member

theorem edge_above_owner (layers : Layers compare key height link tall part)
    (cut : Cut compare key tall part sought low high front back) (owned : last 0 low ≠ 0) :
    last (last 0 low) front = last 0 low ∨
      compare (key (last 0 low)) (key (last (last 0 low) front)) = true := by
  rcases List.mem_cons.mp (last_mem (last 0 low) front) with same | member
  · exact Or.inl same
  · exact Or.inr ((cut_part layers cut).above owned _ (List.mem_append_left _ member))

/-- The node in front of the key is outside every other part, or it is the owner and the last of
the part before. -/
theorem edge_outside (order : TotalOrder compare)
    (layers : Layers compare key height link tall part)
    (cut : Cut compare key tall part sought low high front back) (split : tall = other ++ rest)
    (different : last 0 other ≠ last 0 low) :
    last (last 0 low) front ∉ last 0 other :: part (last 0 other) ∨
      last (last 0 low) front ≠ 0 ∧
        (∃ before, part (last 0 other) = before ++ [last (last 0 low) front]) ∧
        ∃ bound ∈ rest.head?, compare (key (last (last 0 low) front)) (key bound) = false := by
  have divided := layers.lowest other rest split
  have notHeader := part_linked layers split
  rcases List.append_eq_append_iff.mp
    (cut.tallCut.symm.trans split) with ⟨between, longer, shorter⟩ | ⟨between, shorter, longer⟩
  · -- a part further on holds keys that are not below the one sought
    left
    have owned : last 0 other ∈ high := by
      subst longer
      rw [last_append] at different ⊢
      rw [shorter]
      rcases List.mem_cons.mp (last_mem (last 0 low) between) with same | member
      · exact absurd same different
      · exact List.mem_append_left _ member
    have ownerAbove := cut.highAbove _ owned
    have ownerTall : last 0 other ∈ tall := cut.tallCut ▸ List.mem_append_right _ owned
    have ownerPlace := tall_not_header layers ownerTall
    intro member
    rcases List.mem_cons.mp member with same | member
    · have below := edge_below cut (same ▸ ownerPlace)
      rw [same, ownerAbove] at below
      exact Bool.noConfusion below
    · have below := edge_below cut (notHeader _ member).2
      have beyond := order.trans _ _ _ (divided.above ownerPlace _ member) below
      rw [ownerAbove] at beyond
      exact Bool.noConfusion beyond
  · -- a part before holds keys that are not beyond the owner's
    have apartFrom : between ≠ [] := by
      rintro rfl
      rw [shorter, List.append_nil] at different
      exact different rfl
    obtain ⟨bound, between, rfl⟩ := List.exists_cons_of_ne_nil apartFrom
    have ownerLow : last 0 low ∈ bound :: between := by
      rw [shorter, last_append, last_cons]
      exact last_mem bound between
    have ownerTall : last 0 low ∈ tall := by
      have inLow : last 0 low ∈ other ++ bound :: between := List.mem_append_right _ ownerLow
      rw [← shorter] at inLow
      exact cut.tallCut ▸ List.mem_append_left high inLow
    have owned := tall_not_header layers ownerTall
    have boundBelow : compare (key (last 0 low)) (key bound) = false :=
      prefix_below_last order layers cut.tallCut bound
        (shorter ▸ List.mem_append_right _ List.mem_cons_self)
    have isBound : bound ∈ rest.head? := by rw [longer]; rfl
    by_cases member : last (last 0 low) front ∈ last 0 other :: part (last 0 other)
    · right
      have atOwner : last (last 0 low) front = last 0 low := by
        rcases edge_above_owner layers cut owned with same | above
        · exact same
        · exfalso
          rcases List.mem_cons.mp member with same | member
          · -- it would be an owner before this one, yet beyond it
            have edgePlace : last (last 0 low) front ≠ 0 := by
              intro header
              rcases List.mem_cons.mp (last_mem (last 0 low) front) with same | inFront
              · exact owned (same ▸ header)
              · have inPart : last (last 0 low) front ∈ part (last 0 low) := by
                  rw [cut.partCut]
                  exact List.mem_append_left _ inFront
                exact (part_linked layers cut.tallCut _ inPart).2 header
            have before : last 0 other ∈ low := by
              rw [shorter]
              exact List.mem_append_left _ (owner_member (same ▸ edgePlace))
            have below := prefix_below_last order layers cut.tallCut _ before
            rw [← same, above] at below
            exact Bool.noConfusion below
          · have within := divided.within bound isBound _ member
            have below := order_le_le order within boundBelow
            rw [above] at below
            exact Bool.noConfusion below
      rw [atOwner] at member ⊢
      refine ⟨owned, ?_, bound, isBound, boundBelow⟩
      rcases List.mem_cons.mp member with same | member
      · exact absurd same.symm different
      · obtain ⟨before, after, whole⟩ := List.append_of_mem member
        cases after with
        | nil => exact ⟨before, whole⟩
        | cons next after =>
            -- a place behind it would be beyond the next tall node
            have rising := divided.rising
            rw [whole, List.pairwise_append, List.pairwise_cons] at rising
            have less := rising.2.1.1 next List.mem_cons_self
            have nextMember : next ∈ part (last 0 other) := by simp [whole]
            have within := divided.within bound isBound next nextMember
            have below := order_le_le order within boundBelow
            rw [less] at below
            exact Bool.noConfusion below
    · exact Or.inl member

theorem part_unique (order : TotalOrder compare) (layers : Layers compare key height link tall part)
    (split : tall = other ++ rest) : (last 0 other :: part (last 0 other)).Nodup := by
  have divided := layers.lowest other rest split
  rw [List.nodup_cons]
  constructor
  · intro member
    have owned := (part_linked layers split _ member).2
    have less := divided.above owned _ member
    rw [order.irrefl] at less
    exact Bool.noConfusion less
  · apply divided.rising.imp
    rintro first second less rfl
    rw [order.irrefl] at less
    exact Bool.noConfusion less

/-- Changing the link of the node in front of the key leaves the other parts as they are. -/
theorem part_relinked (order : TotalOrder compare)
    (layers : Layers compare key height link tall part)
    (cut : Cut compare key tall part sought low high front back) (split : tall = other ++ rest)
    (different : last 0 other ≠ last 0 low) {relinked : Nat → Option Nat}
    (same : ∀ place ∈ last 0 other :: part (last 0 other), place ≠ last (last 0 low) front →
      relinked place = link 0 place)
    (beyond : last (last 0 low) front ≠ 0 → ∀ place ∈ relinked (last (last 0 low) front),
      compare (key (last (last 0 low) front)) (key place) = true) :
    Part compare key relinked (last 0 other) rest.head? (part (last 0 other)) := by
  have divided := layers.lowest other rest split
  obtain ⟨stop, chain, stopBeyond⟩ := divided.chain
  rcases edge_outside order layers cut split different with outside |
      ⟨inside, ⟨before, whole⟩, bound, isBound, reached⟩
  · refine ⟨⟨stop, ?_, stopBeyond⟩, divided.rising, divided.above, divided.within⟩
    apply chain_congr _ chain
    intro place member
    exact same place member fun edge => outside (edge ▸ member)
  · refine ⟨⟨relinked (last (last 0 low) front), ?_, ?_⟩, divided.rising, divided.above,
      divided.within⟩
    · have unique := part_unique order layers split
      have atEnd : last (last 0 other) (part (last 0 other)) = last (last 0 low) front := by
        rw [whole, last_append, last_cons, last_nil]
      have ended := chain_relink unique chain (relinked (last (last 0 low) front))
      rw [atEnd] at ended
      apply chain_congr _ ended
      intro place member
      by_cases edge : place = last (last 0 low) front
      · rw [edge, Function.update_self]
      · rw [Function.update_of_ne edge]
        exact same place member edge
    · intro place target
      exact ⟨bound, isBound, order_le_lt order reached (beyond inside place target)⟩

/-- Only one place of the tall nodes has the owner in front of it. -/
theorem split_unique (layers : Layers compare key height link tall part) {first second : List Nat}
    {firstRest secondRest : List Nat} (firstSplit : tall = first ++ firstRest)
    (secondSplit : tall = second ++ secondRest)
    (same : last 0 first = last 0 second) : first = second ∧ firstRest = secondRest := by
  have apart := layers.apart
  rcases List.append_eq_append_iff.mp
    (firstSplit.symm.trans secondSplit) with ⟨between, longer, shorter⟩ | ⟨between, longer, shorter⟩
  · rw [firstSplit, shorter, ← List.append_assoc] at apart
    have unique :=
      apart.sublist (List.cons_sublist_cons.mpr (List.sublist_append_left (first ++ between) _))
    have empty := last_apart 0 first between unique (longer ▸ same.symm)
    subst empty
    simp_all
  · rw [secondSplit, shorter, ← List.append_assoc] at apart
    have unique :=
      apart.sublist (List.cons_sublist_cons.mpr (List.sublist_append_left (second ++ between) _))
    have empty := last_apart 0 second between unique (longer ▸ same)
    subst empty
    simp_all

/-! ### Taking a node out of the lowest level -/

theorem edge_to_back (order : TotalOrder compare) {rest : List Nat}
    (cut : Cut compare key tall part sought low high front (found :: rest))
    (inside : last (last 0 low) front ≠ 0) :
    compare (key (last (last 0 low) front)) (key found) = true :=
  order_lt_le order (edge_below cut inside) (cut.backAbove found List.mem_cons_self)

theorem layers_erase (order : TotalOrder compare)
    (layers : Layers compare key height link tall part) {rest : List Nat}
    (cut : Cut compare key tall part sought low high front (found :: rest))
    {relinked : Nat → Nat → Option Nat}
    (upperSame : ∀ level, 0 < level → relinked level = link level)
    (lowestChanged : relinked 0 = Function.update (link 0) (last (last 0 low) front)
      (link 0 found)) :
    Layers compare key height relinked tall
      (Function.update part (last 0 low) (front ++ rest)) := by
  have here := cut_part layers cut
  refine ⟨?_, layers.towers, layers.apart, layers.ascending, ?_, ?_⟩
  · intro level place next target
    cases level with
    | zero =>
        rw [lowestChanged, Function.update_apply] at target
        split at target
        · exact layers.linked 0 found next target
        · exact layers.linked 0 place next target
    | succ level =>
        rw [upperSame (level + 1) (Nat.succ_pos level)] at target
        exact layers.linked (level + 1) place next target
  · intro level above
    rw [upperSame level above]
    exact layers.upper level above
  · intro before after split
    obtain ⟨stop, chain, stopBeyond⟩ := here.chain
    by_cases owner : last 0 before = last 0 low
    · obtain ⟨rfl, rfl⟩ := split_unique layers split cut.tallCut owner
      rw [Function.update_self, lowestChanged]
      have kept : (front ++ rest).Sublist (front ++ found :: rest) :=
        List.Sublist.append_left (List.sublist_cons_self found rest) front
      have unique := part_unique order layers split
      rw [cut.partCut] at unique
      exact ⟨⟨stop, chain_remove unique chain, stopBeyond⟩, here.rising.sublist kept,
        fun owned place member => here.above owned place (kept.subset member),
        fun bound isBound place member => here.within bound isBound place (kept.subset member)⟩
    · rw [Function.update_of_ne owner]
      apply part_relinked order layers cut split owner
      · intro place _ edge
        rw [lowestChanged, Function.update_of_ne edge]
      · intro inside place target
        rw [lowestChanged, Function.update_self] at target
        have toFound := edge_to_back order cut inside
        obtain ⟨-, following⟩ := chain_append.mp chain
        -- what comes behind the erased node is beyond it
        cases rest with
        | nil =>
            have stopped : link 0 found = stop := following.2
            rw [stopped] at target
            obtain ⟨bound, isBound, less⟩ := stopBeyond place target
            have within :=
              here.within bound isBound found (List.mem_append_right _ List.mem_cons_self)
            exact order.trans _ _ _ toFound (order_le_lt order within less)
        | cons next rest =>
            have toNext : link 0 found = some next := following.2.1
            rw [toNext] at target
            have same : next = place := Option.some.inj target
            have rising := here.rising
            rw [List.pairwise_append, List.pairwise_cons] at rising
            exact order.trans _ _ _ toFound (same ▸ rising.2.1.1 next List.mem_cons_self)

/-! ### A new node -/

def edge (height : Nat → Nat) (low front : List Nat) : Nat → Nat
  | 0 => last (last 0 low) front
  | level + 1 => last 0 (low.filter fun place => level + 1 < height place)

def linkNode (height : Nat → Nat) (link : Nat → Nat → Option Nat) (low front : List Nat)
    (node level : Nat) :
    Nat → Option Nat :=
  if level < height node then
    Function.update (Function.update (link level) (edge height low front level) (some node)) node
      (link level (edge height low front level))
  else link level

/-- Where a level leads on from where the level above has stopped. -/
theorem upper_split (height : Nat → Nat) (low : List Nat) (level : Nat) :
    ∃ before after, (low.filter fun place => level < height place) = before ++ after ∧
      last 0 before = last 0 (low.filter fun place => level + 1 < height place) := by
  have sublist :
      (low.filter fun place => level + 1 < height place) ⊆ low.filter fun place =>
        level < height place := by
    intro place member
    rw [List.mem_filter] at member ⊢
    simp only [decide_eq_true_eq] at member ⊢
    exact ⟨member.1, by omega⟩
  rcases List.mem_cons.mp
    (last_mem 0 (low.filter fun place => level + 1 < height place)) with header | member
  · exact ⟨[], _, rfl, header.symm⟩
  · obtain ⟨before, after, whole⟩ := List.append_of_mem (sublist member)
    refine ⟨before ++ [last 0 (low.filter fun place => level + 1 < height place)], after,
      by simp [whole], ?_⟩
    rw [last_append, last_cons, last_nil]

section Inserting
variable {node : Nat}

theorem part_without (unlinked : ∀ level place, link level place ≠ some node)
    (layers : Layers compare key height link tall part) {before after : List Nat}
    (split : tall = before ++ after) : node ∉ part (last 0 before) := by
  obtain ⟨stop, chain, -⟩ := (layers.lowest before after split).chain
  intro member
  obtain ⟨origin, target⟩ := chain_target chain node member
  exact unlinked 0 origin target

theorem insert_linked (layers : Layers compare key height link tall part) (fresh : node ≠ 0)
    (low front : List Nat) :
    ∀ level place next, linkNode height link low front node level place = some next →
      level < height next ∧ next ≠ 0 := by
  intro level place next target
  unfold linkNode at target
  split at target
  case isTrue reached =>
    rw [Function.update_apply] at target
    split at target
    · exact layers.linked level _ next target
    · rw [Function.update_apply] at target
      split at target
      · have same : node = next := Option.some.inj target
        exact same ▸ ⟨reached, fresh⟩
      · exact layers.linked level place next target
  case isFalse => exact layers.linked level place next target

theorem insert_level (layers : Layers compare key height link tall part)
    (tallCut : tall = low ++ high) (front : List Nat) (fresh : node ≠ 0) (notTall : node ∉ tall)
    (level : Nat) (reached : level + 1 < height node) :
    Chain (linkNode height link low front node (level + 1)) 0
      ((low ++ node :: high).filter fun place => level + 1 < height place) none := by
  have chain := layers.upper (level + 1) (Nat.succ_pos level)
  have kept : (0 :: tall.filter fun place => level + 1 < height place).Sublist (0 :: tall) :=
    List.cons_sublist_cons.mpr List.filter_sublist
  have unique := layers.apart.sublist kept
  have outside : node ∉ 0 :: tall.filter fun place => level + 1 < height place := fun member => by
    rcases List.mem_cons.mp (kept.subset member) with same | member
    · exact fresh same
    · exact notTall member
  rw [tallCut, List.filter_append] at chain unique outside
  rw [List.filter_append, List.filter_cons_of_pos (by simpa using reached), linkNode,
    if_pos reached]
  exact chain_insert unique outside chain

theorem insert_above (layers : Layers compare key height link tall part)
    (tallCut : tall = low ++ high) (front : List Nat) (level : Nat)
    (short : height node ≤ level + 1) :
    Chain (linkNode height link low front node (level + 1)) 0
      ((low ++ node :: high).filter fun place => level + 1 < height place) none := by
  have chain := layers.upper (level + 1) (Nat.succ_pos level)
  have outside : ¬ level + 1 < height node := by omega
  rw [tallCut, List.filter_append] at chain
  rwa [List.filter_append, List.filter_cons_of_neg (by simpa using outside), linkNode,
    if_neg outside]

/-- The parts of the other owners, which the new node is linked in behind or before. -/
theorem insert_other (order : TotalOrder compare)
    (layers : Layers compare key height link tall part)
    (cut : Cut compare key tall part sought low high front back) (fresh : node ≠ 0)
    (unlinked : ∀ level place, link level place ≠ some node) (notTall : node ∉ tall)
    (keyed : key node = sought) (tower : 0 < height node) {other rest : List Nat}
    (split : tall = other ++ rest) (different : last 0 other ≠ last 0 low) :
    Part compare key (linkNode height link low front node 0) (last 0 other) rest.head?
      (part (last 0 other)) := by
  have notOwner : ∀ before after, tall = before ++ after → node ≠ last 0 before := by
    intro before after whole same
    rcases List.mem_cons.mp (last_mem 0 before) with header | member
    · exact fresh (same.trans header)
    · exact notTall (whole ▸ List.mem_append_left _ (same ▸ member))
  have notEdge : last (last 0 low) front ≠ node := by
    intro same
    rcases List.mem_cons.mp (last_mem (last 0 low) front) with owner | member
    · exact notOwner low high cut.tallCut (same.symm.trans owner)
    · apply part_without unlinked layers cut.tallCut
      rw [cut.partCut, ← same]
      exact List.mem_append_left _ member
  apply part_relinked order layers cut split different
  · intro place member apart
    have notNode : place ≠ node := by
      rintro rfl
      rcases List.mem_cons.mp member with same | member
      · exact notOwner other rest split same
      · exact part_without unlinked layers split member
    rw [linkNode, if_pos tower, Function.update_of_ne notNode, edge, Function.update_of_ne apart]
  · intro inside place target
    rw [linkNode, if_pos tower, Function.update_of_ne notEdge, edge, Function.update_self] at target
    have same : node = place := Option.some.inj target
    rw [← same, keyed]
    exact edge_below cut inside

theorem insert_chain (layers : Layers compare key height link tall part)
    (order : TotalOrder compare) (cut : Cut compare key tall part sought low high front back)
    (fresh : node ≠ 0) (unlinked : ∀ level place, link level place ≠ some node)
    (notTall : node ∉ tall) (tower : 0 < height node) {stop : Option Nat}
    (chain : Chain (link 0) (last 0 low) (front ++ back) stop) :
    Chain (linkNode height link low front node 0) (last 0 low) (front ++ node :: back) stop := by
  have unique := part_unique order layers cut.tallCut
  have without := part_without unlinked layers cut.tallCut
  rw [cut.partCut] at unique without
  have outside : node ∉ last 0 low :: (front ++ back) := by
    intro member
    rcases List.mem_cons.mp member with same | member
    · rcases List.mem_cons.mp (last_mem 0 low) with header | member
      · exact fresh (same.trans header)
      · exact notTall (cut.tallCut ▸ List.mem_append_left _ (same ▸ member))
    · exact without member
  rw [linkNode, if_pos tower]
  exact chain_insert unique outside chain

theorem insert_rising (cut : Cut compare key tall part sought low high front back)
    (keyed : key node = sought) (absent : ∀ place ∈ back, compare sought (key place) = true)
    (rising : (front ++ back).Pairwise fun first second =>
      compare (key first) (key second) = true) :
    (front ++ node :: back).Pairwise fun first second =>
      compare (key first) (key second) = true := by
  rw [List.pairwise_append] at rising
  rw [List.pairwise_append, List.pairwise_cons]
  refine ⟨rising.1, ⟨keyed ▸ absent, rising.2.1⟩, ?_⟩
  intro first inFront second member
  rcases List.mem_cons.mp member with rfl | member
  · exact keyed ▸ cut.frontBelow first inFront
  · exact rising.2.2 first inFront second member

/-- A node of one level belongs to a part and to nothing else. -/
theorem layers_insert_low (order : TotalOrder compare)
    (layers : Layers compare key height link tall part)
    (cut : Cut compare key tall part sought low high front back) (fresh : node ≠ 0)
    (unlinked : ∀ level place, link level place ≠ some node) (notTall : node ∉ tall)
    (keyed : key node = sought) (absent : ∀ place ∈ back, compare sought (key place) = true)
    (single : height node = 1) :
    Layers compare key height (linkNode height link low front node) tall
      (Function.update part (last 0 low) (front ++ node :: back)) := by
  have tower : 0 < height node := by omega
  have here := cut_part layers cut
  refine ⟨insert_linked layers fresh low front, layers.towers, layers.apart,
    layers.ascending, ?_, ?_⟩
  · intro level above
    rw [linkNode, if_neg (by omega)]
    exact layers.upper level above
  · intro before after split
    by_cases owner : last 0 before = last 0 low
    · obtain ⟨rfl, rfl⟩ := split_unique layers split cut.tallCut owner
      obtain ⟨stop, chain, stopBeyond⟩ := here.chain
      rw [Function.update_self]
      refine ⟨⟨stop, insert_chain layers order cut fresh unlinked notTall tower chain, stopBeyond⟩,
        insert_rising cut keyed absent here.rising, ?_, ?_⟩
      · intro owned place member
        rcases List.mem_append.mp member with member | member
        · exact here.above owned place (List.mem_append_left _ member)
        · rcases List.mem_cons.mp member with rfl | member
          · exact keyed ▸ cut.lowBelow _ (owner_member owned)
          · exact here.above owned place (List.mem_append_right _ member)
      · intro bound isBound place member
        rcases List.mem_append.mp member with member | member
        · exact here.within bound isBound place (List.mem_append_left _ member)
        · rcases List.mem_cons.mp member with rfl | member
          · exact keyed ▸ cut.highAbove bound (List.mem_of_mem_head? isBound)
          · exact here.within bound isBound place (List.mem_append_right _ member)
    · rw [Function.update_of_ne owner]
      exact insert_other order layers cut fresh unlinked notTall keyed tower split owner

theorem insert_ascending (order : TotalOrder compare)
    (layers : Layers compare key height link tall part)
    (cut : Cut compare key tall part sought low high front back) (keyed : key node = sought) :
    (low ++ node :: high).Pairwise fun first second =>
      compare (key second) (key first) = false := by
  have ascending := layers.ascending
  rw [cut.tallCut, List.pairwise_append] at ascending
  rw [List.pairwise_append, List.pairwise_cons]
  refine ⟨ascending.1, ⟨keyed ▸ cut.highAbove, ascending.2.1⟩, ?_⟩
  intro first inLow second member
  rcases List.mem_cons.mp member with rfl | member
  · exact order_asymm order (keyed ▸ cut.lowBelow first inLow)
  · exact ascending.2.2 first inLow second member

/-- A node of more levels divides the part where its key belongs. -/
theorem layers_insert_tall (order : TotalOrder compare)
    (layers : Layers compare key height link tall part)
    (cut : Cut compare key tall part sought low high front back) (fresh : node ≠ 0)
    (unlinked : ∀ level place, link level place ≠ some node) (notTall : node ∉ tall)
    (keyed : key node = sought) (absent : ∀ place ∈ back, compare sought (key place) = true)
    (towering : 1 < height node) :
    Layers compare key height (linkNode height link low front node) (low ++ node :: high)
      (Function.update (Function.update part (last 0 low) (front ++ [node])) node back) := by
  have tower : 0 < height node := by omega
  have here := cut_part layers cut
  have member : ∀ place, place ∈ low ++ node :: high ↔ place = node ∨ place ∈ tall := by
    intro place
    rw [cut.tallCut, List.mem_append, List.mem_cons, List.mem_append]
    tauto
  have notOwner : ∀ before after, tall = before ++ after → last 0 before ≠ node := by
    intro before after whole same
    rcases List.mem_cons.mp (last_mem 0 before) with header | inside
    · exact fresh (same.symm.trans header)
    · exact notTall (whole ▸ List.mem_append_left _ (same ▸ inside))
  -- the parts that only other nodes own
  have others : ∀ before after, tall = before ++ after → last 0 before ≠ last 0 low →
      Part compare key (linkNode height link low front node 0) (last 0 before) after.head?
        (Function.update (Function.update part (last 0 low) (front ++ [node])) node back
          (last 0 before)) := by
    intro before after whole different
    rw [Function.update_of_ne (notOwner before after whole), Function.update_of_ne different]
    exact insert_other order layers cut fresh unlinked notTall keyed tower whole different
  obtain ⟨stop, chain, stopBeyond⟩ := here.chain
  have rising := insert_rising cut keyed absent here.rising
  have inserted := insert_chain layers order cut fresh unlinked notTall tower chain
  rw [show front ++ node :: back = (front ++ [node]) ++ back by simp, chain_append] at inserted
  rw [last_append, last_cons, last_nil] at inserted
  -- the part in front of the new node, and its own
  have before :
      Part compare key (linkNode height link low front node 0) (last 0 low) (some node)
        (front ++ [node]) := by
    refine ⟨⟨_, inserted.1, ?_⟩, ?_, ?_, ?_⟩
    · intro place target
      refine ⟨node, rfl, keyed ▸ ?_⟩
      cases back with
      | nil =>
          obtain ⟨bound, isBound, less⟩ := stopBeyond place (by simpa using target)
          exact order_le_lt order (cut.highAbove bound (List.mem_of_mem_head? isBound)) less
      | cons first rest =>
          have same : first = place := by simpa using target
          exact absent place (same ▸ List.mem_cons_self)
    · exact rising.sublist
        (List.Sublist.append_left (List.cons_sublist_cons.mpr (List.nil_sublist back)) front)
    · intro owned place inside
      rcases List.mem_append.mp inside with inFront | isNode
      · exact here.above owned place (List.mem_append_left _ inFront)
      · rw [List.mem_singleton.mp isNode, keyed]
        exact cut.lowBelow _ (owner_member owned)
    · intro bound isBound place inside
      have isNode : node = bound := Option.some.inj isBound
      subst isNode
      rcases List.mem_append.mp inside with inFront | isNode
      · exact order_asymm order (keyed ▸ cut.frontBelow place inFront)
      · rw [List.mem_singleton.mp isNode]
        exact order.irrefl _
  have after : Part compare key (linkNode height link low front node 0) node high.head? back := by
    refine ⟨⟨stop, inserted.2, stopBeyond⟩, ?_, ?_, ?_⟩
    · rw [List.pairwise_append] at rising
      exact (List.pairwise_cons.mp rising.2.1).2
    · intro _ place inside
      exact keyed ▸ absent place inside
    · intro bound isBound place inside
      exact here.within bound isBound place (List.mem_append_right _ inside)
  refine ⟨insert_linked layers fresh low front, ?_, ?_,
    insert_ascending order layers cut keyed, ?_, ?_⟩
  · intro place inside
    rcases (member place).mp inside with rfl | inside
    · exact towering
    · exact layers.towers place inside
  · have apart := layers.apart
    have perm : (0 :: (low ++ node :: high)).Perm (node :: 0 :: (low ++ high)) :=
      (List.Perm.cons 0 List.perm_middle).trans (List.Perm.swap node 0 _)
    rw [perm.nodup_iff, List.nodup_cons, ← cut.tallCut]
    refine ⟨?_, apart⟩
    intro inside
    rcases List.mem_cons.mp inside with header | inside
    · exact fresh header
    · exact notTall inside
  · intro level above
    obtain ⟨level, rfl⟩ : ∃ below, level = below + 1 := ⟨level - 1, by omega⟩
    by_cases reached : level + 1 < height node
    · exact insert_level layers cut.tallCut front fresh notTall level reached
    · exact insert_above layers cut.tallCut front level (by omega)
  · intro first rest split
    have ownerApart := notOwner low high cut.tallCut
    rcases List.append_eq_append_iff.mp split with ⟨between, longer, shorter⟩ |
      ⟨between, longer, shorter⟩
    · cases between with
      | nil =>
          rw [List.append_nil] at longer
          rw [longer, Function.update_of_ne ownerApart, Function.update_self]
          rw [List.nil_append] at shorter
          rw [← shorter]
          exact before
      | cons place between =>
          obtain ⟨isNode, whole⟩ : node = place ∧ high = between ++ rest := by simpa using shorter
          subst isNode
          rw [longer, last_append, last_cons]
          cases between with
          | nil =>
              rw [last_nil, Function.update_self]
              rw [List.nil_append] at whole
              exact whole ▸ after
          | cons next between =>
              -- the new node is in front of the owner
              have oldSplit : tall = (low ++ next :: between) ++ rest := by
                rw [cut.tallCut, whole, List.append_assoc]
              have sameOwner : last 0 (low ++ next :: between) = last node (next :: between) := by
                rw [last_append, last_cons, last_cons]
              rw [← sameOwner]
              apply others _ _ oldSplit
              intro same
              obtain ⟨wrong, -⟩ := split_unique layers oldSplit cut.tallCut same
              simp at wrong
    · cases between with
      | nil =>
          rw [List.append_nil] at longer
          rw [List.nil_append] at shorter
          rw [← longer, Function.update_of_ne ownerApart, Function.update_self, shorter]
          exact before
      | cons next between =>
          -- the new node is behind the next one
          have oldSplit : tall = first ++ (next :: between ++ high) := by
            rw [cut.tallCut, longer, List.append_assoc]
          have sameNext : rest.head? = (next :: between ++ high).head? := by rw [shorter]; rfl
          rw [sameNext]
          apply others _ _ oldSplit
          intro same
          obtain ⟨wrong, -⟩ := split_unique layers oldSplit cut.tallCut same
          simp [wrong] at longer

end Inserting

section Congruence
variable {otherKey : Nat → K} {otherHeight : Nat → Nat}

theorem part_congr (keys : ∀ place, 0 < height place → otherKey place = key place)
    (layers : Layers compare key height link tall part) {before after : List Nat}
    (split : tall = before ++ after) :
    Part compare otherKey (link 0) (last 0 before) after.head? (part (last 0 before)) := by
  have divided := layers.lowest before after split
  have tallKeys : ∀ place ∈ tall, otherKey place = key place := fun place member =>
    keys place (Nat.lt_trans Nat.zero_lt_one (layers.towers place member))
  have partKeys : ∀ place ∈ part (last 0 before), otherKey place = key place := fun place member =>
    keys place (part_linked layers split place member).1
  have boundKeys : ∀ bound ∈ after.head?, otherKey bound = key bound := fun bound isBound =>
    tallKeys bound (split ▸ List.mem_append_right _ (List.mem_of_mem_head? isBound))
  obtain ⟨stop, chain, stopBeyond⟩ := divided.chain
  refine ⟨⟨stop, chain, ?_⟩, ?_, ?_, ?_⟩
  · intro place target
    obtain ⟨bound, isBound, less⟩ := stopBeyond place target
    have reached : link 0 (last (last 0 before) (part (last 0 before))) = some place :=
      (chain_last chain).trans target
    refine ⟨bound, isBound, ?_⟩
    rwa [boundKeys bound isBound, keys place (layers.linked 0 _ place reached).1]
  · apply divided.rising.imp_of_mem
    intro first second inFirst inSecond less
    rwa [partKeys first inFirst, partKeys second inSecond]
  · intro owned place member
    rw [partKeys place member, tallKeys _ (split ▸ List.mem_append_left _ (owner_member owned))]
    exact divided.above owned place member
  · intro bound isBound place member
    rw [partKeys place member, boundKeys bound isBound]
    exact divided.within bound isBound place member

theorem layers_congr (keys : ∀ place, 0 < height place → otherKey place = key place)
    (heights : ∀ place, 0 < height place → otherHeight place = height place)
    (layers : Layers compare key height link tall part) :
    Layers compare otherKey otherHeight link tall part := by
  have tallHeights : ∀ place ∈ tall, otherHeight place = height place := fun place member =>
    heights place (Nat.lt_trans Nat.zero_lt_one (layers.towers place member))
  refine ⟨?_, ?_, layers.apart, ?_, ?_, fun before after split => part_congr keys layers split⟩
  · intro level place next target
    obtain ⟨tower, notHeader⟩ := layers.linked level place next target
    rw [heights next (Nat.zero_lt_of_lt tower)]
    exact ⟨tower, notHeader⟩
  · intro place member
    rw [tallHeights place member]
    exact layers.towers place member
  · apply layers.ascending.imp_of_mem
    intro first second inFirst inSecond ascending
    have towers := layers.towers
    rwa [keys first (Nat.zero_lt_of_lt (towers first inFirst)), keys second
      (Nat.zero_lt_of_lt (towers second inSecond))]
  · intro level above
    have same : (tall.filter fun place => level < otherHeight place) =
      tall.filter fun place => level < height place := by
      apply List.filter_congr
      intro place member
      rw [tallHeights place member]
    rw [same]
    exact layers.upper level above

theorem cut_congr (keys : ∀ place, 0 < height place → otherKey place = key place)
    (layers : Layers compare key height link tall part)
    (cut : Cut compare key tall part sought low high front back) :
    Cut compare otherKey tall part sought low high front back := by
  have tallKeys : ∀ place ∈ tall, otherKey place = key place := fun place member =>
    keys place (Nat.lt_trans Nat.zero_lt_one (layers.towers place member))
  have partKeys : ∀ place ∈ front ++ back, otherKey place = key place := fun place member =>
    keys place (part_linked layers cut.tallCut place (cut.partCut ▸ member)).1
  refine ⟨cut.tallCut, ?_, ?_, cut.partCut, ?_, ?_⟩
  · intro place member
    rw [tallKeys place (cut.tallCut ▸ List.mem_append_left _ member)]
    exact cut.lowBelow place member
  · intro place member
    rw [tallKeys place (cut.tallCut ▸ List.mem_append_right _ member)]
    exact cut.highAbove place member
  · intro place member
    rw [partKeys place (List.mem_append_left _ member)]
    exact cut.frontBelow place member
  · intro place member
    rw [partKeys place (List.mem_append_right _ member)]
    exact cut.backAbove place member

theorem edge_congr (heights : ∀ place, 0 < height place → otherHeight place = height place)
    (layers : Layers compare key height link tall part)
    (cut : Cut compare key tall part sought low high front back) (level : Nat) :
    edge otherHeight low front level = edge height low front level := by
  cases level with
  | zero => rfl
  | succ level =>
      rw [edge, edge]
      congr 1
      apply List.filter_congr
      intro place member
      have tower := layers.towers place (cut.tallCut ▸ List.mem_append_left _ member)
      rw [heights place (Nat.zero_lt_of_lt tower)]

end Congruence

/-! ### The places of the parts -/

def Placed (tall : List Nat) (part : Nat → List Nat) (place : Nat) : Prop :=
  ∃ owner ∈ 0 :: tall, place ∈ part owner

theorem owner_split {owner : Nat} (member : owner ∈ 0 :: tall) :
    ∃ before after, tall = before ++ after ∧ last 0 before = owner := by
  rcases List.mem_cons.mp member with rfl | member
  · exact ⟨[], tall, rfl, rfl⟩
  · obtain ⟨before, after, whole⟩ := List.append_of_mem member
    refine ⟨before ++ [owner], after, by simp [whole], ?_⟩
    rw [last_append, last_cons, last_nil]

theorem cut_owner (cut : Cut compare key tall part sought low high front back) :
    last 0 low ∈ 0 :: tall := by
  rcases List.mem_cons.mp (last_mem 0 low) with same | member
  · rw [same]
    exact List.mem_cons_self
  · exact List.mem_cons_of_mem _ (cut.tallCut ▸ List.mem_append_left _ member)

/-- A node with the key that is sought is in the part where the key belongs. -/
theorem placed_owner (layers : Layers compare key height link tall part)
    (cut : Cut compare key tall part sought low high front back) {other after : List Nat}
    (split : tall = other ++ after) (member : place ∈ part (last 0 other))
    (keyed : key place = sought) :
    last 0 other = last 0 low := by
  have divided := layers.lowest other after split
  rcases List.append_eq_append_iff.mp
    (cut.tallCut.symm.trans split) with ⟨between, longer, shorter⟩ | ⟨between, shorter, longer⟩
  · cases between with
    | nil => rw [longer, List.append_nil]
    | cons next between =>
        -- its owner would not be below the key
        have inHigh : last 0 other ∈ high := by
          rw [longer, shorter, last_append, last_cons]
          exact List.mem_append_left _ (last_mem next between)
        have owned := tall_not_header layers (cut.tallCut ▸ List.mem_append_right _ inHigh)
        have less := divided.above owned place member
        rw [keyed, cut.highAbove _ inHigh] at less
        exact Bool.noConfusion less
  · cases between with
    | nil => rw [shorter, List.append_nil]
    | cons next between =>
        -- the next tall node would be below the key
        have within := divided.within next (by rw [longer]; rfl) place member
        have inLow : next ∈ low := shorter ▸ List.mem_append_right _ List.mem_cons_self
        rw [keyed, cut.lowBelow next inLow] at within
        exact Bool.noConfusion within

theorem placed_back (order : TotalOrder compare) (layers : Layers compare key height link tall part)
    (cut : Cut compare key tall part sought low high front back) (placed : Placed tall part place)
    (keyed : key place = sought) : ∃ rest, back = place :: rest := by
  obtain ⟨owner, isOwner, member⟩ := placed
  obtain ⟨other, after, split, rfl⟩ := owner_split isOwner
  rw [placed_owner layers cut split member keyed, cut.partCut] at member
  have rising := (cut_part layers cut).rising
  rcases List.mem_append.mp member with inFront | inBack
  · have less := cut.frontBelow place inFront
    rw [keyed, order.irrefl] at less
    exact Bool.noConfusion less
  · cases back with
    | nil => simp at inBack
    | cons first rest =>
        rcases List.mem_cons.mp inBack with rfl | later
        · exact ⟨rest, rfl⟩
        · rw [List.pairwise_append, List.pairwise_cons] at rising
          have less := rising.2.1.1 place later
          rw [keyed, cut.backAbove first List.mem_cons_self] at less
          exact Bool.noConfusion less

theorem placed_update {owner place : Nat} (isOwner : owner ∈ 0 :: tall) (places : List Nat) :
    Placed tall (Function.update part owner places) place ↔
      place ∈ places ∨ ∃ other ∈ 0 :: tall, other ≠ owner ∧ place ∈ part other := by
  constructor
  · rintro ⟨other, isOther, member⟩
    by_cases same : other = owner
    · subst same
      rw [Function.update_self] at member
      exact Or.inl member
    · rw [Function.update_of_ne same] at member
      exact Or.inr ⟨other, isOther, same, member⟩
  · rintro (member | ⟨other, isOther, different, member⟩)
    · exact ⟨owner, isOwner, by rwa [Function.update_self]⟩
    · exact ⟨other, isOther, by rwa [Function.update_of_ne different]⟩

theorem placed_cut (cut : Cut compare key tall part sought low high front back) {place : Nat} :
    Placed tall part place ↔
      place ∈ front ++ back ∨ ∃ other ∈ 0 :: tall, other ≠ last 0 low ∧ place ∈ part other := by
  have whole := @placed_update tall part _ place (cut_owner cut) (part (last 0 low))
  rwa [Function.update_eq_self, cut.partCut] at whole

theorem placed_insert_low (cut : Cut compare key tall part sought low high front back)
    {node place : Nat} :
    Placed tall (Function.update part (last 0 low) (front ++ node :: back)) place ↔ place = node ∨
      Placed tall part place := by
  rw [placed_update (cut_owner cut), placed_cut cut]
  rw [List.mem_append, List.mem_cons, List.mem_append, or_left_comm, or_assoc]

theorem placed_insert_tall (cut : Cut compare key tall part sought low high front back)
    {node place : Nat} (fresh : node ≠ 0) (notTall : node ∉ tall) :
    Placed (low ++ node :: high)
      (Function.update (Function.update part (last 0 low) (front ++ [node])) node back) place ↔
      place = node ∨ Placed tall part place := by
  have owners : ∀ other, other ∈ 0 :: (low ++ node :: high) ↔ other = node ∨ other ∈ 0 :: tall := by
    intro other
    rw [cut.tallCut]
    simp only [List.mem_cons, List.mem_append]
    tauto
  have apart : last 0 low ≠ node := by
    intro same
    rcases List.mem_cons.mp (same ▸ cut_owner cut) with header | member
    · exact fresh header
    · exact notTall member
  have notOwner : ∀ other ∈ 0 :: tall, other ≠ node := by
    rintro other member rfl
    rcases List.mem_cons.mp member with header | member
    · exact fresh header
    · exact notTall member
  rw [placed_update ((owners node).mpr (Or.inl rfl)), placed_cut cut]
  constructor
  · rintro (member | ⟨other, isOther, different, member⟩)
    · exact Or.inr (Or.inl (List.mem_append_right _ member))
    · by_cases same : other = last 0 low
      · subst same
        rw [Function.update_self] at member
        rcases List.mem_append.mp member with member | member
        · exact Or.inr (Or.inl (List.mem_append_left _ member))
        · exact Or.inl (List.mem_singleton.mp member)
      · rw [Function.update_of_ne same] at member
        rcases (owners other).mp isOther with isNode | isOwner
        · exact absurd isNode different
        · exact Or.inr (Or.inr ⟨other, isOwner, same, member⟩)
  · have owned := (owners _).mpr (Or.inr (cut_owner cut))
    rintro (rfl | member | ⟨other, isOther, different, member⟩)
    · refine Or.inr ⟨last 0 low, owned, apart, ?_⟩
      rw [Function.update_self]
      exact List.mem_append_right _ List.mem_cons_self
    · rcases List.mem_append.mp member with member | member
      · refine Or.inr ⟨last 0 low, owned, apart, ?_⟩
        rw [Function.update_self]
        exact List.mem_append_left _ member
      · exact Or.inl member
    · refine Or.inr ⟨other, (owners other).mpr (Or.inr isOther), notOwner other isOther, ?_⟩
      rwa [Function.update_of_ne different]

theorem placed_erase (order : TotalOrder compare)
    (layers : Layers compare key height link tall part) {rest : List Nat}
    (cut : Cut compare key tall part sought low high front (found :: rest))
    (keyed : key found = sought) :
    Placed tall (Function.update part (last 0 low) (front ++ rest)) place ↔
      Placed tall part place ∧ key place ≠ sought := by
  rw [placed_update (cut_owner cut)]
  have whole := @placed_cut K compare key tall low high front (found :: rest) part sought cut place
  constructor
  · intro kept
    have placed : Placed tall part place := by
      rw [whole]
      rcases kept with member | elsewhere
      · refine Or.inl ?_
        rcases List.mem_append.mp member with member | member
        · exact List.mem_append_left _ member
        · exact List.mem_append_right _ (List.mem_cons_of_mem _ member)
      · exact Or.inr elsewhere
    refine ⟨placed, fun same => ?_⟩
    obtain ⟨others, back⟩ := placed_back order layers cut placed same
    obtain rfl : found = place := (List.cons.inj back).1
    have unique := part_unique order layers cut.tallCut
    rw [cut.partCut, List.nodup_cons, List.nodup_append, List.nodup_cons] at unique
    rcases kept with member | ⟨other, isOther, different, member⟩
    · rcases List.mem_append.mp member with member | member
      · exact unique.2.2.2 _ member _ List.mem_cons_self rfl
      · exact unique.2.2.1.1 member
    · obtain ⟨before, after, split, rfl⟩ := owner_split isOther
      exact different (placed_owner layers cut split member keyed)
  · rintro ⟨placed, notKey⟩
    rcases whole.mp placed with member | elsewhere
    · rcases List.mem_append.mp member with member | member
      · exact Or.inl (List.mem_append_left _ member)
      · rcases List.mem_cons.mp member with rfl | member
        · exact absurd keyed notKey
        · exact Or.inl (List.mem_append_right _ member)
    · exact Or.inr elsewhere

end Cuts

end BusTub.SkipList
