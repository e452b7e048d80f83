import BusTub.SkipListSet
import BusTub.TransitionSystem
import Mathlib.Data.List.Sort

/-!
The links of the skip list on all of its levels. What `Erase` takes out of the
lowest level stays linked on the others, so a list is as its test wants it exactly
while no node that is erased has been on a second level. The lowest level is then
one chain through all the parts, and the tall nodes are those of it that are high.
-/

namespace BusTub.SkipList

open LinkedChain TransitionSystem

structure Kept (K : Type) where
  list : SkipList K
  live : Finset Nat

namespace Kept

section Model
variable {K : Type} [Inhabited K] [DecidableEq K] (maxHeight : Nat) (compare : K → K → Bool)

def new : Kept K := ⟨SkipList.new maxHeight, ∅⟩

def call (kept : Kept K) (asked : Call K) : Option (Kept K) := do
  let (answer, list) ← SkipList.call maxHeight compare kept.list asked
  let live := match asked, answer with
    | .insert _ _, .bool true => Insert.insert kept.list.nodes.length kept.live
    | .erase key, .bool true => kept.live.filter fun place => keyAt kept.list.nodes place ≠ key
    | .clear, _ => ∅
    | _, _ => kept.live
  return ⟨list, live⟩

def Reached (list : SkipList K) : Nat → Prop :=
  Relation.TransGen (fun first second => ∃ level, linkAt list.nodes level first =
    some second) header

structure Linked (kept : Kept K) (chain : List Nat) : Prop where
  nodes : ∀ place, place ∈ chain ↔ place ∈ kept.live
  rising : chain.Pairwise fun first second =>
    compare (keyAt kept.list.nodes first) (keyAt kept.list.nodes second) = true
  counted : chain.length = kept.list.size
  lowest : Chain (linkAt kept.list.nodes 0) header chain none
  levels : ∀ level, Chain (linkAt kept.list.nodes level) header
    (chain.filter fun place => level < heightAt kept.list.nodes place) none

def Intact (kept : Kept K) : Prop :=
  (∃ chain, Linked compare kept chain) ∧ ∀ place, Reached kept.list place → place ∈ kept.live

/-- The node that the call erases is on the lowest level only. -/
def LowErased (kept : Kept K) : Call K → Prop
  | .erase key => ∀ place ∈ kept.live, keyAt kept.list.nodes place = key →
    heightAt kept.list.nodes place = 1
  | _ => True

end Model

section Layered
variable {K : Type} {compare : K → K → Bool} {key : Nat → K} {height : Nat → Nat}
  {link : Nat → Nat → Option Nat} {tall : List Nat} {part : Nat → List Nat} {front back : List Nat}

theorem placed_same (order : TotalOrder compare) (layers : Layers compare key height link tall part)
    {first second : Nat} (placed : Placed tall part first) (other : Placed tall part second)
    (same : key first = key second) :
    first = second := by
  obtain ⟨low, high, front, back, cut⟩ := cut_exists order layers (key second)
  obtain ⟨rest, atFirst⟩ := placed_back order layers cut placed same
  obtain ⟨more, atSecond⟩ := placed_back order layers cut other rfl
  exact (List.cons.inj (atFirst.symm.trans atSecond)).1

/-- A part ends with the next tall node when that one is on the lowest level. -/
theorem part_ends (order : TotalOrder compare) (layers : Layers compare key height link tall part)
    (placed : ∀ place ∈ tall, Placed tall part place) {bound : Nat}
    (split : tall = front ++ bound :: back) :
    ∃ before, part (last 0 front) = before ++ [bound] := by
  have divided := layers.lowest front (bound :: back) split
  have ascending := layers.ascending
  have unique := (List.nodup_cons.mp layers.apart).2
  rw [split, List.pairwise_append, List.pairwise_cons] at ascending
  rw [split, List.nodup_append] at unique
  have boundTall : bound ∈ tall := split ▸ List.mem_append_right front List.mem_cons_self
  have frontBelow : ∀ place ∈ front, compare (key place) (key bound) = true := by
    intro place member
    cases less : compare (key place) (key bound) with
    | true => rfl
    | false =>
        -- two tall nodes of one key would be one node
        have same := order.total _ _ less (ascending.2.2 place member bound List.mem_cons_self)
        have placeTall : place ∈ tall := split ▸ List.mem_append_left _ member
        have equal :=
          placed_same order layers (placed place placeTall) (placed bound boundTall) same
        exact absurd equal (unique.2.2 place member bound List.mem_cons_self)
  have backAbove : ∀ place ∈ bound :: back, compare (key place) (key bound) = false := by
    intro place member
    rcases List.mem_cons.mp member with rfl | member
    · exact order.irrefl _
    · exact ascending.2.1.1 place member
  obtain ⟨before, after, whole, below, above⟩ :=
    divide_list order (key bound) (part (last 0 front)) (rising_ascending order divided.rising)
  have cut : Cut compare key tall part (key bound) front (bound :: back) before after :=
    ⟨split, frontBelow, backAbove, whole, below, above⟩
  obtain ⟨rest, behind⟩ := placed_back order layers cut (placed bound boundTall) rfl
  subst behind
  cases rest with
  | nil => exact ⟨before, whole⟩
  | cons next rest =>
      -- what is behind it would be beyond it, and the part ends there
      have rising := divided.rising
      rw [whole, List.pairwise_append, List.pairwise_cons] at rising
      have less := rising.2.1.1 next List.mem_cons_self
      have nextPart : next ∈ part (last 0 front) := by simp [whole]
      rw [divided.within bound rfl next nextPart] at less
      exact Bool.noConfusion less

theorem parts_chain (order : TotalOrder compare) (layers : Layers compare key height link tall part)
    (placed : ∀ place ∈ tall, Placed tall part place) (split : tall = front ++ back) :
    Chain (link 0) (last 0 front) ((last 0 front :: back).flatMap part) none ∧
      ((last 0 front :: back).flatMap part).Pairwise (fun first second =>
        compare (key first) (key second) = true) ∧
          (last 0 front ≠ 0 → ∀ place ∈ (last 0 front :: back).flatMap part,
          compare (key (last 0 front))
        (key place) = true) := by
  induction back generalizing front with
  | nil =>
      have divided := layers.lowest front [] split
      obtain ⟨stop, chain, beyond⟩ := divided.chain
      rw [List.flatMap_singleton]
      refine ⟨?_, divided.rising, divided.above⟩
      cases stop with
      | none => exact chain
      | some place =>
          obtain ⟨bound, absent, -⟩ := beyond place rfl
          cases absent
  | cons bound back ih =>
      have divided := layers.lowest front (bound :: back) split
      obtain ⟨before, whole⟩ := part_ends order layers placed split
      have boundPart : bound ∈ part (last 0 front) := by simp [whole]
      have owned : bound ≠ 0 := (part_linked layers split bound boundPart).2
      have later : tall = (front ++ [bound]) ++ back := by
        rw [split, List.append_assoc, List.singleton_append]
      have onward := ih later
      rw [last_append, last_cons, last_nil] at onward
      obtain ⟨chain, rising, above⟩ := onward
      rw [List.flatMap_cons]
      generalize (bound :: back).flatMap part = rest at chain rising above ⊢
      refine ⟨?_, ?_, ?_⟩
      · obtain ⟨stop, here, -⟩ := divided.chain
        have target : link 0 bound = stop := by
          have ended := chain_last here
          rwa [whole, last_append, last_cons, last_nil] at ended
        have leads : link 0 bound = rest.head?.or none :=
          (chain_append.mp (show Chain (link 0) bound ([] ++ rest) none from chain)).1
        rw [chain_append]
        rw [target.symm.trans leads] at here
        refine ⟨here, ?_⟩
        rwa [whole, last_append, last_cons, last_nil]
      · rw [List.pairwise_append]
        refine ⟨divided.rising, rising, fun first inPart second inRest => ?_⟩
        exact order_le_lt order (divided.within bound rfl first inPart) (above owned second inRest)
      · intro owner place member
        rcases List.mem_append.mp member with inPart | inRest
        · exact divided.above owner place inPart
        · exact order.trans _ _ _ (divided.above owner bound boundPart) (above owned place inRest)

theorem rising_nodup (order : TotalOrder compare) {places : List Nat}
    (rising : places.Pairwise fun first second => compare (key first) (key second) = true) :
    (places.map key).Nodup := by
  rw [List.Nodup, List.pairwise_map]
  apply rising.imp
  intro first second less same
  rw [same, order.irrefl] at less
  exact Bool.noConfusion less

theorem tall_filter (order : TotalOrder compare) (layers : Layers compare key height link tall part)
    (placed : ∀ place ∈ tall, Placed tall part place)
    (towers : ∀ place, Placed tall part place → 1 < height place → place ∈ tall)
    (rising : ((0 :: tall).flatMap part).Pairwise fun first second =>
      compare (key first) (key second) = true) :
    ((0 :: tall).flatMap part).filter (fun place => 1 < height place) = tall := by
  have members : ∀ place, place ∈ (0 :: tall).flatMap part ↔ Placed tall part place :=
    fun place => List.mem_flatMap
  have high : ∀ place, place ∈ ((0 :: tall).flatMap part).filter (fun place => 1 < height place) ↔
      place ∈ tall := by
    intro place
    rw [List.mem_filter, members, decide_eq_true_eq]
    constructor
    · exact fun found => towers place found.1 found.2
    · exact fun member => ⟨placed place member, layers.towers place member⟩
  have unique := (List.Nodup.of_map _ (rising_nodup order rising)).filter fun place =>
    decide (1 < height place)
  have tallUnique := (List.nodup_cons.mp layers.apart).2
  have perm := (List.perm_ext_iff_of_nodup unique tallUnique).mpr high
  apply perm.eq_of_pairwise _ (rising_ascending order (rising.filter _)) layers.ascending
  intro first second inFirst inSecond below above
  exact placed_same order layers (placed first ((high first).mp inFirst)) (placed second inSecond)
    (order.total _ _ above below)

end Layered

section Kept
variable {K : Type} [Inhabited K] {maxHeight : Nat} {compare : K → K → Bool} {kept : Kept K}
  {keys : Finset K} {tall : List Nat} {part : Nat → List Nat} {place : Nat} {after : SkipList K}
  {key : K} {newPart : Nat → List Nat}

/-- The live nodes are the places of the parts, and the high ones among them are tall. -/
structure Follows (maxHeight : Nat) (compare : K → K → Bool) (kept : Kept K) (keys : Finset K)
    (tall : List Nat) (part : Nat → List Nat) : Prop where
  stands : Represents maxHeight compare kept.list keys tall part
  live : ∀ place, place ∈ kept.live ↔ Placed tall part place
  towers : ∀ place, Placed tall part place → 1 < heightAt kept.list.nodes place → place ∈ tall

theorem live_tower (follows : Follows maxHeight compare kept keys tall part)
    (member : place ∈ kept.live) :
    0 < heightAt kept.list.nodes place := by
  obtain ⟨owner, isOwner, inPart⟩ := (follows.live place).mp member
  obtain ⟨before, after, split, rfl⟩ := owner_split isOwner
  exact (part_linked follows.stands.layers split place inPart).1

theorem linked_reached {chain : List Nat} (linked : Linked compare kept chain)
    (reached : Reached kept.list place) :
    place ∈ kept.live := by
  have closed : ∀ first second level, (first = header ∨ first ∈ kept.live) →
      linkAt kept.list.nodes level first = some second → second ∈ kept.live := by
    intro first second level known target
    have inside : level < heightAt kept.list.nodes first := by
      by_contra outside
      rw [link_outside (Nat.le_of_not_lt outside)] at target
      cases target
    have onLevel : first ∈ header :: chain.filter fun place =>
        level < heightAt kept.list.nodes place := by
      rcases known with rfl | live
      · exact List.mem_cons_self
      · apply List.mem_cons_of_mem
        rw [List.mem_filter, linked.nodes, decide_eq_true_eq]
        exact ⟨live, inside⟩
    have next := chain_closed (linked.levels level) onLevel target
    exact (linked.nodes second).mp (List.mem_filter.mp next).1
  induction reached with
  | single step =>
      obtain ⟨level, target⟩ := step
      exact closed _ _ level (Or.inl rfl) target
  | tail _ step ih =>
      obtain ⟨level, target⟩ := step
      exact closed _ _ level (Or.inr ih) target

theorem follows_cleared (maxHeight : Nat) (height : Nat) (bounded : height ≤ maxHeight) :
    Follows maxHeight compare ⟨⟨[⟨List.replicate maxHeight none, default⟩], height, 0⟩, ∅⟩ ∅
      [] fun _ => [] := by
  have nowhere : ∀ place, ¬ Placed [] (fun _ => []) place := by simp [Placed]
  refine ⟨represents_cleared maxHeight height bounded, ?_, ?_⟩
  · intro place
    simp [nowhere]
  · intro place placed
    exact absurd placed (nowhere place)

variable [DecidableEq K]

theorem live_linked (order : TotalOrder compare)
    (follows : Follows maxHeight compare kept keys tall part)
    (standing : ∀ place ∈ tall, place ∈ kept.live) :
    Linked compare kept ((0 :: tall).flatMap part) := by
  have layers := follows.stands.layers
  have placed : ∀ place ∈ tall, Placed tall part place :=
    fun place member => (follows.live place).mp (standing place member)
  have whole : tall = [] ++ tall := rfl
  obtain ⟨chain, rising, -⟩ := parts_chain order layers placed whole
  rw [last_nil] at chain rising
  have members : ∀ place, place ∈ (0 :: tall).flatMap part ↔ place ∈ kept.live := fun place =>
    List.mem_flatMap.trans (follows.live place).symm
  have high := tall_filter order layers placed follows.towers rising
  generalize (0 :: tall).flatMap part = places at chain rising members high ⊢
  refine ⟨members, rising, ?_, chain, ?_⟩
  · have keyed : keys = (places.map (keyAt kept.list.nodes)).toFinset := by
      ext key
      rw [List.mem_toFinset, List.mem_map, follows.stands.members]
      simp only [members, follows.live]
    rw [follows.stands.counted, keyed, List.toFinset_card_of_nodup (rising_nodup order rising),
      List.length_map]
  · intro level
    cases level with
    | zero =>
        have everyone : places.filter (fun place => 0 < heightAt kept.list.nodes place) =
            places := by
          apply List.filter_eq_self.mpr
          intro place member
          simpa using live_tower follows ((members place).mp member)
        rwa [everyone]
    | succ level =>
        have upper := layers.upper (level + 1) (Nat.succ_pos level)
        rw [← high, List.filter_filter] at upper
        have same : places.filter
          (fun place => level + 1 < heightAt kept.list.nodes place && 1 <
            heightAt kept.list.nodes place) =
            places.filter fun place => level + 1 < heightAt kept.list.nodes place := by
          apply List.filter_congr
          intro place _
          rw [Bool.eq_iff_iff, Bool.and_eq_true, decide_eq_true_eq, decide_eq_true_eq]
          omega
        rwa [← same]

/-- The list is intact exactly while all the tall nodes are live. -/
theorem intact_iff (order : TotalOrder compare)
    (follows : Follows maxHeight compare kept keys tall part) :
    Intact compare kept ↔ ∀ place ∈ tall, place ∈ kept.live := by
  constructor
  · rintro ⟨⟨chain, linked⟩, -⟩ place member
    have layers := follows.stands.layers
    have everyTall : (tall.filter fun place => 1 < heightAt kept.list.nodes place) = tall := by
      apply List.filter_eq_self.mpr
      intro place member
      simpa using layers.towers place member
    have second := layers.upper 1 Nat.one_pos
    rw [everyTall] at second
    have same := chain_unique (linked.levels 1) second
    rw [← same] at member
    exact (linked.nodes place).mp (List.mem_filter.mp member).1
  · intro standing
    have linked := live_linked order follows standing
    exact ⟨⟨_, linked⟩, fun place reached => linked_reached linked reached⟩

theorem follows_added (follows : Follows maxHeight compare kept keys tall part) {newTall : List Nat}
    (stands : Represents maxHeight compare after (Insert.insert key keys) newTall newPart)
    (added : Added kept.list after key tall newTall part newPart) :
    Follows maxHeight compare ⟨after, Insert.insert kept.list.nodes.length kept.live⟩
      (Insert.insert key keys) newTall newPart := by
  refine ⟨stands, ?_, ?_⟩
  · intro place
    rw [added.placed, Finset.mem_insert, follows.live]
  · intro place placed high
    rw [added.towers]
    by_cases new : place = kept.list.nodes.length
    · exact Or.inr ⟨new, high⟩
    · rw [added.heights place new] at high
      exact Or.inl (follows.towers place (((added.placed place).mp placed).resolve_left new) high)

theorem follows_removed (follows : Follows maxHeight compare kept keys tall part)
    (stands : Represents maxHeight compare after (keys.erase key) tall newPart)
    (removed : Removed kept.list after key tall part newPart) :
    Follows maxHeight compare ⟨after, kept.live.filter fun place =>
      keyAt kept.list.nodes place ≠ key⟩
      (keys.erase key)
      tall newPart := by
  refine ⟨stands, ?_, ?_⟩
  · intro place
    rw [removed.placed, Finset.mem_filter, follows.live]
  · intro place placed high
    rw [removed.heights] at high
    exact follows.towers place ((removed.placed place).mp placed).1 high

theorem standing_removed (follows : Follows maxHeight compare kept keys tall part)
    (standing : ∀ place ∈ tall, place ∈ kept.live) (key : K) :
    (∀ place ∈ tall, place ∈ kept.live.filter fun place => keyAt kept.list.nodes place ≠ key) ↔
      LowErased kept (.erase key) := by
  constructor
  · intro still place live keyed
    by_contra high
    have tower := live_tower follows live
    have member := follows.towers place ((follows.live place).mp live) (by omega)
    exact (Finset.mem_filter.mp (still place member)).2 keyed
  · intro low place member
    rw [Finset.mem_filter]
    refine ⟨standing place member, fun keyed => ?_⟩
    have single := low place (standing place member) keyed
    have tower := follows.stands.layers.towers place member
    omega

/-- Each call goes through, and keeps an intact list so exactly when the node that it erases is a
low one. -/
theorem call_follows (order : TotalOrder compare) (positive : 0 < maxHeight)
    (small : maxHeight < 2147483648) (follows : Follows maxHeight compare kept keys tall part)
    (asked : Call K) :
    ∃ after newKeys newTall newPart, call maxHeight compare kept asked = some after ∧
      Follows maxHeight compare after newKeys newTall newPart ∧
      ((∀ place ∈ tall, place ∈ kept.live) →
      ((∀ place ∈ newTall, place ∈ after.live) ↔ LowErased kept asked)) := by
  have stands := follows.stands
  cases asked with
  | insert key rng =>
      obtain ⟨present, absent⟩ := insert_answer order positive small stands key rng
      by_cases member : key ∈ keys
      · exact ⟨kept, keys, tall, part, by simp [call, SkipList.call, present member], follows,
          fun standing => ⟨fun _ => trivial, fun _ => standing⟩⟩
      · obtain ⟨after, newTall, newPart, ran, newStands, added⟩ := absent member
        refine ⟨_, _, newTall, newPart,
            by simp [call, SkipList.call,
              ran], follows_added follows newStands added, fun standing =>
              ⟨fun _ => trivial, fun _ place tower => ?_⟩⟩
        rw [Finset.mem_insert]
        rcases (added.towers place).mp tower with old | new
        · exact Or.inr (standing place old)
        · exact Or.inl new.1
  | erase key =>
      obtain ⟨absent, present⟩ := erase_answer order positive small stands key
      by_cases member : key ∈ keys
      · obtain ⟨after, newPart, ran, newStands, removed⟩ := present member
        exact ⟨_, _, tall, newPart,
            by simp [call, SkipList.call,
              ran], follows_removed follows newStands removed, fun standing =>
              standing_removed follows standing key⟩
      · refine ⟨kept, keys, tall, part, by simp [call, SkipList.call, absent member], follows,
          fun standing => ⟨fun _ place live keyed => ?_, fun _ => standing⟩⟩
        exact absurd ((stands.members key).mpr ⟨place, (follows.live place).mp live, keyed⟩) member
  | contains key =>
      have found := contains_answer order positive small stands key
      exact ⟨kept, keys, tall, part, by simp [call, SkipList.call, found], follows,
        fun standing => ⟨fun _ => trivial, fun _ => standing⟩⟩
  | size =>
      exact ⟨kept, keys, tall, part, rfl, follows, fun standing =>
        ⟨fun _ => trivial, fun _ => standing⟩⟩
  | empty =>
      exact ⟨kept, keys, tall, part, rfl, follows, fun standing =>
        ⟨fun _ => trivial, fun _ => standing⟩⟩
  | clear =>
      exact ⟨_, ∅, [], fun _ => [], rfl, follows_cleared maxHeight 0 (Nat.zero_le _),
        fun _ => by simp [LowErased]⟩

def Followed (maxHeight : Nat) (compare : K → K → Bool) (kept : Kept K) : Prop :=
  ∃ keys tall part, Follows maxHeight compare kept keys tall part

theorem calls_run (order : TotalOrder compare) (positive : 0 < maxHeight)
    (small : maxHeight < 2147483648) (calls : List (Call K))
    (followed : Followed maxHeight compare kept) :
    ∃ last, Run (graph (call maxHeight compare)) kept calls last := by
  induction calls generalizing kept with
  | nil => exact ⟨kept, Run.refl kept⟩
  | cons asked calls ih =>
      obtain ⟨keys, tall, part, follows⟩ := followed
      obtain ⟨after, newKeys, newTall, newPart, ran, newFollows, -⟩ :=
        call_follows order positive small follows asked
      obtain ⟨last, run⟩ := ih ⟨newKeys, newTall, newPart, newFollows⟩
      exact ⟨last, Run.next ran run⟩

/-- Any calls, with any towers, run on a new list; and it is intact all along exactly
when each node that `Erase` takes out is on one level. -/
theorem integrity_iff (maxHeight : Nat) (compare : K → K → Bool) (order : TotalOrder compare)
    (positive : 0 < maxHeight) (small : maxHeight < 2147483648) (calls : List (Call K)) :
    ∃ last, Run (graph (call maxHeight compare)) (new maxHeight) calls last ∧
      (Along (graph (call maxHeight compare)) (Intact compare) (new maxHeight) calls ↔
        Run (guarded LowErased (graph (call maxHeight compare))) (new maxHeight) calls last) := by
  have start : Follows maxHeight compare (new maxHeight) ∅ [] fun _ => [] :=
    follows_cleared maxHeight 1 positive
  have first : Followed maxHeight compare (new maxHeight) := ⟨∅, [], _, start⟩
  have intact : Intact compare (new maxHeight) := (intact_iff order start).mpr (by simp)
  obtain ⟨last, run⟩ := calls_run order positive small calls first
  refine ⟨last, run, ?_⟩
  have keeps : ∀ before asked after, Followed maxHeight compare before →
    call maxHeight compare before asked = some after →
      Followed maxHeight compare after := by
    rintro before asked after ⟨keys, tall, part, follows⟩ taken
    obtain ⟨next, newKeys, newTall, newPart, ran, newFollows, -⟩ :=
      call_follows order positive small follows asked
    obtain rfl := Option.some.inj (ran.symm.trans taken)
    exact ⟨newKeys, newTall, newPart, newFollows⟩
  have decides : ∀ before asked after, Followed maxHeight compare before → Intact compare before →
      call maxHeight compare before asked = some after →
        (Intact compare after ↔ LowErased before asked) := by
    rintro before asked after ⟨keys, tall, part, follows⟩ intact taken
    obtain ⟨next, newKeys, newTall, newPart, ran, newFollows, decided⟩ :=
      call_follows order positive small follows asked
    obtain rfl := Option.some.inj (ran.symm.trans taken)
    rw [intact_iff order newFollows]
    exact decided ((intact_iff order follows).mp intact)
  exact along_guarded_iff keeps decides run first intact

end Kept

theorem low_and_high_decided :
    ∃ last, Run (graph (call 14 fun first second : Nat => decide (first < second))) (new 14)
        [.insert 3 id, .insert 5 fun _ => 1, .erase 5, .clear, .insert 3 id, .erase 3] last ∧
      (Along (graph (call 14 fun first second : Nat => decide (first < second)))
          (Intact fun first second : Nat => decide (first < second)) (new 14)
          [.insert 3 id, .insert 5 fun _ => 1, .erase 5, .clear, .insert 3 id, .erase 3] ↔
        Run (guarded LowErased (graph (call 14 fun first second : Nat => decide (first < second))))
          (new 14)
          [.insert 3 id, .insert 5 fun _ => 1, .erase 5, .clear, .insert 3 id, .erase 3] last) :=
  integrity_iff 14 _ less_total (by decide) (by decide) _

/-- A node on two levels is linked on the second one after it has been erased. -/
theorem erased_node_linked :
    ¬ Along (graph (call 14 fun first second : Nat => decide (first < second)))
    (Intact fun first second : Nat => decide (first < second)) (new 14)
      [.insert 3 id, .erase 3] := by
  intro along
  have inserted : call 14 (fun first second : Nat => decide (first < second)) (new 14)
      (.insert 3 id) =
      some ⟨⟨[⟨some 1 :: some 1 :: List.replicate 12 none, 0⟩, ⟨[none, none], 3⟩], 2, 1⟩, {1}⟩ :=
        rfl
  have erased : call 14 (fun first second : Nat => decide (first < second))
      ⟨⟨[⟨some 1 :: some 1 :: List.replicate 12 none, 0⟩, ⟨[none, none], 3⟩], 2, 1⟩,
        {1}⟩ (.erase 3) =
      some ⟨⟨[⟨none :: some 1 :: List.replicate 12 none, 0⟩, ⟨[none, none], 3⟩], 2, 0⟩, ∅⟩ := rfl
  obtain ⟨-, reached⟩ := along _ [] _ rfl (Run.next inserted (Run.next erased (Run.refl _)))
  exact absurd (reached 1 (Relation.TransGen.single ⟨1, rfl⟩)) (by decide)

end Kept

end BusTub.SkipList
