import BusTub.LinkedChain
import Mathlib.Data.Finset.Card

/-!
The skip list of `primer/skiplist.cpp`. Nodes are never moved: a `shared_ptr` is
the place of its node in the list of those made so far, the header's is the first.
Each level is walked by its own loop, and `Erase` takes a node out of the lowest
level only. `none` is an access that is undefined: beyond the links of a node, or
through a null pointer.
-/

namespace BusTub

structure SkipNode (K : Type) where
  links : List (Option Nat)
  key : K

structure SkipList (K : Type) where
  nodes : List (SkipNode K)
  height : Nat
  size : Nat

namespace SkipNode

variable {K : Type}

/-- `level > links_.size()` is what is checked, so that a level equal to it is read. -/
def next (node : SkipNode K) (level : Nat) : Option (Option Nat) :=
  if node.links.length < level then some none else node.links[level]?

def setNext (node : SkipNode K) (level : Nat) (target : Option Nat) : SkipNode K :=
  if level < node.links.length then { node with links := node.links.set level target } else node

end SkipNode

/-- How often `for (int i = static_cast<int>(height) - 1; i >= 0; i--)` runs. -/
def insertLevels (height : Nat) : Nat := (BitVec.ofNat 32 height).toInt.toNat

def searchLevels (height : Nat) : Nat := ((BitVec.ofNat 32 height - 1).toInt + 1).toNat

namespace SkipList

variable {K : Type} [Inhabited K] (maxHeight : Nat) (compare : K → K → Bool)

def header : Nat := 0

def new : SkipList K where
  nodes := [⟨List.replicate maxHeight none, default⟩]
  height := 1
  size := 0

def next (nodes : List (SkipNode K)) (place level : Nat) : Option (Option Nat) := do
  let node ← nodes[place]?
  node.next level

def setNext (nodes : List (SkipNode K)) (place level : Nat) (target : Option Nat) :
    List (SkipNode K) :=
  nodes.modify place fun node => node.setNext level target

/-- `while (cur->Next(i) && compare_(cur->Next(i)->Key(), key)) cur = cur->Next(i);`
A walk that comes to more nodes than there are would not end. -/
def walk (nodes : List (SkipNode K)) (key : K) (level : Nat) : Nat → Nat → Option Nat
  | 0, _ => none
  | fuel + 1, cur => do
      match ← next nodes cur level with
      | none => return cur
      | some place =>
          let node ← nodes[place]?
          if compare node.key key then walk nodes key level fuel place else return cur

def search (nodes : List (SkipNode K)) (key : K) : Nat → Nat → Option (Nat × List Nat)
  | 0, cur => some (cur, [])
  | level + 1, cur => do
      let stop ← walk compare nodes key level nodes.length cur
      let (found, update) ← search nodes key level stop
      return (found, update ++ [stop])

def holdsKey (nodes : List (SkipNode K)) (key : K) : Option Nat → Option Bool
  | none => some false
  | some place => do
      let node ← nodes[place]?
      return !compare node.key key && !compare key node.key

def climb : Nat → (Nat → Nat) → Nat
  | 0, _ => 0
  | room + 1, rng => if rng 0 % 4 = 0 then climb room (fun draw => rng (draw + 1)) + 1 else 0

def randomHeight (rng : Nat → Nat) : Nat := 1 + climb (maxHeight - 1) rng

def link (newNode : Nat) : Nat → List Nat → List (SkipNode K) → Option (List (SkipNode K))
  | _, [], nodes => some nodes
  | level, place :: update, nodes => do
      let target ← next nodes place level
      let nodes := setNext nodes newNode level target
      link newNode (level + 1) update (setNext nodes place level (some newNode))

def insert (list : SkipList K) (key : K) (rng : Nat → Nat) : Option (Bool × SkipList K) := do
  let (cur, update) ← search compare list.nodes key (insertLevels list.height) header
  if ← holdsKey compare list.nodes key (← next list.nodes cur 0) then return (false, list)
  else
    let newHeight := randomHeight maxHeight rng
    -- on the levels above `height_` the header comes first
    let update := update ++ List.replicate (newHeight - list.height) header
    let height := if list.height < newHeight then newHeight % UInt32.size else list.height
    -- an entry of `update` that was not set is null
    if update.length < newHeight then none
    else
      let newNode := list.nodes.length
      let nodes := list.nodes ++ [⟨List.replicate newHeight none, key⟩]
      let nodes ← link newNode 0 (update.take newHeight) nodes
      return (true, { nodes := nodes, height := height, size := list.size + 1 })

/-- The loop returns on the first level on which the search has stopped anywhere. -/
def erase (list : SkipList K) (key : K) : Option (Bool × SkipList K) := do
  let (cur, eraseNodes) ← search compare list.nodes key (searchLevels list.height) header
  if ← holdsKey compare list.nodes key (← next list.nodes cur 0) then
    match eraseNodes with
    | place :: _ =>
        if 0 < (BitVec.ofNat 32 maxHeight).toInt then
          let temp ← next list.nodes place 0
          let target ← next list.nodes (← temp) 0
          return (true,
            { list with nodes := setNext list.nodes place 0 target, size := list.size - 1 })
        else return (false, list)
    | [] => return (false, list)
  else return (false, list)

def contains (list : SkipList K) (key : K) : Option Bool := do
  let (cur, _) ← search compare list.nodes key (searchLevels list.height) header
  holdsKey compare list.nodes key (← next list.nodes cur 0)

/-- `Drop` leaves the header without links, and no node is reached any more. -/
def clear : SkipList K where
  nodes := [⟨List.replicate maxHeight none, default⟩]
  height := 0
  size := 0

/-! ### Runs -/

inductive Call (K : Type) where
  | insert (key : K) (rng : Nat → Nat)
  | erase (key : K)
  | contains (key : K)
  | size
  | empty
  | clear

inductive Answer where
  | bool (answer : Bool)
  | count (number : Nat)
  | done
  deriving DecidableEq

def call (list : SkipList K) : Call K → Option (Answer × SkipList K)
  | .insert key rng => do
      let (inserted, list) ← insert maxHeight compare list key rng
      return (.bool inserted, list)
  | .erase key => do
      let (erased, list) ← erase maxHeight compare list key
      return (.bool erased, list)
  | .contains key => do
      let found ← contains compare list key
      return (.bool found, list)
  | .size => some (.count list.size, list)
  | .empty => some (.bool (list.size = 0), list)
  | .clear => some (.done, clear maxHeight)

def answers : SkipList K → List (Call K) → Option (List Answer)
  | _, [] => some []
  | list, first :: calls => do
      let (answer, list) ← call maxHeight compare list first
      let rest ← answers list calls
      return answer :: rest

def onSet [DecidableEq K] (keys : Finset K) : Call K → Answer × Finset K
  | .insert key _ => (.bool (key ∉ keys), Insert.insert key keys)
  | .erase key => (.bool (key ∈ keys), keys.erase key)
  | .contains key => (.bool (key ∈ keys), keys)
  | .size => (.count keys.card, keys)
  | .empty => (.bool (keys = ∅), keys)
  | .clear => (.done, ∅)

def setAnswers [DecidableEq K] : Finset K → List (Call K) → List Answer
  | _, [] => []
  | keys, first :: calls => (onSet keys first).1 :: setAnswers (onSet keys first).2 calls

end SkipList

end BusTub
