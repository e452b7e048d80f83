import BusTub.BPlusTreePages

/-!
The B+ tree of `storage/index/b_plus_tree.cpp`, run by one thread. Guards of pages are
left out but for `write_set_`; a page is changed where it lies, and a change that does
not fit the arrays of the page is a fault. So is everything else that the language
leaves open: a page that is not there, one of the other kind, an empty `write_set_`.
-/

namespace BusTub.BPlusTree

/-- What makes the rest of a run meaningless. -/
inductive Fault where
  /-- An index at or beyond the slot count of an array of a page. -/
  | slots
  /-- A page that has been deleted or was never handed out. -/
  | missing
  /-- A leaf written as an internal page, or the other way round. -/
  | foreign
  /-- `write_set_`, or a page of which an entry is read, has nothing in it. -/
  | empty
  /-- `WritePage` of a page of which the thread has a write guard. -/
  | blocked
  /-- A descent that does not end. -/
  | endless
  deriving DecidableEq

structure Tree (K V : Type) where
  /-- `root_page_id_` of the header page. -/
  rootPageId : Option PageId := none
  pages : PageId → Option (Page K V) := fun _ => none
  /-- The page that `NewPage` of the buffer pool hands out next. -/
  nextPageId : PageId := 0

namespace Tree
variable {K V : Type}

def newPage (tree : Tree K V) : PageId × Tree K V :=
  (tree.nextPageId, { tree with nextPageId := tree.nextPageId + 1 })

def deletePage (tree : Tree K V) (pid : PageId) : Tree K V :=
  { tree with pages := Function.update tree.pages pid none }

def deletePages (tree : Tree K V) (pids : List PageId) : Tree K V := pids.foldl deletePage tree

def leafPage (tree : Tree K V) (pid : PageId) : Except Fault (LeafPage K V) :=
  match tree.pages pid with
  | some (.inl page) => .ok page
  | some (.inr _) => .error .foreign
  | none => .error .missing

def internalPage (tree : Tree K V) (pid : PageId) : Except Fault (InternalPage K) :=
  match tree.pages pid with
  | some (.inr page) => .ok page
  | some (.inl _) => .error .foreign
  | none => .error .missing

def setPage (tree : Tree K V) (pid : PageId) (page : Page K V) : Tree K V :=
  { tree with pages := Function.update tree.pages pid (some page) }

@[simp] theorem set_pages (tree : Tree K V) (pid : PageId) (page : Page K V) :
    (tree.setPage pid page).pages = Function.update tree.pages pid (some page) := rfl

@[simp] theorem set_root (tree : Tree K V) (pid : PageId) (page : Page K V) :
    (tree.setPage pid page).rootPageId = tree.rootPageId := rfl

@[simp] theorem set_next (tree : Tree K V) (pid : PageId) (page : Page K V) :
    (tree.setPage pid page).nextPageId = tree.nextPageId := rfl

@[simp] theorem new_page_id (tree : Tree K V) : tree.newPage.1 = tree.nextPageId := rfl

@[simp] theorem new_page_pages (tree : Tree K V) : tree.newPage.2.pages = tree.pages := rfl

@[simp] theorem new_page_root (tree : Tree K V) : tree.newPage.2.rootPageId = tree.rootPageId := rfl

@[simp] theorem new_page_next (tree : Tree K V) : tree.newPage.2.nextPageId = tree.nextPageId + 1 :=
  rfl

def putLeaf (options : Options) (tree : Tree K V) (pid : PageId) (page : LeafPage K V) :
    Except Fault (Tree K V) :=
  if page.entries.length ≤ options.LEAF_PAGE_SLOT_CNT ∧
    page.tombstones.length ≤ options.LEAF_PAGE_TOMB_CNT then
    .ok (tree.setPage pid (.inl page))
  else .error .slots

def putInternal (options : Options) (tree : Tree K V) (pid : PageId) (page : InternalPage K) :
    Except Fault (Tree K V) :=
  if page.entries.length ≤ options.INTERNAL_PAGE_SLOT_CNT then .ok (tree.setPage pid (.inr page))
  else .error .slots

/-- From a page down to a leaf by a search in each internal page; the path has the
internal pages on the way, the last one first. No way is longer than there are pages. -/
def descend (tree : Tree K V) (search : InternalPage K → Option PageId) :
    Nat → PageId → List PageId → Except Fault (List PageId × PageId × LeafPage K V)
  | 0, _, _ => .error .endless
  | fuel + 1, pid, path =>
      match tree.pages pid with
      | none => .error .missing
      | some (.inl leaf) => .ok (path, pid, leaf)
      | some (.inr page) =>
          match search page with
          | none => .error .empty
          | some child => descend tree search fuel child (pid :: path)

def depthBound (tree : Tree K V) : Nat := tree.nextPageId.toNat

variable [LinearOrder K]

def lowerBound (page : LeafPage K V) (key : K) : Nat :=
  bisect (fun mid => (page.entries[mid]?).any fun entry => entry.1 < key) page.getSize
    0 page.getSize

def hasKeyAt (page : LeafPage K V) (index : Nat) (key : K) : Bool :=
  (page.entries[index]?).any fun entry => entry.1 = key

def getValue (tree : Tree K V) (key : K) : Except Fault (Option V) :=
  match tree.rootPageId with
  | none => .ok none
  | some root => do
      let (_, _, leaf) ← tree.descend (fun page => page.childFor key) tree.depthBound root []
      let index := lowerBound leaf key
      if hasKeyAt leaf index key && !leaf.isTombstone index then
        .ok ((leaf.entries[index]?).map Prod.snd)
      else .ok none

/-- The tree after the insertion, or `none` where `TryOptimisticInsert` returns false. -/
def tryOptimisticInsert (options : Options) (tree : Tree K V) (key : K) (value : V) :
    Except Fault (Option (Tree K V)) :=
  match tree.rootPageId with
  | none => .ok none
  | some root => do
      let (_, pid, leaf) ← tree.descend (fun page => page.childFor key) tree.depthBound root []
      if leaf.maxSize ≤ leaf.getSize + 1 then .ok none
      else
        let index := lowerBound leaf key
        if hasKeyAt leaf index key then .ok none
        else do
          let tree ← tree.putLeaf options pid (leaf.insertAt index key value)
          .ok (some tree)

variable [Inhabited K]

def insertIntoParent (options : Options) (tree : Tree K V) (child : PageId) (upKey : K)
    (newPid : PageId) :
    List PageId → Except Fault (Tree K V)
  | [] => do
      let (newRootPid, tree) := tree.newPage
      let tree ← tree.putInternal options newRootPid
        { maxSize := options.internalMaxSize, entries := [(default, child), (upKey, newPid)] }
      .ok { tree with rootPageId := some newRootPid }
  | parent :: rest => do
      let page ← tree.internalPage parent
      let bigger := page.insertAt (page.upperBound upKey) upKey newPid
      let tree ← tree.putInternal options parent bigger
      if page.getSize < options.internalMaxSize then .ok tree
      else
        let (newParentPid, tree) := tree.newPage
        let (left, promoteKey, right) := bigger.split { maxSize := options.internalMaxSize }
        let tree ← tree.putInternal options parent left
        let tree ← tree.putInternal options newParentPid right
        insertIntoParent options tree parent promoteKey newParentPid rest

def insertPessimistic (options : Options) (tree : Tree K V) (key : K) (value : V) :
    Except Fault (Bool × Tree K V) :=
  match tree.rootPageId with
  | none => do
      let (newPid, tree) := tree.newPage
      let tree ← tree.putLeaf options newPid
        (LeafPage.insertAt { maxSize := options.leafMaxSize } 0 key value)
      .ok (true, { tree with rootPageId := some newPid })
  | some root => do
      let (path, pid, leaf) ← tree.descend (fun page => page.childFor key) tree.depthBound root []
      let index := lowerBound leaf key
      if hasKeyAt leaf index key then .ok (false, tree)
      else do
        let bigger := leaf.insertAt index key value
        let tree ← tree.putLeaf options pid bigger
        if bigger.getSize ≠ options.leafMaxSize then .ok (true, tree)
        else do
          let (newPid, tree) := tree.newPage
          let (left, right) := bigger.split { maxSize := options.leafMaxSize }
          let tree ← tree.putLeaf options newPid { right with nextPageId := left.nextPageId }
          let tree ← tree.putLeaf options pid { left with nextPageId := some newPid }
          match right.entries with
          | [] => .error .empty
          | (upKey, _) :: _ =>
              let tree ← tree.insertIntoParent options pid upKey newPid path
              .ok (true, tree)

def insert (options : Options) (tree : Tree K V) (key : K) (value : V) :
    Except Fault (Bool × Tree K V) := do
  match ← tree.tryOptimisticInsert options key value with
  | some tree => .ok (true, tree)
  | none => tree.insertPessimistic options key value

/-- The tree after the removal, or `none` where `TryOptimisticRemove` returns false. -/
def tryOptimisticRemove (options : Options) (tree : Tree K V) (key : K) :
    Except Fault (Option (Tree K V)) :=
  match tree.rootPageId with
  | none => .ok none
  | some root => do
      let (_, pid, leaf) ← tree.descend (fun page => page.childFor key) tree.depthBound root []
      if leaf.getLiveSize ≤ leaf.getMinSize then .ok none
      else
        match leaf.remove options.LEAF_PAGE_TOMB_CNT key with
        | (true, smaller) => do
            let tree ← tree.putLeaf options pid smaller
            .ok (some tree)
        | (false, _) => .ok none

/-- The write guards are given up from the last one on, the leaf's own among them: its
bytes are read as those of an internal page. `inBytes` says that `ValueIndex` comes upon
the leaf's id there, behind index 0; then `SetKeyAt` writes into the leaf. -/
def updateAncestorMinKey (options : Options) (inBytes : Bool) (tree : Tree K V) (child : PageId)
    (key : K) :
    List PageId → Except Fault (Tree K V × List PageId)
  | [] => .ok (tree, [])
  | top :: rest =>
      match tree.pages top with
      | none => .error .missing
      | some (.inl _) =>
          if inBytes then .error .foreign
          else updateAncestorMinKey options inBytes tree top key rest
      | some (.inr parent) =>
          match parent.valueIndex child with
          | some (index + 1) => do
              let tree ← tree.putInternal options top (parent.setKeyAt (index + 1) key)
              .ok (tree, rest)
          | _ => updateAncestorMinKey options inBytes tree top key rest

def writePage (writeSet : List PageId) (pid : PageId) : Except Fault Unit :=
  if pid ∈ writeSet then .error .blocked else .ok ()

def childAt (page : InternalPage K) (index : Nat) : Except Fault PageId :=
  match page.valueAt index with
  | some pid => .ok pid
  | none => .error .empty

def firstKey (page : LeafPage K V) : Except Fault K :=
  match page.entries with
  | (key, _) :: _ => .ok key
  | [] => .error .empty

def keyAt (page : InternalPage K) (index : Nat) : Except Fault K :=
  match page.entries[index]? with
  | some (key, _) => .ok key
  | none => .error .empty

/-! One round of the loop of `Remove` at a page that is too small, at its place in its
parent. Borrowing gives the tree, or `none` where the sibling has nothing to spare; merging
gives the tree and the page to delete. -/

section Repair
variable (options : Options) (writeSet : List PageId) (tree : Tree K V) (node parent : PageId)
  (index : Nat)

def borrowLeftLeaf : Except Fault (Option (Tree K V)) := do
  let parentPage ← tree.internalPage parent
  let leftPid ← childAt parentPage (index - 1)
  writePage writeSet leftPid
  let left ← tree.leafPage leftPid
  let current ← tree.leafPage node
  if left.getSize ≤ left.getMinSize then .ok none
  else
    let (left, current) := left.moveLastToFrontOf current
    let tree ← tree.putLeaf options leftPid left
    let tree ← tree.putLeaf options node current
    let key ← firstKey current
    let tree ← tree.putInternal options parent (parentPage.setKeyAt index key)
    .ok (some tree)

def borrowRightLeaf : Except Fault (Option (Tree K V)) := do
  let parentPage ← tree.internalPage parent
  let rightPid ← childAt parentPage (index + 1)
  writePage writeSet rightPid
  let right ← tree.leafPage rightPid
  let current ← tree.leafPage node
  if right.getSize ≤ right.getMinSize then .ok none
  else
    let (right, current) := right.moveFirstToEndOf current
    let tree ← tree.putLeaf options rightPid right
    let tree ← tree.putLeaf options node current
    let key ← firstKey right
    let tree ← tree.putInternal options parent (parentPage.setKeyAt (index + 1) key)
    .ok (some tree)

def mergeLeaves (leftPid rightPid : PageId) (rightIndex : Nat) :
    Except Fault (Tree K V × PageId) := do
  let parentPage ← tree.internalPage parent
  let left ← tree.leafPage leftPid
  let right ← tree.leafPage rightPid
  let tree ← tree.putLeaf options leftPid (right.moveAllTo left)
  let tree ← tree.putLeaf options rightPid { right with entries := [] }
  let tree ← tree.putInternal options parent (parentPage.removeAt rightIndex)
  .ok (tree, rightPid)

def borrowLeftInternal : Except Fault (Option (Tree K V)) := do
  let parentPage ← tree.internalPage parent
  let leftPid ← childAt parentPage (index - 1)
  writePage writeSet leftPid
  let left ← tree.internalPage leftPid
  let current ← tree.internalPage node
  if left.getSize ≤ left.getMinSize then .ok none
  else
    let middleKey ← keyAt parentPage index
    let (left, current, newKey) := left.moveLastToFrontOf current middleKey
    let tree ← tree.putInternal options leftPid left
    let tree ← tree.putInternal options node current
    let tree ← tree.putInternal options parent (parentPage.setKeyAt index newKey)
    .ok (some tree)

def borrowRightInternal : Except Fault (Option (Tree K V)) := do
  let parentPage ← tree.internalPage parent
  let rightPid ← childAt parentPage (index + 1)
  writePage writeSet rightPid
  let right ← tree.internalPage rightPid
  let current ← tree.internalPage node
  if right.getSize ≤ right.getMinSize then .ok none
  else
    let middleKey ← keyAt parentPage (index + 1)
    let (right, current, newKey) := right.moveFirstToEndOf current middleKey
    let tree ← tree.putInternal options rightPid right
    let tree ← tree.putInternal options node current
    let tree ← tree.putInternal options parent (parentPage.setKeyAt (index + 1) newKey)
    .ok (some tree)

def mergeInternals (leftPid rightPid : PageId) (rightIndex : Nat) :
    Except Fault (Tree K V × PageId) := do
  let parentPage ← tree.internalPage parent
  let left ← tree.internalPage leftPid
  let right ← tree.internalPage rightPid
  let middleKey ← keyAt parentPage rightIndex
  -- a page without children is only taken out
  let tree ← if right.entries = [] then .ok tree
    else do
      let tree ← tree.putInternal options leftPid (right.moveAllTo left middleKey)
      tree.putInternal options rightPid { right with entries := [] }
  let tree ← tree.putInternal options parent (parentPage.removeAt rightIndex)
  .ok (tree, rightPid)

def removeAlone : Except Fault (Tree K V × PageId) := do
  let parentPage ← tree.internalPage parent
  let tree ← tree.putInternal options parent (parentPage.removeAt index)
  .ok (tree, node)

def repairNode (borrowLeft borrowRight : Except Fault (Option (Tree K V)))
    (merge : PageId → PageId → Nat → Except Fault (Tree K V × PageId))
    (parentPage : InternalPage K) :
    Except Fault (Tree K V × Option PageId) := do
  let hasLeft := 0 < index
  let hasRight := index + 1 < parentPage.getSize
  match ← if hasLeft then borrowLeft else .ok none with
  | some tree => .ok (tree, none)
  | none =>
      match ← if hasRight then borrowRight else .ok none with
      | some tree => .ok (tree, none)
      | none =>
          let (tree, gone) ←
            if hasLeft then do
              let leftPid ← childAt parentPage (index - 1)
              merge leftPid node index
            else if hasRight then do
              let rightPid ← childAt parentPage (index + 1)
              merge node rightPid (index + 1)
            else removeAlone options tree node parent index
          .ok (tree, some gone)

end Repair

def repairPage (options : Options) (writeSet : List PageId) (tree : Tree K V) (node parent : PageId)
    (index : Nat) (parentPage : InternalPage K) : Page K V → Except Fault (Tree K V × Option PageId)
  | .inl _ =>
      repairNode options tree node parent index
        (borrowLeftLeaf options writeSet tree node parent index)
        (borrowRightLeaf options writeSet tree node parent index)
          (mergeLeaves options tree parent) parentPage
  | .inr _ =>
      repairNode options tree node parent index
        (borrowLeftInternal options writeSet tree node parent index)
        (borrowRightInternal options writeSet tree node parent index)
          (mergeInternals options tree parent) parentPage

def isSmall : Page K V → Bool
  | .inl leaf => leaf.getSize < leaf.getMinSize
  | .inr internal => internal.getSize < internal.getMinSize

def repair (options : Options) (writeSet : List PageId) (tree : Tree K V) (doomed : List PageId) :
    List PageId → Except Fault (Tree K V × List PageId)
  | node :: parent :: upper =>
      match tree.pages node with
      | none => .error .missing
      | some page =>
          if isSmall page then do
            let parentPage ← tree.internalPage parent
            match parentPage.valueIndex node with
            | none => .error .missing
            | some index => do
                let (tree, gone) ← repairPage options writeSet tree node parent index
                  parentPage page
                match gone with
                | none => .ok (tree, doomed)
                | some pid => repair options writeSet tree (doomed ++ [pid]) (parent :: upper)
          else .ok (tree, doomed)
  | _ => .ok (tree, doomed)

def shrinkRoot (tree : Tree K V) (root : PageId) : Except Fault (Tree K V × List PageId) :=
  match tree.pages root with
  | none => .error .missing
  | some (.inl _) => .ok (tree, [])
  | some (.inr page) =>
      match page.entries with
      | [(_, child)] => .ok ({ tree with rootPageId := some child }, [root])
      | [] => .ok ({ tree with rootPageId := none }, [root])
      | _ => .ok (tree, [])

def shrinkLoop (tree : Tree K V) : Nat → Except Fault (Tree K V)
  | 0 => .error .endless
  | fuel + 1 =>
      match tree.rootPageId with
      | none => .ok tree
      | some root =>
          match tree.pages root with
          | none => .error .missing
          | some (.inl leaf) =>
              if leaf.entries = [] then
                .ok ({ tree with rootPageId := none }.deletePage root) else .ok tree
          | some (.inr page) =>
              match page.entries with
              | [] => .ok ({ tree with rootPageId := none }.deletePage root)
              | [(_, child)] =>
                  shrinkLoop ({ tree with rootPageId := some child }.deletePage root) fuel
              | _ => .ok tree

def removeUnderflow (options : Options) (tree : Tree K V) (writeSet : List PageId) :
    Except Fault (Tree K V) := do
  let (tree, doomed) ← tree.repair options writeSet [] writeSet
  match writeSet.getLast? with
  | none => .error .empty
  | some front => do
      let (tree, rest) ← tree.shrinkRoot front
      let tree := tree.deletePages (doomed ++ rest)
      tree.shrinkLoop (tree.depthBound + 1)

def removePessimistic (options : Options) (inBytes : Bool) (tree : Tree K V) (key : K) :
    Except Fault (Tree K V) :=
  match tree.rootPageId with
  | none => .ok tree
  | some root => do
      let (path, pid, leaf) ← tree.descend (fun page => page.lookup key) tree.depthBound root []
      match leaf.remove options.LEAF_PAGE_TOMB_CNT key with
      | (false, _) => .ok tree
      | (true, smaller) => do
          let tree ← tree.putLeaf options pid smaller
          if pid = root then
            if smaller.getLiveSize = 0 then
              .ok ({ tree with rootPageId := none }.deletePage pid) else .ok tree
          else do
            let (tree, writeSet) ← match leaf.entries, smaller.entries with
              | (old, _) :: _, (new, _) :: _ =>
                  if old = new then .ok (tree, pid :: path)
                  else tree.updateAncestorMinKey options inBytes pid new (pid :: path)
              | _, _ => .ok (tree, pid :: path)
            if smaller.getMinSize ≤ smaller.getSize then .ok tree
            else tree.removeUnderflow options writeSet

def remove (options : Options) (inBytes : Bool) (tree : Tree K V) (key : K) :
    Except Fault (Tree K V) := do
  match ← tree.tryOptimisticRemove options key with
  | some tree => .ok tree
  | none => tree.removePessimistic options inBytes key

end Tree

end BusTub.BPlusTree
