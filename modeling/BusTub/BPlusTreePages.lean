import BusTub.ArcReplacer
import Mathlib.Order.Lattice

/-!
The pages of a B+ tree. `key_array_` and `rid_array_`, or `key_array_` and
`page_id_array_`, up to `size_` are one list of pairs, and `INVALID_PAGE_ID` is
`none`. Whether a list still fits the arrays is seen to where a page is stored.
-/

namespace BusTub.BPlusTree

def BUSTUB_PAGE_SIZE : Nat := 8192

/-- The template arguments of an index and the sizes that its constructor is given. -/
structure Options where
  leafMaxSize : Nat
  internalMaxSize : Nat
  /-- `sizeof(KeyType)` -/
  keySize : Nat
  numTombs : Int

namespace Options

def LEAF_PAGE_TOMB_CNT (options : Options) : Nat := if options.numTombs < 0 then 0
    else options.numTombs.toNat

def LEAF_PAGE_SLOT_CNT (options : Options) : Nat :=
  (BUSTUB_PAGE_SIZE - 16 - 8 - options.LEAF_PAGE_TOMB_CNT * 8) / (options.keySize + 8)

def INTERNAL_PAGE_SLOT_CNT (options : Options) : Nat :=
  (BUSTUB_PAGE_SIZE - 12) / (options.keySize + 4)

end Options

structure LeafPage (K V : Type) where
  maxSize : Nat
  nextPageId : Option PageId := none
  entries : List (K × V) := []
  /-- Indexes of entries that are to be deleted, the oldest first. -/
  tombstones : List Nat := []
  deriving DecidableEq

structure InternalPage (K : Type) where
  maxSize : Nat
  entries : List (K × PageId) := []
  deriving DecidableEq

abbrev Page (K V : Type) := LeafPage K V ⊕ InternalPage K

/-- `while (lo < hi)` with `mid = (lo + hi) / 2`: the place from which on the search does
not go to the right any more. -/
def bisect (goesRight : Nat → Bool) : Nat → Nat → Nat → Nat
  | 0, lo, _ => lo
  | fuel + 1, lo, hi =>
      if lo < hi then
        if goesRight ((lo + hi) / 2) then bisect goesRight fuel ((lo + hi) / 2 + 1) hi
        else bisect goesRight fuel lo ((lo + hi) / 2)
      else lo

namespace LeafPage
variable {K V : Type}

def getSize (page : LeafPage K V) : Nat := page.entries.length

def getMinSize (page : LeafPage K V) : Nat := page.maxSize / 2

def getLiveSize (page : LeafPage K V) : Int := page.getSize - page.tombstones.length

def isTombstone (page : LeafPage K V) (index : Nat) : Bool := index ∈ page.tombstones

def getTombstones (page : LeafPage K V) : List K :=
  page.tombstones.filterMap fun tombstone => (page.entries[tombstone]?).map Prod.fst

def insertAt (page : LeafPage K V) (index : Nat) (key : K) (value : V) : LeafPage K V :=
  { page with
    entries := page.entries.insertIdx index (key, value)
    tombstones := page.tombstones.map fun tombstone => if index ≤ tombstone then tombstone + 1
      else tombstone }

def split (page newLeaf : LeafPage K V) : LeafPage K V × LeafPage K V :=
  let splitPoint := page.getSize / 2
  ({ page with
      entries := page.entries.take splitPoint
      tombstones := page.tombstones.filter fun tombstone => tombstone < splitPoint },
    { newLeaf with
      entries := page.entries.drop splitPoint
      tombstones :=
        (page.tombstones.filter fun tombstone => splitPoint ≤ tombstone).map (· - splitPoint) })

def removeAt (page : LeafPage K V) (index : Nat) : LeafPage K V :=
  { page with
    entries := page.entries.eraseIdx index
    tombstones := (page.tombstones.filter (· ≠ index)).map fun tombstone =>
      if index < tombstone then tombstone - 1 else tombstone }

def remove [DecidableEq K] (tombCnt : Nat) (page : LeafPage K V) (key : K) : Bool × LeafPage K V :=
  match page.entries.findIdx? fun entry => entry.1 = key with
  | none => (false, page)
  | some index =>
      if page.isTombstone index then (false, page)
      -- the tombstone buffer is full
      else if tombCnt ≤ page.tombstones.length then (true, page.removeAt index)
      else (true, { page with tombstones := page.tombstones ++ [index] })

/-! The moves leave the tombstones of both pages as they are. -/

def moveLastToFrontOf (page recipient : LeafPage K V) : LeafPage K V × LeafPage K V :=
  ({ page with entries := page.entries.dropLast },
    { recipient with entries := page.entries.getLast?.toList ++ recipient.entries })

def moveFirstToEndOf (page recipient : LeafPage K V) : LeafPage K V × LeafPage K V :=
  ({ page with entries := page.entries.tail },
    { recipient with entries := recipient.entries ++ page.entries.head?.toList })

def moveAllTo (page recipient : LeafPage K V) : LeafPage K V :=
  { recipient with
    entries := recipient.entries ++ page.entries
    nextPageId := page.nextPageId }

end LeafPage

namespace InternalPage
variable {K : Type}

def getSize (page : InternalPage K) : Nat := page.entries.length

def getMinSize (page : InternalPage K) : Nat := page.maxSize / 2

def insertAt (page : InternalPage K) (index : Nat) (key : K) (value : PageId) : InternalPage K :=
  { page with entries := page.entries.insertIdx index (key, value) }

def setKeyAt (page : InternalPage K) (index : Nat) (key : K) : InternalPage K :=
  { page with entries := page.entries.modify index fun entry => (key, entry.2) }

def removeAt (page : InternalPage K) (index : Nat) : InternalPage K :=
  { page with entries := page.entries.eraseIdx index }

def valueAt (page : InternalPage K) (index : Nat) : Option PageId :=
  (page.entries[index]?).map Prod.snd

def valueIndex (page : InternalPage K) (value : PageId) : Option Nat :=
  page.entries.findIdx? fun entry => entry.2 = value

def lookupLoop [LinearOrder K] (page : InternalPage K) (key : K) : Nat → Nat → Nat → Nat → Nat
  | 0, _, _, result => result
  | fuel + 1, left, right, result =>
      if left ≤ right then
        let mid := (left + right) / 2
        if (page.entries[mid]?).any fun entry => entry.1 ≤ key then
          lookupLoop page key fuel (mid + 1) right mid
        else lookupLoop page key fuel left (mid - 1) result
      else result

def lookup [LinearOrder K] (page : InternalPage K) (key : K) : Option PageId :=
  page.valueAt (page.lookupLoop key page.getSize 1 (page.getSize - 1) 0)

/-- The search that `GetValue`, `Insert`, `FindLeafPageOptimistic`, `InsertIntoParent` and `Begin`
write out: the first key above the one looked for. -/
def upperBound [LinearOrder K] (page : InternalPage K) (key : K) : Nat :=
  bisect (fun mid => (page.entries[mid]?).any fun entry => entry.1 ≤ key) page.getSize
    1 page.getSize

def childFor [LinearOrder K] (page : InternalPage K) (key : K) : Option PageId :=
  page.valueAt (page.upperBound key - 1)

variable [Inhabited K]

def split (page newNode : InternalPage K) : InternalPage K × K × InternalPage K :=
  let mid := page.getSize / 2
  let middleKey := ((page.entries[mid]?).map Prod.fst).getD default
  ({ page with entries := page.entries.take mid },
    middleKey,
    -- the first key of the new page stays as it is
    { newNode with entries := (page.entries.drop mid).modifyHead fun entry => (default, entry.2) })

def moveLastToFrontOf (page recipient : InternalPage K) (middleKey : K) :
    InternalPage K × InternalPage K × K :=
  match page.entries.getLast? with
  | none => (page, recipient, default)
  | some (key, child) =>
      ({ page with entries := page.entries.dropLast },
        { recipient with
          entries := match recipient.entries with
            | [] => [(default, child)]
            | (first, value) :: rest => (first, child) :: (middleKey, value) :: rest },
        key)

/-- The page, the recipient and the new key of the parent after `MoveFirstToEndOf`. The
loop begins at index 1: child 0 stays and child 1 goes. -/
def moveFirstToEndOf (page recipient : InternalPage K) (middleKey : K) :
    InternalPage K × InternalPage K × K :=
  match page.entries with
  | [] => (page, recipient, default)
  | [entry] =>
      ({ page with entries := [] },
        { recipient with entries := recipient.entries ++ [(middleKey, entry.2)] }, default)
  | entry :: second :: rest =>
      ({ page with entries := entry :: rest },
        { recipient with entries := recipient.entries ++ [(middleKey, entry.2)] },
        second.1)

def moveAllTo (page recipient : InternalPage K) (middleKey : K) : InternalPage K :=
  { recipient with
    entries := recipient.entries ++ page.entries.modifyHead fun entry => (middleKey, entry.2) }

end InternalPage

end BusTub.BPlusTree
