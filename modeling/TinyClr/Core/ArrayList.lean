import TinyClr.Core.Queue
import TinyClr.Core.HeapCluster

/-!
# `System.Collections.ArrayList`

`CLR_RT_HeapBlock_ArrayList` (`CLR/Core/CLR_RT_HeapBlock_ArrayList.cpp`) keeps its elements in an
`object[]` with the fields `_items` and `_size`.  As for the queue, an element is a reference or
NULL, and touching a cell outside an array is a fault, `none`.

An array is allocated in blocks of the heap; `CreateInstance` computes their number in 32 bits
(`CLR/Core/CLR_RT_HeapBlock_Array.cpp`, `ExtractHeapBlocksForArray` of `CLR/Core/Execution.cpp`).
-/

namespace TinyClr.HeapBlockArrayList

open TinyClr.Library TinyClr.Heap TinyClr.HeapBlockQueue

variable {R : Type}

/-! ### Arrays -/

/-- `CONVERTFROMSIZETOHEAPBLOCKS( totLength )` of an `object[]`, in 32 bits -/
def lengthHB (length : Nat) : Nat :=
  let totLength := (sizeofHeapBlockArray + length * sizeofHeapBlock) % 2 ^ 32
  (totLength + (sizeofHeapBlock - 1)) % 2 ^ 32 / sizeofHeapBlock

/-- `CreateInstance` of an `object[]`; `allocated` tells whether the heap has the blocks.  Then
    `ClearElements` writes every element, which must lie in them. -/
def createInstance (allocated : Bool) (length : Int) : Option (HResultOr (List (Option R))) :=
  if length < 0 then some (.error .outOfRange)
  else if lengthHB length.toNat > HB_MaxSize then some (.error .outOfMemory)
  else if allocated = false then some (.error .outOfMemory)
  else if sizeofHeapBlockArray + length.toNat * sizeofHeapBlock ≤
      lengthHB length.toNat * sizeofHeapBlock then
    some (.ok (List.replicate length.toNat none))
  else none

/-- `memcpy` of the first `count` elements -/
def copyElements (dst src : List (Option R)) (count : Nat) : Option (List (Option R)) :=
  if count ≤ src.length ∧ count ≤ dst.length then some (src.take count ++ dst.drop count) else none

/-! ### The list -/

/-- The fields `_items` and `_size`. -/
structure ArrayList (R : Type) where
  items : List (Option R)
  size : Int
deriving DecidableEq, Repr

def c_DefaultCapacity : Int := 4

def empty : ArrayList R := { items := List.replicate c_DefaultCapacity.toNat none, size := 0 }

def getItem (l : ArrayList R) (index : Int) : Option (HResultOr (Option R)) :=
  if index < 0 ∨ index ≥ l.size then some (.error .outOfRange)
  else do
    let value ← getElement l.items index
    some (.ok value)

def setItem (l : ArrayList R) (index : Int) (value : Option R) :
    Option (ArrayList R × HResult) :=
  if index < 0 ∨ index ≥ l.size then some (l, .failed .outOfRange)
  else do
    let items ← setElement l.items index value
    some ({ l with items := items }, .ok)

def setCapacity (allocated : Bool) (l : ArrayList R) (newCapacity : Int) :
    Option (ArrayList R × HResult) :=
  if newCapacity ≠ l.items.length then
    if newCapacity < l.size then some (l, .failed .outOfRange)
    else do
      let newCapacity := if newCapacity < c_DefaultCapacity then c_DefaultCapacity else newCapacity
      match ← createInstance allocated newCapacity with
      | .error code => some (l, .failed code)
      | .ok newItems =>
          let newItems ←
            (if l.size > 0 then copyElements newItems l.items l.size.toNat else some newItems)
          some ({ l with items := newItems }, .ok)
  else some (l, .ok)

def ensureCapacity (allocated : Bool) (l : ArrayList R) (min currentCapacity : Int) :
    Option (ArrayList R × HResult) :=
  if currentCapacity < min then
    let newCapacity := (int32 (currentCapacity * 3)).tdiv 2
    let newCapacity := if newCapacity < min then min else newCapacity
    setCapacity allocated l newCapacity
  else some (l, .ok)

/-- `if(size == capacity)` of `Add` and of `Insert` -/
def reserve (allocated : Bool) (l : ArrayList R) : Option (ArrayList R × HResult) :=
  if l.size = l.items.length then ensureCapacity allocated l (l.size + 1) l.items.length
  else some (l, .ok)

def add (allocated : Bool) (l : ArrayList R) (value : Option R) :
    Option (ArrayList R × HResultOr Int) := do
  let size := l.size
  let (l, hr) ← reserve allocated l
  match hr with
  | .failed code => some (l, .error code)
  | .ok => do
      let items ← setElement l.items size value
      some ({ items := items, size := size + 1 }, .ok size)

def clear (l : ArrayList R) : Option (ArrayList R) := do
  let items ← clearElements l.items 0 l.size
  some { items := items, size := 0 }

/-- `do … while(--current != end)` of `Insert`: everything from `last` on moves up one slot.  The
    first argument bounds the iterations. -/
def moveUp : Nat → Int → Int → List (Option R) → Option (List (Option R))
  | 0, _, _, _ => none
  | fuel + 1, current, last, items => do
      let value ← getElement items (current - 1)
      let items ← setElement items current value
      if current - 1 ≠ last then moveUp fuel (current - 1) last items else some items

def insert (allocated : Bool) (l : ArrayList R) (index : Int) (value : Option R) :
    Option (ArrayList R × HResult) :=
  let size := l.size
  if index < 0 ∨ index > size then some (l, .failed .outOfRange)
  else do
    let (l, hr) ← reserve allocated l
    match hr with
    | .failed code => some (l, .failed code)
    | .ok => do
        let items ← (if index < size then moveUp size.toNat size index l.items else some l.items)
        let items ← setElement items index value
        some ({ items := items, size := size + 1 }, .ok)

/-- `do … while(++current != end)` of `RemoveAt`: everything up to `last` moves down one slot. -/
def moveDown : Nat → Int → Int → List (Option R) → Option (List (Option R))
  | 0, _, _, _ => none
  | fuel + 1, current, last, items => do
      let value ← getElement items (current + 1)
      let items ← setElement items current value
      if current + 1 ≠ last then moveDown fuel (current + 1) last items else some items

def removeAt (l : ArrayList R) (index : Int) : Option (ArrayList R × HResult) :=
  let size := l.size
  if index < 0 ∨ index ≥ size then some (l, .failed .outOfRange)
  else do
    let items ←
      (if index < size - 1 then moveDown size.toNat index (size - 1) l.items else some l.items)
    let size := size - 1
    let items ← setElement items size none
    some ({ items := items, size := size }, .ok)

/-! ### The machine -/

/-- A call on the list.  `allocated` tells whether the heap can hand out the array the call may
    need. -/
inductive Op (R : Type) where
  | getItem (index : Int32)
  | setItem (index : Int32) (value : Option R)
  | add (allocated : Bool) (value : Option R)
  | clear
  | insert (allocated : Bool) (index : Int32) (value : Option R)
  | removeAt (index : Int32)
  | setCapacity (allocated : Bool) (newCapacity : Int32)

inductive Answer (R : Type) where
  | done (hr : HResult)
  | value (result : HResultOr (Option R))
  | index (result : HResultOr Int)
deriving Repr

def step (l : ArrayList R) : Op R → Option (ArrayList R × Answer R)
  | .getItem index => do
      let result ← getItem l index.toInt
      some (l, .value result)
  | .setItem index value => do
      let (l, hr) ← setItem l index.toInt value
      some (l, .done hr)
  | .add allocated value => do
      let (l, result) ← add allocated l value
      some (l, .index result)
  | .clear => do
      let l ← clear l
      some (l, .done .ok)
  | .insert allocated index value => do
      let (l, hr) ← insert allocated l index.toInt value
      some (l, .done hr)
  | .removeAt index => do
      let (l, hr) ← removeAt l index.toInt
      some (l, .done hr)
  | .setCapacity allocated newCapacity => do
      let (l, hr) ← setCapacity allocated l newCapacity.toInt
      some (l, .done hr)

end TinyClr.HeapBlockArrayList
