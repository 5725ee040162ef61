import TinyClr.Core.HResult
import TinyClr.Core.TypeDef
import TinyClr.Library.MachineInt

/-!
# `System.Collections.Queue`

`CLR_RT_HeapBlock_Queue` (`CLR/Core/CLR_RT_HeapBlock_Queue.cpp`) keeps a ring in an `object[]`
with the fields `_head`, `_tail` and `_size`.  An element is a reference or NULL
(`Option R`); a value type arrives boxed, so `Reassign` on an element of an `object[]` is plain
assignment.  Touching a cell outside an array is a fault, `none`.

`CopyTo` may be given an array of any type.  What `Array::Copy` needs from the type system there
is the parameter `TypeSystem`.  The target is never the queue's own array, which is private.
-/

namespace TinyClr.HeapBlockQueue

open TinyClr.Library

variable {R C : Type}

/-! ### Arrays -/

/-- An element of an array: a reference, or what an array of another type stores. -/
inductive Cell (R C : Type) where
  | ref (obj : Option R)
  | stored (content : C)
deriving DecidableEq, Repr

/-- A target of `CopyTo`; `CreateInstance` keeps `m_numOfElements` in the range of an `int`. -/
structure HeapArray (R C : Type) where
  reflex : Reflection TypeDef
  elements : List (Cell R C)
  numOfElements_lt : elements.length < 2 ^ 31

/-- The type system as `Array::Copy` uses it: `IsInstanceOf` on an object and the element type,
    and assigning a reference to an element of an array of another type (`Reassign` for arrays
    of references, `StoreToReference` otherwise). -/
structure TypeSystem (R C : Type) where
  isInstanceOf : R → Reflection TypeDef → Bool
  reassign : Reflection TypeDef → Cell R C → Option R → HResultOr (Cell R C)
  storeToReference : Reflection TypeDef → Cell R C → Option R → HResultOr (Cell R C)

/-- The check before an element is copied to an array of another type; NULL passes. -/
def castable (types : TypeSystem R C) (dst : Reflection TypeDef) : Option R → Bool
  | none => true
  | some obj => types.isInstanceOf obj dst

/-- The body of the three loops of `Array::Copy` with an `object[]` as source. -/
def copyElement (types : TypeSystem R C) (dst : Reflection TypeDef) (element : Cell R C)
    (value : Option R) : HResultOr (Cell R C) :=
  if objectArray = dst then .ok (.ref value)
  else if castable types dst value then
    if objectArray.fReference && dst.fReference then types.reassign dst element value
    else types.storeToReference dst element value
  else .error .invalidCast

/-- `for(int i=0; i<length; i++)` of `Array::Copy`: the target array it leaves. -/
def copyLoop (types : TypeSystem R C) (dst : Reflection TypeDef) (src : List (Option R)) :
    Nat → Nat → Nat → List (Cell R C) → Option (HResult × List (Cell R C))
  | 0, _, _, elements => some (.ok, elements)
  | length + 1, indexSrc, indexDst, elements => do
      let value ← src[indexSrc]?
      let element ← elements[indexDst]?
      match copyElement types dst element value with
      | .error code => some (.failed code, elements)
      | .ok element =>
          copyLoop types dst src length (indexSrc + 1) (indexDst + 1)
            (elements.set indexDst element)

/-- The two arrays a copy leaves behind, source first, and its result. -/
abbrev Copied (R C : Type) := HResult × List (Option R) × List (Cell R C)

/-- `CLR_RT_HeapBlock_Array::Copy` between two different arrays. -/
def arrayCopy (types : TypeSystem R C) (dst : Reflection TypeDef) (src : List (Option R))
    (indexSrc : Int) (elements : List (Cell R C)) (indexDst length : Int) : Option (Copied R C) :=
  if length = 0 then some (.ok, src, elements)
  else if length < 0 ∨ indexSrc < 0 ∨ indexDst < 0 ∨ src.length < int32 (length + indexSrc) ∨
      elements.length < int32 (length + indexDst) then
    some (.failed .outOfRange, src, elements)
  else do
    let (hr, elements) ← copyLoop types dst src length.toNat indexSrc.toNat indexDst.toNat elements
    some (hr, src, elements)

/-- `memcpy` of `length` elements over the cells from `index` on. -/
def overwrite {α : Type} (cells : List α) (index : Nat) (values : List α) : Option (List α) :=
  if index + values.length ≤ cells.length then
    some (cells.take index ++ values ++ cells.drop (index + values.length))
  else none

def Cell.asRef : Cell R C → Option (Option R)
  | .ref obj => some obj
  | .stored _ => none

/-- `ObjArrayMemcpy`: the arguments of `memcpy` name the source array as its destination. -/
def objArrayMemcpy (src : List (Option R)) (indexSrc : Int) (elements : List (Cell R C))
    (indexDst length : Int) : Option (Copied R C) :=
  if indexDst + length ≤ elements.length then do
    let values ← ((elements.drop indexDst.toNat).take length.toNat).mapM Cell.asRef
    let src ← overwrite src indexSrc.toNat values
    some (.ok, src, elements)
  else none

def clearElements (array : List (Option R)) (index length : Int) : Option (List (Option R)) :=
  overwrite array index.toNat (List.replicate length.toNat none)

/-- `CreateInstance` of an `object[]`; `allocated` tells whether the heap has the blocks. -/
def createInstance (allocated : Bool) (length : Int) : HResultOr (List (Option R)) :=
  if length < 0 then .error .outOfRange
  else if allocated then .ok (List.replicate length.toNat none)
  else .error .outOfMemory

/-! ### The queue -/

structure Queue (R : Type) where
  array : List (Option R)
  head : Int
  tail : Int
  size : Int
deriving DecidableEq, Repr

def empty (capacity : Nat) : Queue R :=
  { array := List.replicate capacity none, head := 0, tail := 0, size := 0 }

def getElement (array : List (Option R)) (index : Int) : Option (Option R) :=
  if 0 ≤ index then array[index.toNat]? else none

def setElement (array : List (Option R)) (index : Int) (value : Option R) :
    Option (List (Option R)) :=
  if 0 ≤ index ∧ index < array.length then some (array.set index.toNat value) else none

def dequeue (q : Queue R) : Option (Queue R × HResultOr (Option R)) :=
  if q.size = 0 then some (q, .error .invalidOperation)
  else do
    let value ← getElement q.array q.head
    let array ← setElement q.array q.head none
    some ({ q with array := array, head := (q.head + 1) % q.array.length, size := q.size - 1 },
      .ok value)

def peek (q : Queue R) : Option (HResultOr (Option R)) :=
  if q.size = 0 then some (.error .invalidOperation)
  else do
    let value ← getElement q.array q.head
    some (.ok value)

def clear (q : Queue R) : Option (Queue R) := do
  let q ←
    if 0 < q.size then
      if q.head < q.tail then do
        let array ← clearElements q.array q.head q.size
        some { q with array := array, size := 0 }
      else do
        let array ← clearElements q.array q.head (q.array.length - q.head)
        let array ← clearElements array 0 q.tail
        some { q with array := array, size := 0 }
    else some q
  some { q with head := 0, tail := 0 }

/-- `CopyTo( toArray, index )`: the result, the queue's array and the target's elements. -/
def copyTo (types : TypeSystem R C) (q : Queue R) (toArray : HeapArray R C) (index : Int) :
    Option (Copied R C) :=
  let copy := fun src indexSrc elements indexDst length =>
    if toArray.reflex.typeOfElement = .object then
      objArrayMemcpy src indexSrc elements indexDst length
    else arrayCopy types toArray.reflex src indexSrc elements indexDst length
  if int32 (toArray.elements.length - index) < q.size then
    some (.failed .invalidParameter, q.array, toArray.elements)
  else if 0 < q.size then
    if q.head < q.tail then copy q.array q.head toArray.elements index q.size
    else do
      let firstPart : Int := q.array.length - q.head
      let (hr, array, elements) ← copy q.array q.head toArray.elements index firstPart
      if hr = .ok then copy array 0 elements (index + firstPart) q.tail
      else some (hr, array, elements)
  else some (.ok, q.array, toArray.elements)

/-- An `object[]` seen as a target of `CopyTo`. -/
def asTarget (array : List (Option R)) (h : array.length < 2 ^ 31) : HeapArray R C :=
  ⟨objectArray, array.map .ref, by rwa [List.length_map]⟩

/-- The new array of `Enqueue` after `CopyTo( array, 0 )`, whose result is not looked at. -/
def grow (types : TypeSystem R C) (q : Queue R) (array : List (Option R)) :
    Option (List (Option R)) :=
  if h : array.length < 2 ^ 31 then do
    let (_, _, elements) ← copyTo types q (asTarget array h) 0
    elements.mapM Cell.asRef
  else none

/-- The end of `Enqueue`: store at `_tail` and advance it. -/
def storeAtTail (q : Queue R) (capacity : Int) (value : Option R) :
    Option (Queue R × HResult) := do
  let array ← setElement q.array q.tail value
  some ({ q with array := array, tail := (q.tail + 1) % capacity, size := q.size + 1 }, .ok)

def enqueue (types : TypeSystem R C) (allocated : Bool) (q : Queue R) (value : Option R) :
    Option (Queue R × HResult) :=
  if q.size = q.array.length then
    match createInstance allocated (int32 (q.array.length * 2)) with
    | .error code => some (q, .failed code)
    | .ok array => do
        let array ← grow types q array
        storeAtTail { array := array, head := 0, tail := q.size, size := q.size }
          (int32 (q.array.length * 2)) value
  else storeAtTail q q.array.length value

/-! ### The machine -/

/-- A call on the queue.  `allocated` tells whether the heap can hand out the array an `enqueue`
    may need. -/
inductive Op (R C : Type) where
  | enqueue (allocated : Bool) (value : Option R)
  | dequeue
  | peek
  | clear
  | copyTo (toArray : HeapArray R C) (index : Int32)

/-- What a call returns: a result, a value, or a result and the target's contents. -/
inductive Answer (R C : Type) where
  | done (hr : HResult)
  | value (result : HResultOr (Option R))
  | copied (hr : HResult) (elements : List (Cell R C))

def step (types : TypeSystem R C) (q : Queue R) : Op R C → Option (Queue R × Answer R C)
  | .enqueue allocated value => do
      let (q, hr) ← enqueue types allocated q value
      some (q, .done hr)
  | .dequeue => do
      let (q, result) ← dequeue q
      some (q, .value result)
  | .peek => do
      let result ← peek q
      some (q, .value result)
  | .clear => do
      let q ← clear q
      some (q, .done .ok)
  | .copyTo toArray index => do
      let (hr, array, elements) ← copyTo types q toArray index.toInt
      some ({ q with array := array }, .copied hr elements)

end TinyClr.HeapBlockQueue
