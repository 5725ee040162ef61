import TinyClr.Core.TypeCast
import TinyClr.Library.MachineInt
import TinyClr.Library.Overlay

/-!
# Copying between arrays

`CLR_RT_HeapBlock_Array::Copy` (`CLR/Core/CLR_RT_HeapBlock_Array.cpp`) with `LoadFromReference`,
`StoreToReference` and `Reassign` (`CLR/Core/CLR_RT_HeapBlock.cpp`) on elements of arrays.

Arrays are known by their addresses, so source and target may be one array.  A value type that only
an element refers to is part of the element: `F` stands for its fields, and copying them from an
instance of the same class (`CopyValueType`) is assignment.  Touching an element outside of an array
is a fault, `none`.
-/

namespace TinyClr.ArrayCopy

open TinyClr.Library TypeDescriptor ExecutionEngine

/-! ### Elements -/

inductive Boxed (F : Type) where
  | nothing
  | value (dt : DataType) (num : Nat)
  | fields (fields : F)

/-- An object that is referred to: its address, what `InitializeFromObject` tells of it, and what is
    boxed in it -/
structure Object (F : Type) where
  ptr : Nat
  kind : ObjectKind
  boxed : Boxed F

/-- A heap block as an element: a value in the block itself, NULL, a reference, or a reference to a
    value type of its own -/
inductive Block (F : Type) where
  | value (dt : DataType) (num : Nat)
  | null
  | object (obj : Object F)
  | struct (boxed : Bool) (cls : TypeDefIndex) (fields : F)

inductive Cell (F : Type) where
  | bytes (bytes : List UInt8)
  | block (block : Block F)

/-- `CLR_RT_HeapBlock_Array`; `levels` and `type` are its reflection data. -/
structure HeapArray (F : Type) where
  levels : Nat
  type : TypeDefIndex
  typeOfElement : DataType
  sizeOfElement : Nat
  fReference : Bool
  numOfElements : Nat
  elements : Nat → Cell F

abbrev Memory (F : Type) := Nat → HeapArray F

variable {F : Type} (sys : TypeSystem)

def numberOf : List UInt8 → Nat
  | [] => 0
  | b :: bytes => b.toNat + 256 * numberOf bytes

def bytesOf : Nat → Nat → List UInt8
  | 0, _ => []
  | n + 1, num => UInt8.ofNat num :: bytesOf n (num / 256)

def sameHeader (a b : HeapArray F) : Bool :=
  a.levels == b.levels && a.type == b.type

def get (mem : Memory F) (array : Nat) (index : Int) : Option (Cell F) :=
  if 0 ≤ index ∧ index < (mem array).numOfElements then some ((mem array).elements index.toNat)
  else none

def set (mem : Memory F) (array : Nat) (index : Nat) (cell : Cell F) : Memory F :=
  Function.update mem array
    { mem array with elements := Function.update (mem array).elements index cell }

/-! ### Heap blocks -/

def isAValueType : Block F → Bool
  | .struct boxed _ _ => !boxed
  | _ => false

/-- `IsAReferenceOfThisType( DATATYPE_VALUETYPE )` -/
def isAReferenceOfValueType : Block F → Bool
  | .struct _ _ _ => true
  | .object { boxed := .nothing, .. } => false
  | .object _ => true
  | _ => false

def copyValueType (boxed : Bool) (cls : TypeDefIndex) : Block F → HResultOr (Block F)
  | .struct boxed' cls' fields =>
      if cls' = cls then .ok (.struct (boxed || boxed') cls fields) else .error .wrongType
  | .object { kind := .instance cls', boxed := .fields fields, .. } =>
      if cls' = cls then .ok (.struct true cls fields) else .error .wrongType
  | _ => .error .wrongType

/-- `Reassign`, the new contents of the block `this` -/
def reassign (this value : Block F) : HResultOr (Block F) :=
  let fDestination := isAValueType this
  let fSource := isAValueType value
  if fSource ≠ fDestination ∧ fDestination ≠ isAReferenceOfValueType value then .error .wrongType
  else
    match this with
    | .struct false cls _ => copyValueType false cls value
    | _ => .ok value

def fixBoxingReference : Block F → Option (Block F)
  | .null => none
  | .object { boxed := .value dt num, .. } => some (.value dt num)
  | block => some block

/-- `InitializeFromObject` of a heap block -/
def initializeFromBlock : Block F → Option (HResultOr TypeDescriptor)
  | .value dt _ => initializeFromObject sys (.data dt)
  | .null => some (.error .nullReference)
  | .object obj => initializeFromObject sys obj.kind
  | .struct _ cls _ => initializeFromObject sys (.instance cls)

/-- The type of the elements: `InitializeFromObject` of the array, and `GetElementType` -/
def elementType (a : HeapArray F) : Option (HResultOr TypeDescriptor) := do
  match ← initializeFromObject sys (.szArray a.levels a.type) with
  | .error code => some (.error code)
  | .ok desc => do
      let desc ← getElementType sys desc
      some (.ok desc)

def checkCast (descDst : TypeDescriptor) (code : Failure) :
    Block F → Option (HResultOr Unit)
  | .null => some (.ok ())
  | block => do
      match ← initializeFromBlock sys block with
      | .error code => some (.error code)
      | .ok descSrc => do
          if ← isInstanceOf sys descSrc descDst then some (.ok ()) else some (.error code)

/-! ### References to elements -/

/-- `LoadFromReference` of an element; `memory` tells whether a value type can be cloned. -/
def loadFromReference (a : HeapArray F) (memory : Bool) : Cell F → Option (HResultOr (Block F))
  | .bytes bytes => if a.fReference then none else some (.ok (.value a.typeOfElement (numberOf bytes)))
  | .block block =>
      if a.fReference then
        match block with
        | .struct false cls fields =>
            if memory then some (.ok (.struct false cls fields)) else some (.error .outOfMemory)
        | block => some (.ok block)
      else none

def dataType : Block F → DataType
  | .value dt _ => dt
  | _ => .object

/-- `StoreToReference( ref, 0 )` into an array of numbers -/
def storeNumber (a : HeapArray F) (elem : Block F) : HResultOr (Cell F) :=
  match fixBoxingReference elem with
  | none => .error .nullReference
  | some obj =>
      match obj with
      | .value dt num =>
          if dt ≠ a.typeOfElement then .error .wrongType
          else .ok (.bytes (bytesOf a.sizeOfElement num))
      | _ => .error .wrongType

/-- The test of `StoreToReference` for an array of references: only a reference is tested. -/
def checkStored (a : HeapArray F) : Block F → Option (HResultOr Unit)
  | .value _ _ | .null => some (.ok ())
  | elem => do
      match ← elementType sys a with
      | .error code => some (.error code)
      | .ok descDst => checkCast sys descDst .wrongType elem

def storeToReference (a : HeapArray F) (elem : Block F) (cell : Cell F) :
    Option (HResultOr (Cell F)) :=
  if a.fReference = false then some (storeNumber a elem)
  else
    match cell with
    | .bytes _ => none
    | .block obj => do
        match ← checkStored sys a elem with
        | .error code => some (.error code)
        | .ok () =>
            match reassign obj elem with
            | .error code => some (.error code)
            | .ok obj => some (.ok (.block obj))

/-! ### `Copy` -/

def copyBlock (ptrSrc ptrDst : Cell F) : Option (HResultOr (Cell F)) :=
  match ptrSrc, ptrDst with
  | .block value, .block this =>
      match reassign this value with
      | .error code => some (.error code)
      | .ok this => some (.ok (.block this))
  | _, _ => none

/-- The body of the loop between arrays of references of different types -/
def copyReference (descDst : TypeDescriptor) (ptrSrc ptrDst : Cell F) :
    Option (HResultOr (Cell F)) :=
  match ptrSrc with
  | .bytes _ => none
  | .block value => do
      match ← checkCast sys descDst .invalidCast value with
      | .error code => some (.error code)
      | .ok () => copyBlock ptrSrc ptrDst

/-- The body of the loop between other arrays -/
def copyConverted (arraySrc arrayDst : HeapArray F) (descDst : TypeDescriptor) (memory : Bool)
    (ptrSrc ptrDst : Cell F) : Option (HResultOr (Cell F)) := do
  match ← loadFromReference arraySrc memory ptrSrc with
  | .error code => some (.error code)
  | .ok elem => do
      match ← checkCast sys descDst .invalidCast elem with
      | .error code => some (.error code)
      | .ok () => storeToReference sys arrayDst elem ptrDst

/-- `for(int i=0; i<length; i++)`, with what is left of `length` and `i`; `body` makes the new
    element from the one at `ptrSrc` and the one at `ptrDst`. -/
def copyLoop (body : Nat → Cell F → Cell F → Option (HResultOr (Cell F))) (arraySrc arrayDst : Nat)
    (incr : Int) : Nat → Nat → Int → Int → Memory F → Option (HResult × Memory F)
  | 0, _, _, _, mem => some (.ok, mem)
  | length + 1, i, ptrSrc, ptrDst, mem => do
      let src ← get mem arraySrc ptrSrc
      let dst ← get mem arrayDst ptrDst
      match ← body i src dst with
      | .error code => some (.failed code, mem)
      | .ok cell =>
          copyLoop body arraySrc arrayDst incr length (i + 1) (ptrSrc + incr) (ptrDst + incr)
            (set mem arrayDst ptrDst.toNat cell)

def memmove (mem : Memory F) (arraySrc indexSrc arrayDst indexDst length : Nat) :
    Option (Memory F) :=
  if indexSrc + length ≤ (mem arraySrc).numOfElements ∧
      indexDst + length ≤ (mem arrayDst).numOfElements then
    some (Function.update mem arrayDst
      { mem arrayDst with
        elements := overlay (mem arrayDst).elements indexDst length
          fun i => (mem arraySrc).elements (indexSrc + i) })
  else none

/-- `Copy`; `memory` tells for each element whether a value type can be cloned there. -/
def copy (memory : Nat → Bool) (mem : Memory F) (arraySrc : Nat) (indexSrc : Int) (arrayDst : Nat)
    (indexDst length : Int) : Option (HResult × Memory F) :=
  if length = 0 then some (.ok, mem)
  else if length < 0 ∨ indexSrc < 0 ∨ indexDst < 0 ∨
      int32 (length + indexSrc) > int32 (mem arraySrc).numOfElements ∨
      int32 (length + indexDst) > int32 (mem arrayDst).numOfElements then
    some (.failed .outOfRange, mem)
  else if arraySrc = arrayDst ∧ indexSrc = indexDst then some (.ok, mem)
  else if sameHeader (mem arraySrc) (mem arrayDst) then
    if (mem arraySrc).fReference = false then do
      let mem ← memmove mem arraySrc indexSrc.toNat arrayDst indexDst.toNat length.toNat
      some (.ok, mem)
    else if arraySrc = arrayDst ∧ indexSrc < indexDst then
      copyLoop (fun _ => copyBlock) arraySrc arrayDst (-1) length.toNat 0 (indexSrc + (length - 1))
        (indexDst + (length - 1)) mem
    else copyLoop (fun _ => copyBlock) arraySrc arrayDst 1 length.toNat 0 indexSrc indexDst mem
  else do
    match ← elementType sys (mem arrayDst) with
    | .error code => some (.failed code, mem)
    | .ok descDst =>
        let body :=
          if (mem arraySrc).fReference && (mem arrayDst).fReference then
            fun _ => copyReference sys descDst
          else fun i => copyConverted sys (mem arraySrc) (mem arrayDst) descDst (memory i)
        copyLoop body arraySrc arrayDst 1 length.toNat 0 indexSrc indexDst mem

end TinyClr.ArrayCopy
