import TinyClr.Core.HeapBlock
import TinyClr.Support.Crc

/-!
# Equality and hash codes of heap blocks

`CLR_RT_HeapBlock::ObjectsEqual`, `GetHashCode` and `GetAtomicDataUsedBytes`
(`CLR/Core/CLR_RT_HeapBlock.cpp`), on a little-endian device without application domains.

An address counts heap blocks, and 0 is NULL.  The first argument of a recursive function bounds how
deep it calls itself: `none` is a call that has not come back within it.
-/

namespace TinyClr.Equality

open TinyClr.Library TinyClr.Support Heap

/-! ### Memory -/

/-- A heap block: the header, and the eight bytes of `m_data` -/
structure HeapBlock where
  id : Header
  data : UInt64
deriving DecidableEq, Repr

namespace HeapBlock

def dataType (hb : HeapBlock) : DataType := hb.id.dataType

/-- `DataByRefConst`, as memory -/
def bytes (hb : HeapBlock) : List UInt8 :=
  (List.range 8).map fun i => (hb.data >>> (8 * i).toUInt64).toUInt8

def word (hb : HeapBlock) : Nat := hb.data.toNat % 2 ^ 32

def dereference (hb : HeapBlock) : Nat := hb.word

def objectCls (hb : HeapBlock) : Nat := hb.word

end HeapBlock

/-- `CLR_RT_HeapBlock_Array`, behind its heap block; `elements` is the memory of its elements. -/
structure ArrayHeader where
  numOfElements : Nat
  sizeOfElement : Nat
  typeOfElement : DataType
  fReference : Bool
  elements : List UInt8
deriving DecidableEq, Repr

/-- `CLR_RT_HeapBlock_Delegate`: where `m_object` is, and `m_ftn` -/
structure DelegateHead where
  object : Nat
  ftn : List UInt8
deriving DecidableEq, Repr

structure EventSource where
  eventPtr : Nat
  objectPtr : Nat
deriving DecidableEq, Repr

/-- Memory: the heap blocks, and what stands behind those of some data types -/
structure Memory where
  block : Nat → HeapBlock
  stringText : Nat → List UInt8
  array : Nat → ArrayHeader
  delegate : Nat → DelegateHead
  eventSource : Nat → EventSource

/-! ### Data types -/

/-- `m_sizeInBits` of `c_CLR_RT_DataTypeLookup`, where it is no reference -/
def sizeInBits : DataType → Nat
  | .boolean => 1
  | .i1 | .u1 => 8
  | .char | .i2 | .u2 => 16
  | .i4 | .u4 | .r4 => 32
  | .i8 | .u8 | .r8 | .datetime | .timespan => 64
  | _ => 0

def getAtomicDataUsedBytes : DataType → Nat
  | .boolean | .u1 | .char => 1
  | .i2 | .u2 => 2
  | .i4 | .u4 | .r4 => 4
  | .i8 | .u8 | .r8 | .datetime | .timespan => 8
  | _ => 8

/-! ### Equality -/

/-- The branch of `ObjectsEqual` for two arrays -/
def arraysEqual (objLeft objRight : ArrayHeader) : Bool :=
  objLeft.numOfElements == objRight.numOfElements &&
    objLeft.sizeOfElement == objRight.sizeOfElement &&
    objLeft.typeOfElement == objRight.typeOfElement && !objLeft.fReference &&
    objLeft.elements.take (objLeft.numOfElements * objLeft.sizeOfElement) ==
      objRight.elements.take (objLeft.numOfElements * objLeft.sizeOfElement)

/-- The branches of `ObjectsEqual` that do not call it again -/
def atomsEqual (mem : Memory) (left right : Nat) : Bool :=
  match (mem.block left).dataType with
  | .szarray => arraysEqual (mem.array left) (mem.array right)
  | .reflection => (mem.block left).data == (mem.block right).data
  | dt =>
      !reference dt &&
        (mem.block left).bytes.take ((sizeInBits dt + 7) / 8) ==
          (mem.block right).bytes.take ((sizeInBits dt + 7) / 8)

/-- `while(--num)` of `ObjectsEqual` over the fields of two objects -/
def equalFields (equal : Nat → Nat → Option Bool) : Nat → Nat → Nat → Option Bool
  | 0, _, _ => some true
  | num + 1, objLeft, objRight => do
      let res ← equal (objLeft + 1) (objRight + 1)
      if res = false then some false
      else equalFields equal num (objLeft + 1) (objRight + 1)

/-- How often `while(--num)` goes round for a block of this size -/
def numFields (hb : HeapBlock) : Nat := uint32 (hb.id.dataSize - 1)

def objectsEqual (mem : Memory) : Nat → Nat → Nat → Option Bool
  | 0, _, _ => none
  | fuel + 1, left, right =>
      if left = right then some true
      else if (mem.block left).dataType = (mem.block right).dataType then
        match (mem.block left).dataType with
        | .valuetype =>
            if (mem.block left).objectCls = (mem.block right).objectCls then
              equalFields (objectsEqual mem fuel) (numFields (mem.block left)) left right
            else some false
        | .object =>
            let objLeft := (mem.block left).dereference
            let objRight := (mem.block right).dereference
            if objLeft = objRight then some true
            else if objLeft ≠ 0 ∧ objRight ≠ 0 then objectsEqual mem fuel objLeft objRight
            else some false
        | _ => some (atomsEqual mem left right)
      else some false

/-! ### Hash codes -/

/-- `GetHashCode`; `totalFields` are the `m_totalFields` of the types. -/
def getHashCode (mem : Memory) (totalFields : Nat → Nat) :
    Nat → Nat → Bool → UInt32 → Option UInt32
  | 0, _, _, _ => none
  | fuel + 1, ptr, fRecurse, crc =>
      if ptr = 0 then some 0
      else
        match (mem.block ptr).dataType with
        | .object => getHashCode mem totalFields fuel (mem.block ptr).dereference fRecurse crc
        | .string =>
            some (computeCRC (mem.stringText ptr) (mem.stringText ptr).length crc)
        | .classType | .valuetype =>
            if fRecurse then
              (List.range' (ptr + 1) (totalFields (mem.block ptr).objectCls)).foldlM
                (fun crc field => getHashCode mem totalFields fuel field false crc) crc
            else some crc
        | .delegateHead => do
            let crc ← getHashCode mem totalFields fuel (mem.delegate ptr).object false crc
            some (computeCRC (mem.delegate ptr).ftn 4 crc)
        | .objectToEvent => do
            let crc ← getHashCode mem totalFields fuel (mem.eventSource ptr).eventPtr false crc
            getHashCode mem totalFields fuel (mem.eventSource ptr).objectPtr false crc
        | dt => some (computeCRC (mem.block ptr).bytes (getAtomicDataUsedBytes dt) crc)

end TinyClr.Equality
