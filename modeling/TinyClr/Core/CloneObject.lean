import TinyClr.Core.HResult
import TinyClr.Core.ObjectsEqualSpec

/-!
# Copies of value types

`CLR_RT_ExecutionEngine::CloneObject`, `CopyValueType` and `NewObject` (`CLR/Core/Execution.cpp`) with
`CLR_RT_HeapBlock::Reassign` (`CLR/Core/CLR_RT_HeapBlock.cpp`), on heap blocks in memory.

New objects come from the end of what is in use.  What `InitializeReference` does with a field is
given by the type of the field: a value type has an object of its own.  No field is a reference to
a heap block or to an element of an array, so that those branches of `Reassign` are left out.
-/

namespace TinyClr.Equality

open TinyClr.Library Heap

/-! ### Memory -/

/-- The heap blocks, where the next object goes and where the heap ends -/
structure Store where
  block : Nat → HeapBlock
  next : Nat
  limit : Nat

inductive FieldType where
  | embedded (cls : Nat)
  | plain (dt : DataType)
deriving DecidableEq, Repr

/-- `dataType` of a type definition, and its fields with those of its ancestors -/
structure TypeInfo where
  dataType : DataType
  fields : List FieldType
deriving DecidableEq, Repr

def HeapBlock.setObjectReference (hb : HeapBlock) (ptr : Nat) : HeapBlock where
  id := rawId .object {} 1
  data := (hb.data.toNat / 2 ^ 32 * 2 ^ 32 + ptr % 2 ^ 32).toUInt64

def HeapBlock.boxed (hb : HeapBlock) : Bool := hb.id.flags.boxed

def HeapBlock.box (hb : HeapBlock) : HeapBlock :=
  { hb with id := { hb.id with flags := { hb.id.flags with boxed := true } } }

def Store.set (s : Store) (ptr : Nat) (hb : HeapBlock) : Store :=
  { s with block := Function.update s.block ptr hb }

/-- `ExtractHeapBlocksForClassOrValueTypes`, once there is room: a header and zeroed fields -/
def Store.allocate (s : Store) (dt : DataType) (cls totFields : Nat) : Store :=
  { s with
    next := s.next + totFields
    block := fun x =>
      if x = s.next then { id := rawId dt {} totFields, data := cls.toUInt64 }
      else if s.next < x ∧ x < s.next + totFields then { id := rawId .void {} 0, data := 0 }
      else s.block x }

/-! ### New objects -/

def initializeReference (newObject : Store → Nat → Nat → Option (HResult × Store)) (s : Store)
    (slot : Nat) : FieldType → Option (HResult × Store)
  | .plain dt => some (.ok, s.set slot { id := rawId dt { alive := true } 1, data := 0 })
  | .embedded cls => newObject s slot cls

/-- The loop of `NewObject` over the fields, the last one first -/
def initializeFields (newObject : Store → Nat → Nat → Option (HResult × Store))
    (fields : List FieldType) (obj : Nat) : Nat → Store → Option (HResult × Store)
  | 0, s => some (.ok, s)
  | totFields + 1, s => do
      let field ← fields[totFields]?
      let (res, s) ← initializeReference newObject s (obj + totFields + 1) field
      match res with
      | .ok => initializeFields newObject fields obj totFields s
      | .failed code => some (.failed code, s)

/-- `NewObject`.  The first argument bounds how deep value types are nested. -/
def newObject (types : Nat → TypeInfo) : Nat → Store → Nat → Nat → Option (HResult × Store)
  | 0, _, _, _ => none
  | depth + 1, s, slot, cls =>
      let s := s.set slot ((s.block slot).setObjectReference 0)
      let dt := (types cls).dataType
      if reference dt = false then
        some (.ok, s.set slot { s.block slot with id := rawId dt {} 1 })
      else
        match dt with
        | .string => some (.ok, s)
        | .classType | .valuetype =>
            let totFields := (types cls).fields.length + 1
            if totFields > HB_MaxSize ∨ s.next + totFields > s.limit then
              some (.failed .outOfMemory, s)
            else
              let obj := s.next
              let s := s.allocate dt cls totFields
              let s := s.set slot ((s.block slot).setObjectReference obj)
              initializeFields (newObject types depth) (types cls).fields obj (totFields - 1) s
        | _ => some (.failed .wrongType, s)

/-! ### Copies -/

def isAReferenceOfValueType (block : Nat → HeapBlock) (ptr : Nat) : Bool :=
  (block ptr).dataType == .object && (block ptr).dereference != 0 &&
    (block (block ptr).dereference).dataType == .valuetype

def isAValueType (block : Nat → HeapBlock) (ptr : Nat) : Bool :=
  isAReferenceOfValueType block ptr && !(block (block ptr).dereference).boxed

/-- `Reassign`, given `CopyValueType` -/
def reassign (copyValueType : Store → Nat → Nat → Option (HResult × Store)) (s : Store)
    (this value : Nat) : Option (HResult × Store) :=
  let fDestination := isAValueType s.block this
  let fSource := isAValueType s.block value
  if fSource ≠ fDestination ∧ fDestination ≠ isAReferenceOfValueType s.block value then
    some (.failed .wrongType, s)
  else if fDestination then
    copyValueType s (s.block this).dereference (s.block value).dereference
  else some (.ok, s.set this (s.block value))

/-- `while(true)` of `CopyValueType` -/
def copyFields (copyValueType : Store → Nat → Nat → Option (HResult × Store)) :
    Nat → Store → Nat → Nat → Option (HResult × Store)
  | 0, s, _, _ => some (.ok, s)
  | totFields + 1, s, destination, source => do
      let (res, s) ← reassign copyValueType s (destination + 1) (source + 1)
      match res with
      | .ok => copyFields copyValueType totFields s (destination + 1) (source + 1)
      | .failed code => some (.failed code, s)

/-- `CopyValueType`.  The first argument bounds how deep value types are nested; a null reference is
    a fault. -/
def copyValueType (types : Nat → TypeInfo) : Nat → Store → Nat → Nat → Option (HResult × Store)
  | 0, _, _, _ => none
  | depth + 1, s, destination, source =>
      if destination = source then some (.ok, s)
      else if destination = 0 ∨ source = 0 then none
      else if (s.block source).objectCls = (s.block destination).objectCls then
        let totFields := (types (s.block source).objectCls).fields.length
        let s := if (s.block source).boxed then s.set destination (s.block destination).box else s
        copyFields (copyValueType types depth) totFields s destination source
      else some (.failed .wrongType, s)

/-- `while(true)` of `CloneObject`: behind references -/
def resolve (block : Nat → HeapBlock) : Nat → Nat → Option (HResultOr Nat)
  | 0, _ => none
  | fuel + 1, obj =>
      if (block obj).dataType = .byref ∨ (block obj).dataType = .object then
        if (block obj).dereference = 0 then some (.error .nullReference)
        else resolve block fuel (block obj).dereference
      else some (.ok obj)

/-- `c_OptimizedValueType` of `c_CLR_RT_DataTypeLookup` -/
def optimizedValueType : DataType → Bool
  | .boolean | .i1 | .u1 | .char | .i2 | .u2 | .i4 | .u4 | .r4 | .i8 | .u8 | .r8 | .datetime
  | .timespan => true
  | _ => false

def cloneObject (types : Nat → TypeInfo) (depth : Nat) (s : Store) (slot source : Nat) :
    Option (HResult × Store) := do
  let obj ← resolve s.block depth source
  match obj with
  | .error code => some (.failed code, s)
  | .ok obj =>
      match (s.block obj).dataType with
      | .valuetype | .classType => do
          let (res, s) ← newObject types depth s slot (s.block obj).objectCls
          match res with
          | .ok => copyValueType types depth s (s.block slot).dereference obj
          | .failed code => some (.failed code, s)
      | dt =>
          if optimizedValueType dt then some (.ok, s.set slot (s.block source))
          else some (.failed .notSupported, s)

end TinyClr.Equality
