import TinyClr.Core.TypeSystem
import TinyClr.Library.MachineInt
import Mathlib.Algebra.Ring.Nat
import Mathlib.Logic.Function.Basic

/-!
# Linking and creation of objects

`CLR_RT_Assembly::Resolve_Link` (`CLR/Core/TypeSystem.cpp`), which numbers the fields of the types
of an assembly, and `CLR_RT_ExecutionEngine::NewObject` with `InitializeReference`
(`CLR/Core/Execution.cpp`), which fill the slots of an object.

An object is the list of its heap blocks, its header first.  What the allocator answers is a list,
`false` for NULL.  A type with a finalizer has a method for it, so that registering the finalizer
fails only without memory.
-/

namespace TinyClr.FieldLayout

open TinyClr.Library

/-! ### Linking -/

/-- What `Resolve_Link` fills in of `m_pCrossReference_TypeDef`, `m_pCrossReference_FieldDef` and
    `m_pCrossReference_MethodDef` -/
structure CrossReferences where
  totalFields : TypeDefIndex → Nat
  hasFinalizer : TypeDefIndex → Bool
  offset : FieldDefIndex → Nat
  owner : MethodDefIndex → Nat

/-- `for(; num; num--, i++, fd++) fd->m_offset = i`; `m_offset` has 16 bits. -/
def numberFields (cr : CrossReferences) (assm fd : Nat) (i : Int) : Nat → CrossReferences
  | 0 => cr
  | num + 1 =>
      numberFields { cr with offset := Function.update cr.offset ⟨assm, fd⟩ (uint16 i) } assm
        (fd + 1) (i + 1) num

/-- `for(; num; num--, md++) md->m_data = idxType` -/
def linkMethods (cr : CrossReferences) (assm md idxType : Nat) : Nat → CrossReferences
  | 0 => cr
  | num + 1 =>
      linkMethods { cr with owner := Function.update cr.owner ⟨assm, md⟩ idxType } assm (md + 1)
        idxType num

/-- `do … while(inst.SwitchToParent())` of `Resolve_Link`: the fields of a type and its ancestors,
    counted in 16 bits, and whether one of them has a finalizer -/
def countFields (sys : TypeSystem) : Nat → TypeDefIndex → Nat → Bool → Option (Nat × Bool)
  | 0, _, _, _ => none
  | fuel + 1, inst, tot, finalizer => do
      let td ← sys.typeDef inst
      let finalizer := finalizer || td.hasFinalizer
      let tot := uint16 (tot + td.iFields_Num.toNat)
      match ← sys.switchToParent inst with
      | some parent => countFields sys fuel parent tot finalizer
      | none => some (tot, finalizer)

/-- One round of the loop of `Resolve_Link` over the types of an assembly -/
def linkType (sys : TypeSystem) (assm idxType iStaticFields : Nat) (cr : CrossReferences) :
    Option (CrossReferences × Nat) := do
  let src ← sys.typeDef ⟨assm, idxType⟩
  let cr := numberFields cr assm src.sFields_First iStaticFields src.sFields_Num.toNat
  let iStaticFields := iStaticFields + src.sFields_Num.toNat
  let (tot, finalizer) ← countFields sys sys.walkLimit ⟨assm, idxType⟩ 0
    (cr.hasFinalizer ⟨assm, idxType⟩)
  let cr := { cr with
    totalFields := Function.update cr.totalFields ⟨assm, idxType⟩ tot
    hasFinalizer := Function.update cr.hasFinalizer ⟨assm, idxType⟩ finalizer }
  let num := src.iFields_Num.toNat
  let cr := numberFields cr assm src.iFields_First (tot - num + 1) num
  let cr := linkMethods cr assm src.methods_First idxType
    (src.vMethods_Num.toNat + src.iMethods_Num.toNat + src.sMethods_Num.toNat)
  some (cr, iStaticFields)

/-- `ITERATE_THROUGH_RECORDS` of `Resolve_Link`, with the number of types still to come -/
def linkTypes (sys : TypeSystem) (assm : Nat) :
    Nat → Nat → Nat → CrossReferences → Option CrossReferences
  | 0, _, _, cr => some cr
  | types + 1, idxType, iStaticFields, cr => do
      let (cr, iStaticFields) ← linkType sys assm idxType iStaticFields cr
      linkTypes sys assm types (idxType + 1) iStaticFields cr

def resolveLink (sys : TypeSystem) (assm : Nat) (cr : CrossReferences) : Option CrossReferences := do
  let a ← sys.assemblies[assm]?
  linkTypes sys assm a.typeDef.length 0 0 cr

/-- `Resolve_Link` for one assembly after another -/
def resolveLinkAll (sys : TypeSystem) : List Nat → CrossReferences → Option CrossReferences
  | [], cr => some cr
  | assm :: order, cr => do
      let cr ← resolveLink sys assm cr
      resolveLinkAll sys order cr

/-- `m_iStaticFields` as `CreateInstance` counts it -/
def iStaticFields (sys : TypeSystem) (assm : Nat) : Nat :=
  ((sys.assemblies[assm]?.map fun a =>
    (a.typeDef.map fun src => src.sFields_Num.toNat).sum)).getD 0

/-! ### Objects -/

/-- A heap block: zeroed memory, the header of an object, a block of a data type with data 0 (for
    `DATATYPE_OBJECT` the null reference), or the reference to a new object. -/
inductive Block where
  | clear
  | header (cls : TypeDefIndex)
  | data (dt : DataType)
  | object (slots : List Block)
  | weakReference (extended : Bool)

def Block.null : Block := .data .object

abbrev Heap := List Bool

/-- `ExtractHeapBlocks`, as far as its caller can tell -/
def Heap.extract : Heap → Bool × Heap
  | [] => (false, [])
  | answer :: heap => (answer, heap)

/-- `InitializeReference`, given `NewObject` for the value types -/
def initializeReference (sys : TypeSystem)
    (newObject : Heap → TypeDefIndex → Option (HResultOr Block × Heap))
    (target : FieldDefRecord) (assm : Nat) (heap : Heap) : Option (HResultOr Block × Heap) := do
  let (res, _) ← sys.advance assm target.sig
  match res with
  | .error code => some (.error code, heap)
  | .ok res =>
      if res.levels > 0 then some (.ok .null, heap)
      else
        match res.dt with
        | .valuetype => do
            let td ← sys.typeDef res.cls
            if td.semantics = .enum then some (.ok (.data td.dataType), heap)
            else newObject heap res.cls
        | dt => if reference dt then some (.ok .null, heap) else some (.ok (.data dt), heap)

/-- The local variables of the loop that initialises the fields -/
structure Cursor where
  instSub : TypeDefIndex
  clsFields : Nat
  target : Option FieldDefIndex

/-- `while(clsFields == 0)`: up to the next class with fields, `false` if there is none -/
def skipClasses (sys : TypeSystem) : Nat → Cursor → Option (Bool × Cursor)
  | 0, _ => none
  | fuel + 1, cur =>
      if cur.clsFields = 0 then do
        match ← sys.switchToParent cur.instSub with
        | none => some (false, cur)
        | some parent => do
            let td ← sys.typeDef parent
            skipClasses sys fuel
              { instSub := parent, clsFields := td.iFields_Num.toNat, target := none }
      else some (true, cur)

/-- `while(--totFields > 0)`: the slots `totFields`, …, 1 are initialised.  Beside the slots it
    returns which slot was initialised for which field, the last one first. -/
def initializeFields (sys : TypeSystem)
    (newObject : Heap → TypeDefIndex → Option (HResultOr Block × Heap)) :
    Nat → Cursor → List Block → List (Nat × FieldDefIndex) → Heap →
      Option (HResultOr (List Block × List (Nat × FieldDefIndex)) × Heap)
  | 0, _, slots, done, heap => some (.ok (slots, done), heap)
  | totFields + 1, cur, slots, done, heap => do
      let (found, cur) ← skipClasses sys sys.walkLimit cur
      if found then do
        let td ← sys.typeDef cur.instSub
        let target := cur.target.getD
          ⟨cur.instSub.assembly, uint16 (td.iFields_First + cur.clsFields : Nat)⟩
        let target : FieldDefIndex := ⟨target.assembly, target.field - 1⟩
        let a ← sys.assemblies[target.assembly]?
        let fd ← a.fieldDef[target.field]?
        let (res, heap) ← initializeReference sys newObject fd target.assembly heap
        match res with
        | .error code => some (.error code, heap)
        | .ok block =>
            initializeFields sys newObject totFields
              { cur with clsFields := cur.clsFields - 1, target := some target }
              (slots.set (totFields + 1) block) ((totFields + 1, target) :: done) heap
      else some (.error .fail, heap)

/-- The branch of `NewObject` for classes and value types -/
def newClassOrValueType (sys : TypeSystem) (cr : CrossReferences)
    (newObject : Heap → TypeDefIndex → Option (HResultOr Block × Heap)) (heap : Heap)
    (inst : TypeDefIndex) (td : TypeDefRecord) : Option (HResultOr Block × Heap) :=
  let totFields := cr.totalFields inst + 1
  if totFields > HB_MaxSize then some (.error .outOfMemory, heap)
  else
    match heap.extract with
    | (false, heap) => some (.error .outOfMemory, heap)
    | (true, heap) => do
        let obj := .header inst :: List.replicate (totFields - 1) .clear
        let (res, heap) ← initializeFields sys newObject (totFields - 1)
          { instSub := inst, clsFields := td.iFields_Num.toNat, target := none } obj [] heap
        match res with
        | .error code => some (.error code, heap)
        | .ok (obj, _) =>
            if cr.hasFinalizer inst then
              match heap.extract with
              | (false, heap) => some (.error .outOfMemory, heap)
              | (true, heap) => some (.ok (.object obj), heap)
            else some (.ok (.object obj), heap)

/-- `NewObject`.  The first argument bounds how deep value types are nested. -/
def newObject (sys : TypeSystem) (cr : CrossReferences) :
    Nat → Heap → TypeDefIndex → Option (HResultOr Block × Heap)
  | 0, _, _ => none
  | depth + 1, heap, inst => do
      let td ← sys.typeDef inst
      if inst = sys.wellKnown.array then some (.error .wrongType, heap)
      else if reference td.dataType = false then some (.ok (.data td.dataType), heap)
      else
        match td.dataType with
        | .string => some (.ok .null, heap)
        | .weakclass =>
            match heap.extract with
            | (false, heap) => some (.error .outOfMemory, heap)
            | (true, heap) =>
                some (.ok (.weakReference (inst = sys.wellKnown.extendedWeakReference)), heap)
        | .classType | .valuetype =>
            newClassOrValueType sys cr (newObject sys cr depth) heap inst td
        | _ => some (.error .wrongType, heap)

end TinyClr.FieldLayout
