import TinyClr.Core.FieldLayout
import Mathlib.Data.List.Count

/-!
# Local variables

`CLR_RT_ExecutionEngine::InitializeLocals` (`CLR/Core/Execution.cpp`) beside the version it is a
shortcut for: `CLR_RT_SignatureParser::Advance` for each local, and what `InitializeReference` does
with the element.

A local is a heap block on the stack.  The memory of the stack is not cleared, so a local has two
words of data from before: `ClearData` clears both, `SetObjectReference` writes the first.
-/

namespace TinyClr.Locals

open FieldLayout TypeSystem

/-! ### Heap blocks on the stack -/

/-- A local: as it was found, with a data type over the words that were found, with a block in it,
    or after a `NewObject` that failed, which is a reference: to nothing, or to an object whose
    fields have not all been initialised -/
inductive Local where
  | stale (second : UInt32)
  | tagged (dt : DataType) (second : UInt32)
  | set (block : Block) (second : UInt32) (pinned : Bool)
  | failed (second : UInt32)

/-- `m_data.nodeLink.prevBlock`, the second word of the data -/
def Local.second : Local → UInt32
  | .stale second | .tagged _ second | .set _ second _ | .failed second => second

/-- The data type, once there is one: `NewObject` begins with `SetObjectReference( NULL )`. -/
def Local.dataType : Local → Option DataType
  | .stale _ => none
  | .tagged dt _ | .set (.data dt) _ _ => some dt
  | .set _ _ _ | .failed _ => some .object

/-- `SetDataId(CLR_RT_HEAPBLOCK_RAW_ID(DATATYPE_I4, 0, 1))` -/
def Local.setI4 (loc : Local) : Local := .tagged .i4 loc.second

def Local.setData (dt : DataType) : Local := .set (.data dt) 0 false

def Local.setNew (newObject : Heap → TypeDefIndex → Option (HResultOr Block × Heap)) (loc : Local)
    (heap : Heap) (cls : TypeDefIndex) : Option (HResultOr Local × Heap) := do
  let (block, heap) ← newObject heap cls
  some (block.map fun block => .set block loc.second false, heap)

/-- What `InitializeReference` does with an element; one by reference is treated as an array. -/
def storeReference (sys : TypeSystem)
    (newObject : Heap → TypeDefIndex → Option (HResultOr Block × Heap)) (res : Element)
    (loc : Local) (heap : Heap) : Option (HResultOr Local × Heap) :=
  if res.fByRef = true ∨ res.levels > 0 then some (.ok (.setData .object), heap)
  else
    if res.dt = .valuetype then do
      let td ← sys.typeDef res.cls
      if td.semantics = .enum then some (.ok (.setData td.dataType), heap)
      else loc.setNew newObject heap res.cls
    else some (.ok (.setData (if reference res.dt then .object else res.dt)), heap)

def initializeReference (sys : TypeSystem)
    (newObject : Heap → TypeDefIndex → Option (HResultOr Block × Heap)) (assm : Nat)
    (sig : List SigItem) (loc : Local) (heap : Heap) :
    Option (HResultOr Local × List SigItem × Heap) := do
  let (res, sig) ← sys.advance assm sig
  match res with
  | .error code => some (.error code, sig, heap)
  | .ok res => do
      let (res, heap) ← storeReference sys newObject res loc heap
      some (res, sig, heap)

/-- `dt`, `cls`, `levels` and `dtModifier` of `InitializeLocals` -/
structure LocalType where
  dt : DataType
  cls : TypeDefIndex
  levels : Nat
  pinned : Bool

/-- `while(true)` of `InitializeLocals`: the type of the next local.  `levels` counts references as
    well, and `dt` stays what stands in front of a type specification. -/
def readLocal (sys : TypeSystem) (assm : Nat) :
    List SigItem → Nat → Bool → Option (HResultOr LocalType × List SigItem)
  | [], _, _ => none
  | .pinned :: sig, levels, _ => readLocal sys assm sig levels true
  | .szArray :: sig, levels, pinned => readLocal sys assm sig (levels + 1) pinned
  | .byRef :: sig, levels, pinned => readLocal sys assm sig (levels + 1) pinned
  | .typeToken valueType tk :: sig, levels, pinned => do
      let dt := if valueType then DataType.valuetype else DataType.classType
      match tk with
      | .typeSpec idx => do
          let res ← sys.typeSpecElement assm (sys.typeSpecs assm + 1) idx
          some (res.map fun res => { dt, cls := res.cls, levels := levels + res.levels, pinned }, sig)
      | .typeRef idx => do
          let a ← sys.assemblies[assm]?
          let cls ← a.typeRef[idx]?
          some (.ok { dt, cls, levels, pinned }, sig)
      | .typeDef idx => some (.ok { dt, cls := ⟨assm, idx⟩, levels, pinned }, sig)
  | .void :: sig, _, _ => some (.error .wrongType, sig)
  | .builtIn dt :: sig, levels, pinned =>
      match sys.wellKnown.builtIn dt with
      | none => some (.error .wrongType, sig)
      | some cls => some (.ok { dt, cls, levels, pinned }, sig)

/-- The part of `InitializeLocals` behind `done`, and whether it has called `NewObject` -/
def storeLocal (sys : TypeSystem)
    (newObject : Heap → TypeDefIndex → Option (HResultOr Block × Heap)) (t : LocalType)
    (loc : Local) (heap : Heap) : Option (HResultOr Local × Bool × Heap) :=
  if t.levels > 0 then some (.ok (.set .null loc.second t.pinned), false, heap)
  else if t.dt = .valuetype then do
    let td ← sys.typeDef t.cls
    if td.dataType ≠ .valuetype then some (.ok (.setData td.dataType), false, heap)
    else do
      let (res, heap) ← loc.setNew newObject heap t.cls
      some (res, true, heap)
  else some (.ok (.setData (if reference t.dt then .object else t.dt)), false, heap)

/-- One round of the loop of `InitializeLocals`, and whether it has called `NewObject` -/
def initializeLocal (sys : TypeSystem)
    (newObject : Heap → TypeDefIndex → Option (HResultOr Block × Heap)) (assm : Nat)
    (sig : List SigItem) (loc : Local) (heap : Heap) :
    Option (HResultOr Local × Bool × List SigItem × Heap) := do
  let (res, sig) ← readLocal sys assm sig 0 false
  match res with
  | .error code => some (.error code, false, sig, heap)
  | .ok t => do
      let (res, allocates, heap) ← storeLocal sys newObject t loc heap
      some (res, allocates, sig, heap)

end TinyClr.Locals
