import TinyClr.Core.TypeSystem

/-!
# Type tests

`CLR_RT_TypeDescriptor` (`CLR/Core/TypeSystem.cpp`) and `CLR_RT_ExecutionEngine::IsInstanceOf` and
`CastToType` (`CLR/Core/Execution.cpp`), which `castclass` and `isinst` run.  The descriptor of an
array records `System.Array` as its class and the element type with the number of levels beside it.
`m_flags` of a descriptor is left out, no type test reads it.
-/

namespace TinyClr

open TypeSystem

/-! ### Descriptors -/

/-- `CLR_RT_TypeDescriptor`: `m_handlerCls` and, of `m_reflex`, the levels and the type -/
structure TypeDescriptor where
  handlerCls : TypeDefIndex
  levels : Nat
  type : TypeDefIndex
deriving DecidableEq, Repr

namespace TypeDescriptor

variable (sys : TypeSystem)

def initializeFromType (cls : TypeDefIndex) : Option TypeDescriptor := do
  let _ ← sys.typeDef cls
  some { handlerCls := cls, levels := 0, type := cls }

def convertToArray (desc : TypeDescriptor) : TypeDescriptor :=
  { desc with handlerCls := sys.wellKnown.array }

/-- `InitializeFromSignatureParser` on what the parser reads next -/
def initializeFromElement (res : Element) : Option TypeDescriptor := do
  let desc ← initializeFromType sys res.cls
  some (if res.levels = 0 then desc
    else convertToArray sys { desc with levels := res.levels })

def initializeFromTypeSpec (assm idx : Nat) : Option (HResultOr TypeDescriptor) := do
  let a ← sys.assemblies[assm]?
  let sig ← a.typeSpec[idx]?
  let (res, _) ← sys.advance assm sig
  match res with
  | .error code => some (.error code)
  | .ok res => do
      let desc ← initializeFromElement sys res
      some (.ok desc)

def getElementType (desc : TypeDescriptor) : Option TypeDescriptor :=
  match desc.levels with
  | 0 => some desc
  | 1 => initializeFromType sys desc.type
  | levels + 2 => some { desc with levels := levels + 1 }

end TypeDescriptor

/-! ### `IsInstanceOf` -/

namespace ExecutionEngine

open TypeDescriptor

variable (sys : TypeSystem)

/-- The first loop of `IsInstanceOf`: array levels that both have are taken off, and whether there
    were any.  The first argument bounds the iterations. -/
def peel : Nat → TypeDescriptor → TypeDescriptor → Bool →
    Option (TypeDescriptor × TypeDescriptor × Bool)
  | 0, _, _, _ => none
  | fuel + 1, desc, descTarget, fArray =>
      if desc.levels > 0 ∧ descTarget.levels > 0 then do
        let desc ← getElementType sys desc
        let descTarget ← getElementType sys descTarget
        peel fuel desc descTarget true
      else some (desc, descTarget, fArray)

def scanInterfaces (assm : Nat) (instTarget : TypeDefIndex) : List Token → Option Bool
  | [] => some false
  | tk :: interfaces => do
      match ← sys.resolveToken assm tk with
      | none => some false
      | some cls =>
          if cls = instTarget then some true else scanInterfaces assm instTarget interfaces

/-- `do … while(inst.SwitchToParent())` of `IsInstanceOf` -/
def searchHierarchy (instTarget : TypeDefIndex) (semanticTarget : TypeSemantics) :
    Nat → TypeDefIndex → Option Bool
  | 0, _ => none
  | fuel + 1, inst =>
      if inst = instTarget then some true
      else do
        let td ← sys.typeDef inst
        let listed ← (if semanticTarget = .interface then
          scanInterfaces sys inst.assembly instTarget td.interfaces else some false)
        if listed then some true
        else
          match ← sys.switchToParent inst with
          | none => some false
          | some parent => searchHierarchy instTarget semanticTarget fuel parent

/-- `IsInstanceOf` after its first loop -/
def comparePeeled (desc descTarget : TypeDescriptor) (fArray : Bool) : Option Bool := do
  let inst := desc.handlerCls
  let instTarget := descTarget.handlerCls
  let td ← sys.typeDef inst
  let tdTarget ← sys.typeDef instTarget
  if desc.levels < descTarget.levels then some false
  else if desc.levels > descTarget.levels ∧ descTarget.levels = 0 ∧
      (inst = sys.wellKnown.array ∨ inst = sys.wellKnown.object ∨ inst = sys.wellKnown.iList ∨
        inst = sys.wellKnown.iCloneable) then some true
  else if desc.levels > descTarget.levels ∧ td.dataType ≠ tdTarget.dataType then some false
  else if fArray ∧ td.semantics ≠ tdTarget.semantics then some false
  else searchHierarchy sys instTarget tdTarget.semantics sys.walkLimit inst

def isInstanceOf (desc descTarget : TypeDescriptor) : Option Bool := do
  let (desc, descTarget, fArray) ← peel sys (desc.levels + 1) desc descTarget false
  comparePeeled sys desc descTarget fArray

/-! ### Casts -/

/-- What `InitializeFromObject` tells apart of the object that a reference refers to.  Of the
    reflection objects only those of kind `type` have levels: they stand for types, which may be
    array types. -/
inductive ObjectKind where
  | szArray (levels : Nat) (type : TypeDefIndex)
  | instance (cls : TypeDefIndex)
  | delegate (cls : Option TypeDefIndex)
  | delegateList (cls : Option TypeDefIndex)
  | weakReference (extended : Bool)
  | typeObject (levels : Nat) (type : TypeDefIndex)
  | reflection (kind : ReflectionKind)
  | data (dt : DataType)
deriving DecidableEq, Repr

/-- The class of the object a reflection object is -/
def reflectionCls : ReflectionKind → TypeDefIndex
  | .assembly => sys.wellKnown.assembly
  | .type => sys.wellKnown.type
  | .typeDelayed => sys.wellKnown.type
  | .constructor => sys.wellKnown.constructorInfo
  | .method => sys.wellKnown.methodInfo
  | .field => sys.wellKnown.fieldInfo

/-- `InitializeFromObject` of what a reference that is not null refers to -/
def initializeFromObject : ObjectKind → Option (HResultOr TypeDescriptor)
  | .szArray levels type => do
      let desc ← initializeFromType sys type
      some (.ok (convertToArray sys { desc with levels, type }))
  | .instance cls => (initializeFromType sys cls).map .ok
  | .delegate cls => (initializeFromType sys (cls.getD sys.wellKnown.delegate)).map .ok
  | .delegateList cls => (initializeFromType sys (cls.getD sys.wellKnown.multicastDelegate)).map .ok
  | .weakReference extended =>
      (initializeFromType sys (if extended then sys.wellKnown.extendedWeakReference
        else sys.wellKnown.weakReference)).map .ok
  | .typeObject levels type => do
      let desc ← initializeFromType sys (reflectionCls sys .type)
      some (.ok { desc with levels, type })
  | .reflection kind => (initializeFromType sys (reflectionCls sys kind)).map .ok
  | .data dt =>
      match sys.wellKnown.builtIn dt with
      | none => some (.error .wrongType)
      | some cls => (initializeFromType sys cls).map .ok

/-- `IsInstanceOf( obj, assm, token )` -/
def isInstanceOfToken (obj : ObjectKind) (assm : Nat) (token : Token) : Option Bool := do
  match ← initializeFromObject sys obj with
  | .error _ => some false
  | .ok desc =>
      match token with
      | .typeSpec idx => do
          match ← initializeFromTypeSpec sys assm idx with
          | .error _ => some false
          | .ok descTarget => isInstanceOf sys desc descTarget
      | token => do
          match ← sys.resolveToken assm token with
          | none => some false
          | some clsTarget =>
              if desc.handlerCls = clsTarget then some true
              else do
                let descTarget ← initializeFromType sys clsTarget
                isInstanceOf sys desc descTarget

/-- `CastToType( ref, tk, assm, fUpdate )` on a reference, with what it refers to afterwards -/
def castToType (ref : Option ObjectKind) (tk : Token) (assm : Nat) (fUpdate : Bool) :
    Option (HResult × Option ObjectKind) :=
  match ref with
  | none => some (.ok, none)
  | some obj => do
      if ← isInstanceOfToken sys obj assm tk then some (.ok, ref)
      else if fUpdate then some (.ok, none)
      else some (.failed .invalidCast, ref)

end ExecutionEngine

end TinyClr
