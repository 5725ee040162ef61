import TinyClr.Core.TypeSystem

/-!
# Virtual dispatch

`CLR_RT_TypeSystem::FindVirtualMethodDef` with `MatchSignature` and `BuildTypeName`
(`CLR/Core/TypeSystem.cpp`).  The device has no tables of slots: a call looks for the implementation
by the name and the signature of the called method, from the class of the object upwards.
-/

namespace TinyClr.VirtualDispatch

open TypeSystem

variable (sys : TypeSystem)

/-- `CLR_RT_MethodDef_Instance::InitializeFromIndex`: the record an index points to -/
def methodDef (idx : MethodDefIndex) : Option MethodDefRecord := do
  let assm ← sys.assemblies[idx.assembly]?
  assm.methodDef[idx.method]?

/-! ### Signatures -/

/-- `MatchSignatureElement`, with `fIsInstanceOfOK` false -/
def matchSignatureElement (resLeft resRight : Element) : Bool :=
  resLeft.fByRef = resRight.fByRef ∧ resLeft.levels = resRight.levels ∧
    resLeft.dt = resRight.dt ∧ resLeft.cls = resRight.cls

def matchSignatureDirect (assmLeft assmRight : Nat) :
    Nat → Nat → List SigItem → List SigItem → Option Bool
  | 0, iAvailRight, _, _ => some (iAvailRight = 0)
  | iAvailLeft + 1, iAvailRight, sigLeft, sigRight =>
      if iAvailLeft + 1 ≠ iAvailRight then some false
      else do
        let (resLeft, sigLeft) ← sys.advance assmLeft sigLeft
        match resLeft with
        | .error _ => some false
        | .ok resLeft => do
            let (resRight, sigRight) ← sys.advance assmRight sigRight
            match resRight with
            | .error _ => some false
            | .ok resRight =>
                if matchSignatureElement resLeft resRight then
                  matchSignatureDirect assmLeft assmRight iAvailLeft (iAvailRight - 1) sigLeft
                    sigRight
                else some false

/-- `MatchSignature` of two methods; what is available are the result and the parameters. -/
def matchSignature (assmLeft : Nat) (left : MethodSignature) (assmRight : Nat)
    (right : MethodSignature) : Option Bool :=
  if left.flags ≠ right.flags then some false
  else matchSignatureDirect sys assmLeft assmRight (left.count + 1) (right.count + 1) left.items
    right.items

/-! ### Names -/

/-- `BuildTypeName` with `TYPENAME_FLAGS_FULL` and `TYPENAME_NESTED_SEPARATOR_DOT`.  The first
    argument bounds how deep types are nested. -/
def buildTypeName : Nat → TypeDefIndex → Option String
  | 0, _ => none
  | depth + 1, cls => do
      let td ← sys.typeDef cls
      let enclosing ← match td.enclosingType with
        | none => some ""
        | some enclosingType => do
            let name ← buildTypeName depth ⟨cls.assembly, enclosingType⟩
            some (name ++ ".")
      let nameSpace := if td.nameSpace = "" then "" else td.nameSpace ++ "."
      some (enclosing ++ nameSpace ++ td.name)

/-- `MAXSTRLEN(rgBuffer)` of `FindVirtualMethodDef` -/
def maxStrLen : Nat := 511

/-- The name under which a class implements a method of an interface explicitly.  What
    `hal_vsnprintf` leaves of a text that does not fit with its end into the buffer depends on the
    platform. -/
def explicitName (inst : TypeDefIndex) (calleeName : String) : Option String := do
  let name ← buildTypeName sys (sys.types.length + 1) inst
  let text := name ++ "." ++ calleeName
  if text.utf8ByteSize < maxStrLen then some text else none

/-! ### The search -/

section Search

variable (calleeMD : MethodDefIndex) (calleeMDR : MethodDefRecord) (calleeName : String)

/-- The loop over the virtual and instance methods of a class, given their number and the first -/
def scanMethods (assm : Nat) : Nat → Nat → Option (Option MethodDefIndex)
  | 0, _ => some none
  | num + 1, md =>
      if ⟨assm, md⟩ = calleeMD then some (some calleeMD)
      else do
        let targetMDR ← methodDef sys ⟨assm, md⟩
        let found ← (if targetMDR.numArgs = calleeMDR.numArgs ∧ targetMDR.isAbstract = false ∧
            targetMDR.name = calleeName then
          matchSignature sys calleeMD.assembly calleeMDR.sig assm targetMDR.sig else some false)
        if found then some (some ⟨assm, md⟩) else scanMethods assm num (md + 1)

/-- `while(TINYCLR_INDEX_IS_VALID(clsInst))` -/
def searchClasses : Nat → TypeDefIndex → Option (Option MethodDefIndex)
  | 0, _ => none
  | fuel + 1, clsInst => do
      let targetTDR ← sys.typeDef clsInst
      match ← scanMethods sys calleeMD calleeMDR calleeName clsInst.assembly
          (targetTDR.vMethods_Num.toNat + targetTDR.iMethods_Num.toNat)
          targetTDR.methods_First with
      | some idx => some (some idx)
      | none =>
          match ← sys.switchToParent clsInst with
          | none => some none
          | some parent => searchClasses fuel parent

end Search

/-- `FindVirtualMethodDef( cls, calleeMD, calleeName, idx )` -/
def findByName (cls : TypeDefIndex) (calleeMD : MethodDefIndex) (calleeName : String) :
    Option (Option MethodDefIndex) := do
  let calleeMDR ← methodDef sys calleeMD
  searchClasses sys calleeMD calleeMDR calleeName sys.walkLimit cls

/-- `FindVirtualMethodDef( cls, calleeMD, idx )`; `owner` is the cross reference from methods to
    their types. -/
def findVirtualMethodDef (owner : MethodDefIndex → Nat) (cls : TypeDefIndex)
    (calleeMD : MethodDefIndex) : Option (Option MethodDefIndex) := do
  let calleeMDR ← methodDef sys calleeMD
  let inst : TypeDefIndex := ⟨calleeMD.assembly, owner calleeMD⟩
  let td ← sys.typeDef inst
  if td.semantics = .interface then
    let rgBuffer ← explicitName sys inst calleeMDR.name
    match ← findByName sys cls calleeMD rgBuffer with
    | some idx => some (some idx)
    | none => findByName sys cls calleeMD calleeMDR.name
  else findByName sys cls calleeMD calleeMDR.name

end TinyClr.VirtualDispatch
