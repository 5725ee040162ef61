import TinyClr.Core.HResult
import TinyClr.Core.TypeDef
import TinyClr.Library.Lineage

/-!
# The tables of the type system

Assemblies as the execution engine sees them once their references have been resolved
(`CLR/Include/TinyCLR_Types.h`, `TinyCLR_Runtime.h`, `CLR/Core/TypeSystem.cpp`): the records of the
type, field and method tables, the cross references that type references resolve to, and
signatures.  A signature is the list of its element types, each with the token that follows it.

Following an index that is in no table is a fault, `none`.
-/

namespace TinyClr

open TinyClr.Library

/-! ### Tables -/

/-- `CLR_RT_TypeDef_Index`: the position of an assembly in `m_assemblies` and of a type in its
    table -/
structure TypeDefIndex where
  assembly : Nat
  type : Nat
deriving DecidableEq, Repr

structure FieldDefIndex where
  assembly : Nat
  field : Nat
deriving DecidableEq, Repr

structure MethodDefIndex where
  assembly : Nat
  method : Nat
deriving DecidableEq, Repr

inductive Token where
  | typeRef (idx : Nat)
  | typeDef (idx : Nat)
  | typeSpec (idx : Nat)
deriving DecidableEq, Repr

/-- An element type of a signature: `DATATYPE_CLASS` and `DATATYPE_VALUETYPE` come with a token. -/
inductive SigItem where
  | pinned
  | byRef
  | szArray
  | typeToken (valueType : Bool) (tk : Token)
  | void
  | builtIn (dt : DataType)
deriving DecidableEq, Repr

/-- `TD_Semantics_Mask` -/
inductive TypeSemantics where
  | classType
  | valueType
  | interface
  | enum
deriving DecidableEq, Repr

/-- `CLR_RECORD_TYPEDEF` -/
structure TypeDefRecord where
  name : String
  nameSpace : String
  extendsIdx : Option Token
  enclosingType : Option Nat
  interfaces : List Token
  methods_First : Nat
  vMethods_Num : UInt8
  iMethods_Num : UInt8
  sMethods_Num : UInt8
  dataType : DataType
  sFields_First : Nat
  iFields_First : Nat
  sFields_Num : UInt8
  iFields_Num : UInt8
  semantics : TypeSemantics
  hasFinalizer : Bool
deriving DecidableEq, Repr

/-- `CLR_RECORD_FIELDDEF` -/
structure FieldDefRecord where
  sig : List SigItem
deriving DecidableEq, Repr

/-- The signature of a method: its calling convention, the number of its parameters and the
    element types of its result and of these -/
structure MethodSignature where
  flags : UInt8
  count : Nat
  items : List SigItem
deriving DecidableEq, Repr

/-- `CLR_RECORD_METHODDEF` -/
structure MethodDefRecord where
  name : String
  isVirtual : Bool
  newSlot : Bool
  isAbstract : Bool
  numArgs : UInt8
  sig : MethodSignature
deriving DecidableEq, Repr

/-- `CLR_RT_Assembly`; `typeRef` are the targets of `m_pCrossReference_TypeRef`. -/
structure Assembly where
  typeDef : List TypeDefRecord
  fieldDef : List FieldDefRecord
  methodDef : List MethodDefRecord
  typeRef : List TypeDefIndex
  typeSpec : List (List SigItem)
deriving Repr

/-- `CLR_RT_WellKnownTypes`; `builtIn` is `m_cls` of `c_CLR_RT_DataTypeLookup`. -/
structure WellKnownTypes where
  array : TypeDefIndex
  object : TypeDefIndex
  iList : TypeDefIndex
  iCloneable : TypeDefIndex
  void : TypeDefIndex
  delegate : TypeDefIndex
  multicastDelegate : TypeDefIndex
  weakReference : TypeDefIndex
  extendedWeakReference : TypeDefIndex
  assembly : TypeDefIndex
  type : TypeDefIndex
  constructorInfo : TypeDefIndex
  methodInfo : TypeDefIndex
  fieldInfo : TypeDefIndex
  builtIn : DataType → Option TypeDefIndex

structure TypeSystem where
  assemblies : List Assembly
  wellKnown : WellKnownTypes

namespace TypeSystem

variable (sys : TypeSystem)

/-- `InitializeFromIndex` of a type: the record an index points to -/
def typeDef (idx : TypeDefIndex) : Option TypeDefRecord := do
  let assm ← sys.assemblies[idx.assembly]?
  assm.typeDef[idx.type]?

/-- `CLR_RT_TypeDef_Instance::ResolveToken`; a token for a type specification is refused. -/
def resolveToken (assm : Nat) : Token → Option (Option TypeDefIndex)
  | .typeRef idx => do
      let a ← sys.assemblies[assm]?
      let target ← a.typeRef[idx]?
      some (some target)
  | .typeDef idx => some (some ⟨assm, idx⟩)
  | .typeSpec _ => some none

/-- `SwitchToParent`; the parent of a type without one is `some none`. -/
def switchToParent (idx : TypeDefIndex) : Option (Option TypeDefIndex) := do
  let td ← sys.typeDef idx
  match td.extendsIdx with
  | none => some none
  | some tk => sys.resolveToken idx.assembly tk

/-! ### Signatures -/

/-- `CLR_RT_SignatureParser::Element` -/
structure Element where
  dt : DataType
  fByRef : Bool
  levels : Nat
  cls : TypeDefIndex
deriving DecidableEq, Repr

/-- The loop of `Advance` over a signature, given what it reads from type specifications.
    `DATATYPE_TYPE_PINNED` lies behind the end of `c_CLR_RT_DataTypeLookup`. -/
def advanceLoop (assm : Nat) (typeSpec : Nat → Option (HResultOr Element)) :
    List SigItem → Bool → Nat → Option (HResultOr Element × List SigItem)
  | [], _, _ => none
  | .pinned :: _, _, _ => none
  | .byRef :: sig, fByRef, levels =>
      if fByRef then some (.error .wrongType, sig) else advanceLoop assm typeSpec sig true levels
  | .szArray :: sig, fByRef, levels => advanceLoop assm typeSpec sig fByRef (levels + 1)
  | .typeToken valueType tk :: sig, fByRef, levels => do
      match tk with
      | .typeSpec idx => do
          let res ← typeSpec idx
          some (res.map fun res => { res with levels := res.levels + levels }, sig)
      | tk => do
          let cls ← sys.resolveToken assm tk
          match cls with
          | none => some (.error .wrongType, sig)
          | some cls =>
              let dt := if valueType then DataType.valuetype else DataType.classType
              some (.ok { dt, fByRef, levels, cls }, sig)
  | .void :: sig, fByRef, levels =>
      some (.ok { dt := .void, fByRef, levels, cls := sys.wellKnown.void }, sig)
  | .builtIn dt :: sig, fByRef, levels =>
      match sys.wellKnown.builtIn dt with
      | none => some (.error .wrongType, sig)
      | some cls => some (.ok { dt, fByRef, levels, cls }, sig)

/-- What `Advance` reads from a type specification.  The first argument bounds how deep they
    refer to each other. -/
def typeSpecElement (assm : Nat) : Nat → Nat → Option (HResultOr Element)
  | 0, _ => none
  | depth + 1, idx => do
      let a ← sys.assemblies[assm]?
      let sig ← a.typeSpec[idx]?
      let (res, _) ← sys.advanceLoop assm (typeSpecElement assm depth) sig false 0
      some res

def typeSpecs (assm : Nat) : Nat := (sys.assemblies[assm]?.map fun a => a.typeSpec.length).getD 0

def advance (assm : Nat) (sig : List SigItem) : Option (HResultOr Element × List SigItem) :=
  sys.advanceLoop assm (sys.typeSpecElement assm (sys.typeSpecs assm + 1)) sig false 0

/-! ### The hierarchy -/

def Valid (idx : TypeDefIndex) : Prop := ∃ td, sys.typeDef idx = some td

def parent (idx : TypeDefIndex) : Option TypeDefIndex := (sys.switchToParent idx).join

def types : List TypeDefIndex :=
  (List.range sys.assemblies.length).flatMap fun a =>
    (List.range ((sys.assemblies[a]?.map fun assm => assm.typeDef.length).getD 0)).map fun t =>
      ⟨a, t⟩

/-- A walk up the hierarchy takes fewer steps than this. -/
def walkLimit : Nat := sys.types.length + 1

/-- A type and its ancestors, nearest first -/
def lineage (idx : TypeDefIndex) : List TypeDefIndex :=
  Library.lineage sys.parent sys.walkLimit idx

theorem lineage_of_root {sys : TypeSystem} {idx : TypeDefIndex} (hp : sys.parent idx = none) :
    sys.lineage idx = [idx] := Library.lineage_root hp _

/-- Resolved and without cycles: what the parent of a type is given by is a type. -/
structure Linked : Prop where
  parent_valid : ∀ idx, sys.Valid idx →
    ∃ p, sys.switchToParent idx = some p ∧ ∀ q, p = some q → sys.Valid q
  acyclic : Acyclic sys.parent

variable {sys} {idx p : TypeDefIndex}

theorem mem_types (h : sys.Valid idx) : idx ∈ sys.types := by
  obtain ⟨td, htd⟩ := h
  rw [typeDef] at htd
  cases hassm : sys.assemblies[idx.assembly]? with
  | none => rw [hassm] at htd; cases htd
  | some assm =>
    rw [hassm] at htd
    obtain ⟨ha, -⟩ := List.getElem?_eq_some_iff.mp hassm
    obtain ⟨ht, -⟩ := List.getElem?_eq_some_iff.mp htd
    refine List.mem_flatMap.mpr ⟨idx.assembly, List.mem_range.mpr ha, ?_⟩
    rw [hassm]
    exact List.mem_map.mpr ⟨idx.type, List.mem_range.mpr ht, rfl⟩

theorem valid_of_parent (hp : sys.parent idx = some p) : sys.Valid idx := by
  rw [Valid]
  cases htd : sys.typeDef idx with
  | none => simp [parent, switchToParent, htd] at hp
  | some td => exact ⟨td, rfl⟩

theorem linked_of_rank (rank : TypeDefIndex → Nat)
    (h : ∀ idx, sys.Valid idx → ∃ p, sys.switchToParent idx = some p ∧
      ∀ q, p = some q → sys.Valid q ∧ rank q < rank idx) : sys.Linked := by
  refine ⟨fun idx hidx => ?_, fun a hcycle => ?_⟩
  · obtain ⟨p, hp, hq⟩ := h idx hidx
    exact ⟨p, hp, fun q heq => (hq q heq).1⟩
  · have hstep : ∀ a b, sys.parent a = some b → rank b < rank a := by
      intro a b hab
      obtain ⟨p, hp, hq⟩ := h a (valid_of_parent hab)
      rw [parent, hp] at hab
      exact (hq b hab).2
    have hlt : ∀ b, Relation.TransGen (fun a b => sys.parent a = some b) a b →
        rank b < rank a := by
      intro b hb
      induction hb with
      | single hab => exact hstep a _ hab
      | tail _ hbc ih => exact Nat.lt_trans (hstep _ _ hbc) ih
    exact Nat.lt_irrefl _ (hlt a hcycle)

theorem valid_of_mem_types (h : idx ∈ sys.types) : sys.Valid idx := by
  obtain ⟨a, ha, h⟩ := List.mem_flatMap.mp h
  obtain ⟨t, ht, rfl⟩ := List.mem_map.mp h
  obtain ⟨assm, hassm⟩ : ∃ assm, sys.assemblies[a]? = some assm :=
    ⟨_, List.getElem?_eq_getElem (List.mem_range.mp ha)⟩
  rw [hassm] at ht
  obtain ⟨td, htd⟩ : ∃ td, assm.typeDef[t]? = some td :=
    ⟨_, List.getElem?_eq_getElem (List.mem_range.mp ht)⟩
  refine ⟨td, ?_⟩
  rw [typeDef, hassm]
  exact htd

/-- Whether every parent is a type that comes before its child -/
def checkLinked (sys : TypeSystem) : Bool :=
  sys.types.all fun idx => (sys.switchToParent idx).any fun p =>
    p.all fun q => decide (sys.types.idxOf q < sys.types.idxOf idx)

theorem linked_of_check (h : sys.checkLinked = true) : sys.Linked := by
  refine linked_of_rank sys.types.idxOf fun idx hidx => ?_
  have hany := List.all_eq_true.mp h idx (mem_types hidx)
  obtain ⟨p, hp, hall⟩ := (Option.any_eq_true _ _).mp hany
  refine ⟨p, hp, fun q hq => ?_⟩
  have hlt := of_decide_eq_true ((Option.all_eq_true _ _).mp hall q hq)
  have hmem := List.idxOf_lt_length_iff.mp (Nat.lt_of_lt_of_le hlt List.idxOf_le_length)
  exact ⟨valid_of_mem_types hmem, hlt⟩

namespace Linked

variable (h : sys.Linked)

include h

theorem valid_parent (hidx : sys.Valid idx) (hp : sys.parent idx = some p) : sys.Valid p := by
  obtain ⟨q, hq, hvalid⟩ := h.parent_valid idx hidx
  rw [parent, hq] at hp
  exact hvalid p hp

theorem switchToParent_eq (hidx : sys.Valid idx) :
    sys.switchToParent idx = some (sys.parent idx) := by
  obtain ⟨q, hq, -⟩ := h.parent_valid idx hidx
  rw [parent, hq]
  rfl

theorem valid_ancestor (hidx : sys.Valid idx) (hp : Ancestor sys.parent idx p) : sys.Valid p := by
  induction hp with
  | refl => exact hidx
  | tail _ hstep ih => exact h.valid_parent ih hstep

theorem length_lineage (hidx : sys.Valid idx) :
    (Library.lineage sys.parent sys.walkLimit idx).length < sys.walkLimit :=
  length_lineage_lt h.acyclic (fun _ hb => mem_types (h.valid_ancestor hidx hb))
    (Nat.lt_succ_self _)

theorem lineage_child (hidx : sys.Valid idx) (hp : sys.parent idx = some p) :
    sys.lineage idx = idx :: sys.lineage p :=
  (lineage_eq_cons (h.length_lineage hidx) hp).1

theorem mem_lineage (hidx : sys.Valid idx) : p ∈ sys.lineage idx ↔ Ancestor sys.parent idx p :=
  mem_lineage_iff (h.length_lineage hidx)

theorem induction {motive : TypeDefIndex → Prop}
    (hroot : ∀ a, sys.Valid a → sys.parent a = none → motive a)
    (hchild : ∀ a b, sys.Valid a → sys.parent a = some b → motive b → motive a) :
    ∀ a, sys.Valid a → motive a := by
  intro a ha
  refine lineage_induction (motive := fun a => sys.Valid a → motive a) sys.walkLimit
    (fun a hp ha => hroot a ha hp)
    (fun a b hp hb ha => hchild a b ha hp (hb (h.valid_parent ha hp))) a (h.length_lineage ha) ha

end Linked

end TypeSystem

end TinyClr
