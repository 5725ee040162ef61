import TinyClr.Core.Locals

/-!
# The shortcut for locals

When `InitializeLocals` gives a local what `InitializeReference` gives it: `LocalSig.Agrees`, a
condition on the signature of the local, the type specification it names and the word that was found
behind it.
-/

namespace TinyClr.Locals

open FieldLayout TypeSystem

variable {sys : TypeSystem} {cr : CrossReferences} {assm depth : Nat}

/-! ### The same data type and value -/

/-- The data types whose values take both words -/
def wide : DataType → Bool
  | .i8 | .u8 | .r8 | .datetime | .timespan => true
  | _ => false

def Local.Same : Local → Local → Prop
  | .set block second _, .set block' second' _ =>
      block = block' ∧ ∀ dt, block = .data dt → wide dt = true → second = second'
  | _, _ => False

def SameOutcome {α : Type*} :
    Option (HResultOr Local × α) → Option (HResultOr Local × α) → Prop
  | some (.ok loc, rest), some (.ok loc', rest') => loc.Same loc' ∧ rest = rest'
  | some (.error code, rest), some (.error code', rest') => code = code' ∧ rest = rest'
  | none, none => True
  | _, _ => False

/-- A round of `InitializeLocals`, without what it says about `NewObject` -/
def withoutFlag {α : Type*} : HResultOr Local × Bool × α → HResultOr Local × α :=
  fun (res, _, rest) => (res, rest)

/-! ### Well-formed signatures -/

/-- An enumeration with a primitive underlying type, a primitive, or another value type -/
def IsValueType (td : TypeDefRecord) : Prop :=
  reference td.dataType = false ∨ (td.semantics ≠ .enum ∧ td.dataType = .valuetype)

/-- What a type specification in front of which nothing else stands can name -/
inductive WellFormedElement (sys : TypeSystem) (e : Element) : Prop
  | builtIn : sys.wellKnown.builtIn e.dt = some e.cls → WellFormedElement sys e
  | classToken {td : TypeDefRecord} : e.dt = .classType → sys.typeDef e.cls = some td →
      WellFormedElement sys e
  | valueToken {td : TypeDefRecord} : e.dt = .valuetype → sys.typeDef e.cls = some td →
      IsValueType td → WellFormedElement sys e

/-- The type a local has behind its prefixes -/
inductive WellFormedBase (sys : TypeSystem) (assm : Nat) : SigItem → Prop
  | builtIn {dt : DataType} {cls : TypeDefIndex} : sys.wellKnown.builtIn dt = some cls →
      WellFormedBase sys assm (.builtIn dt)
  | classToken {tk : Token} {cls : TypeDefIndex} : sys.resolveToken assm tk = some (some cls) →
      WellFormedBase sys assm (.typeToken false tk)
  | valueToken {tk : Token} {cls : TypeDefIndex} {td : TypeDefRecord} :
      sys.resolveToken assm tk = some (some cls) → sys.typeDef cls = some td → IsValueType td →
      WellFormedBase sys assm (.typeToken true tk)
  | typeSpec {valueType : Bool} {idx : Nat} {e : Element} :
      sys.typeSpecElement assm (sys.typeSpecs assm + 1) idx = some (.ok e) →
      WellFormedElement sys e → WellFormedBase sys assm (.typeToken valueType (.typeSpec idx))

structure LocalSig where
  prefixes : List SigItem
  base : SigItem

namespace LocalSig

def items (l : LocalSig) : List SigItem := l.prefixes ++ [l.base]

structure WellFormed (sys : TypeSystem) (assm : Nat) (l : LocalSig) : Prop where
  prefixes : ∀ item ∈ l.prefixes, item = .byRef ∨ item = .szArray ∨ item = .pinned
  base : WellFormedBase sys assm l.base

end LocalSig

/-- `NewObject` writes the first word only, so that a primitive that is not an enumeration keeps the
    second one. -/
def SecondWordFits (sys : TypeSystem) (cls : TypeDefIndex) (second : UInt32) : Prop :=
  ∀ td, sys.typeDef cls = some td → td.semantics ≠ .enum → wide td.dataType = true → second = 0

def IsNull (e : Element) : Prop :=
  e.fByRef = true ∨ (e.dt ≠ .valuetype ∧ reference e.dt = true)

/-- When the shortcut and the signature parser's version agree.  A local is not pinned and has one
    `BYREF` at most.  In front of a type specification without arrays stands neither `BYREF` nor
    `CLASS` unless it names a null reference, and then one of them does. -/
def LocalSig.Agrees (sys : TypeSystem) (assm : Nat) (l : LocalSig) (second : UInt32) : Prop :=
  .pinned ∉ l.prefixes ∧ l.prefixes.count .byRef ≤ 1 ∧ (.szArray ∉ l.prefixes →
    match l.base with
    | .typeToken valueType (.typeSpec idx) =>
        ∀ e, sys.typeSpecElement assm (sys.typeSpecs assm + 1) idx = some (.ok e) → e.levels = 0 →
          ((.byRef ∈ l.prefixes ∨ valueType = false) ↔ IsNull e) ∧
          (¬IsNull e → e.dt = .valuetype → SecondWordFits sys e.cls second)
    | .typeToken true tk => .byRef ∉ l.prefixes →
        ∀ cls, sys.resolveToken assm tk = some (some cls) → SecondWordFits sys cls second
    | _ => True)

/-! ### Reading a local -/

variable {sig : List SigItem}

variable {typeSpec : Nat → Option (HResultOr Element)}

variable {second : UInt32} {pinned : Bool}

variable {α : Type*}

variable {dt : DataType}

variable {cls : TypeDefIndex} {td : TypeDefRecord}

section Store

variable {t : LocalType} {e : Element} {loc : Local} {heap : Heap}

end Store

/-! ### Reading the type -/

variable {tk : Token} {valueType : Bool}

/-- The two versions do the same for a local, whatever stands behind it and whatever the allocator
    answers. -/
def LocalSig.Same (sys : TypeSystem) (cr : CrossReferences) (depth assm : Nat) (l : LocalSig)
    (loc : Local) : Prop :=
  ∀ rest heap, SameOutcome
    ((initializeLocal sys (newObject sys cr (depth + 1)) assm (l.items ++ rest) loc heap).map
      withoutFlag)
    (initializeReference sys (newObject sys cr (depth + 1)) assm (l.items ++ rest) loc heap)

variable {l : LocalSig}

variable {prefixes : List SigItem}

end TinyClr.Locals
