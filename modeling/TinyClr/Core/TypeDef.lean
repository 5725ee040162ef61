import TinyClr.Core.DataType

/-!
# How the linker classifies types

The data type a type definition carries on the device is chosen by the linker
(`Linker::ProcessTypeDef`): a few built-in names have their own, an enumeration takes the one of
its underlying field, and the rest are value types or classes.  Arrays take the data type of
their elements from there (`ExtractHeapBlocksForArray`).
-/

namespace TinyClr

/-- The element types a field of an enumeration may have. -/
inductive EnumField where
  | boolean
  | char
  | i1
  | u1
  | i2
  | u2
  | i4
  | u4
  | i8
  | u8
deriving DecidableEq, Repr

def mapElementTypeToDataType : EnumField → DataType
  | .boolean => .boolean
  | .char => .char
  | .i1 => .i1
  | .u1 => .u1
  | .i2 => .i2
  | .u2 => .u2
  | .i4 => .i4
  | .u4 => .u4
  | .i8 => .i8
  | .u8 => .u8

/-- `TD_Semantics_Mask`; an enumeration comes with its special-name field, if it has one. -/
inductive Semantics where
  | valueType
  | enum (field : Option EnumField)
  | classType
  | interface
deriving DecidableEq, Repr

structure TypeDef where
  assembly : String
  name : String
  semantics : Semantics
deriving DecidableEq, Repr

/-- `c_Builtins` of `Linker::ProcessTypeDef`. -/
def builtins : List (String × DataType) :=
  [("System.Boolean", .boolean), ("System.Char", .char), ("System.SByte", .i1),
   ("System.Byte", .u1), ("System.Int16", .i2), ("System.UInt16", .u2), ("System.Int32", .i4),
   ("System.UInt32", .u4), ("System.Int64", .i8), ("System.UInt64", .u8),
   ("System.Single", .r4), ("System.Double", .r8), ("System.DateTime", .datetime),
   ("System.TimeSpan", .timespan), ("System.String", .string),
   ("System.RuntimeTypeHandle", .reflection), ("System.RuntimeFieldHandle", .reflection),
   ("System.RuntimeMethodHandle", .reflection), ("System.WeakReference", .weakclass),
   ("Microsoft.SPOT.ExtendedWeakReference", .weakclass)]

/-- The data type `ProcessTypeDef` gives a type that is not built in. -/
def Semantics.dataType : Semantics → DataType
  | .valueType => .valuetype
  | .enum none => .i4
  | .enum (some field) => mapElementTypeToDataType field
  | .classType => .classType
  | .interface => .classType

def TypeDef.dataType (td : TypeDef) : DataType :=
  (builtins.lookup td.name).getD td.semantics.dataType

theorem builtins_ne_object : ∀ entry ∈ builtins, entry.2 ≠ .object := by decide

theorem mem_of_lookup {key : String} {value : DataType} :
    ∀ {table : List (String × DataType)}, table.lookup key = some value → (key, value) ∈ table
  | [], h => by simp at h
  | (k, v) :: table, h => by
      rw [List.lookup_cons] at h
      split at h
      next hkey =>
        rw [beq_iff_eq.mp hkey, Option.some.inj h]
        exact List.mem_cons_self
      next => exact List.mem_cons_of_mem _ (mem_of_lookup h)

theorem Semantics.dataType_ne_object (s : Semantics) : s.dataType ≠ .object := by
  rcases s with _ | (_ | field) | _ | _ <;> try exact DataType.noConfusion
  cases field <;> exact DataType.noConfusion

/-- The linker gives no type definition the data type `DATATYPE_OBJECT`, `System.Object`
    included: that data type marks references, not types. -/
theorem TypeDef.dataType_ne_object (td : TypeDef) : td.dataType ≠ .object := by
  unfold TypeDef.dataType
  rcases hlookup : builtins.lookup td.name with _ | dt
  · exact td.semantics.dataType_ne_object
  · exact builtins_ne_object _ (mem_of_lookup hlookup)

/-! ### Array headers -/

def wellKnownObject : TypeDef := ⟨"mscorlib", "System.Object", .classType⟩

def wellKnownArray : TypeDef := ⟨"mscorlib", "System.Array", .classType⟩

/-- `m_kind` of a reflection object -/
inductive ReflectionKind where
  | assembly
  | type
  | typeDelayed
  | constructor
  | method
  | field
deriving DecidableEq, Repr

/-- `CLR_RT_ReflectionDef_Index`: for an array, how many levels of array over which type. -/
structure Reflection (T : Type) where
  kind : ReflectionKind
  levels : Nat
  type : T
deriving DecidableEq, Repr

/-- The type of the elements as `CLR_RT_HeapBlock_Array::CreateInstance` resolves it. -/
def Reflection.cls (reflex : Reflection TypeDef) : TypeDef :=
  if reflex.levels = 1 then reflex.type else wellKnownArray

def Reflection.typeOfElement (reflex : Reflection TypeDef) : DataType := reflex.cls.dataType

def Reflection.fReference (reflex : Reflection TypeDef) : Bool := !reflex.typeOfElement.numeric

def objectArray : Reflection TypeDef := ⟨.type, 1, wellKnownObject⟩

theorem Reflection.typeOfElement_ne_object (reflex : Reflection TypeDef) :
    reflex.typeOfElement ≠ .object := reflex.cls.dataType_ne_object

end TinyClr
