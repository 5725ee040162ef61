import Mathlib.Init

/-!
# Data types and sizes of heap blocks

`CLR_DataType` with the flags `c_CLR_RT_DataTypeLookup` has for it
(`CLR/Core/TypeSystemLookup.cpp`), and what heap blocks are measured in.
-/

namespace TinyClr

/-- `CLR_DataType`, without application domains -/
inductive DataType where
  | void
  | boolean
  | i1
  | u1
  | char
  | i2
  | u2
  | i4
  | u4
  | r4
  | i8
  | u8
  | r8
  | datetime
  | timespan
  | string
  | object
  | classType
  | valuetype
  | szarray
  | byref
  | freeblock
  | cachedblock
  | assembly
  | weakclass
  | reflection
  | arrayByref
  | delegateHead
  | delegatelistHead
  | objectToEvent
  | binaryBlobHead
  | thread
  | subthread
  | stackFrame
  | timerHead
  | lockHead
  | lockOwnerHead
  | lockRequestHead
  | waitForObjectHead
  | finalizerHead
  | memoryStreamHead
  | memoryStreamData
  | serializerHead
  | serializerDuplicate
  | serializerState
  | endpointHead
  | ioPort
  | i2cXaction
deriving DecidableEq, Repr

/-- `c_Numeric` of `c_CLR_RT_DataTypeLookup` -/
def DataType.numeric : DataType → Bool
  | .boolean | .i1 | .u1 | .char | .i2 | .u2 | .i4 | .u4 | .r4 | .i8 | .u8 | .r8 => true
  | _ => false

/-- `c_Reference` of `c_CLR_RT_DataTypeLookup` -/
def reference : DataType → Bool
  | .string | .object | .classType | .valuetype | .szarray | .byref | .assembly | .weakclass
  | .delegateHead | .delegatelistHead | .objectToEvent | .binaryBlobHead | .thread | .subthread
  | .stackFrame | .timerHead | .lockHead | .lockOwnerHead | .lockRequestHead | .waitForObjectHead
  | .finalizerHead | .endpointHead | .ioPort | .i2cXaction => true
  | _ => false

/-! ### Sizes -/

def HB_MaxSize : Nat := 0xFFFF

def sizeofHeapBlock : Nat := 12

def sizeofHeapBlockArray : Nat := 20

end TinyClr
