import TinyClr.Core.StringChars

/-!
# The UTF-8 encoding of the class library

`GetBytes` and `GetChars` of `System.Text.UTF8Encoding`
(`CLR/Libraries/CorLib/corlib_native_System_Text_UTF8Encoding.cpp`) with `hal_strncpy_s`
(`DeviceCode/pal/tinycrt/tinycrt.cpp`).

A string is the memory of its UTF-8 form and of the zero behind it; a byte array is its elements.
An access outside of either one is a fault, `none`.  Offsets and counts are `int`s, whose sums wrap
around.
-/

namespace TinyClr.Utf8Encoding

open TinyClr.Library StringChars FieldLayout

/-! ### The C library -/

def hal_strlen_s (str : List UInt8) : Option Nat := str.findIdx? (· = 0)

def memcpy (dst : List UInt8) (dstIndex : Int) (src : List UInt8) (srcIndex : Int) (count : Nat) :
    Option (List UInt8) :=
  if count = 0 then some dst
  else if 0 ≤ srcIndex ∧ srcIndex + count ≤ src.length ∧ 0 ≤ dstIndex ∧
      dstIndex + count ≤ dst.length then
    some (splice dst dstIndex.toNat ((src.drop srcIndex.toNat).take count))
  else none

/-- What `strncpy` stores: the bytes up to a zero, and zeros from there on. -/
def strncpy (src : List UInt8) : Int → Nat → Option (List UInt8)
  | _, 0 => some []
  | index, count + 1 =>
      if index < 0 then none
      else
        match src[index.toNat]? with
        | none => none
        | some ch =>
            if ch = 0 then some (List.replicate (count + 1) 0)
            else (strncpy src (index + 1) count).map (ch :: ·)

def hal_strncpy_s (strDst : List UInt8) (sizeInBytes : Nat) (strSrc : List UInt8) (index : Int)
    (count : Nat) : Option (List UInt8) :=
  if sizeInBytes = 0 then some strDst
  else if sizeInBytes < uint32 (count + 1 : Nat) then some (strDst.set 0 0)
  else if strDst.length ≤ count then none
  else do
    let stored ← strncpy strSrc index count
    some (splice (strDst.set count 0) 0 stored)

/-! ### To bytes -/

/-- `GetBytes( s )`: the array it returns -/
def getBytesOfString (str : Option (List UInt8)) (heap : Heap) :
    Option (HResultOr (List UInt8) × Heap) :=
  match str with
  | none => some (.error .nullReference, heap)
  | some str => do
      let cBytes ← hal_strlen_s str
      match ← createInstance 0 .u1 (cBytes : Nat) heap with
      | (.error code, heap) => some (.error code, heap)
      | (.ok arr, heap) => do
          let arr ← memcpy arr 0 str 0 cBytes
          some (.ok arr, heap)

/-- `GetBytes( s, charIndex, charCount, bytes, byteIndex )`: its result, and the array -/
def getBytes (str : Option (List UInt8)) (strIdx strCnt : Int)
    (pArrayBytes : Option (List UInt8)) (byteIdx : Int) :
    Option (HResultOr Int × Option (List UInt8)) :=
  match str, pArrayBytes with
  | none, _ | _, none => some (.error .nullReference, pArrayBytes)
  | some str, some bytes => do
      let cMaxBytes ← hal_strlen_s str
      if int32 (strIdx + strCnt) > int32 (cMaxBytes : Nat) then
        some (.error .outOfRange, some bytes)
      else if int32 (byteIdx + strCnt) > int32 (bytes.length : Nat) then
        some (.error .outOfRange, some bytes)
      else
        let bytes ← memcpy bytes byteIdx str strIdx (uint32 strCnt)
        some (.ok strCnt, some bytes)

/-! ### To characters -/

/-- `Helper__GetChars`; the second argument is `Arg2` and `Arg3` of the indexed method. -/
def helperGetChars (pArrayBytes : Option (List UInt8)) (indexed : Option (Int × Int))
    (heap : Heap) : Option (HResultOr (List UInt16) × Heap) := do
  let byteIdx := (indexed.map Prod.fst).getD 0
  let byteCnt ←
    match indexed with
    | some (_, byteCnt) => some byteCnt
    | none => pArrayBytes.map fun bytes => int32 (bytes.length : Nat)
  match pArrayBytes with
  | none => some (.error .nullReference, heap)
  | some bytes =>
      if int32 (byteIdx + byteCnt) > int32 (bytes.length : Nat) then
        some (.error .outOfRange, heap)
      else
        let cBytesCopy := int32 (byteCnt + 1)
        match ← createInstance 0 .u1 cBytesCopy heap with
        | (.error code, heap) => some (.error code, heap)
        | (.ok szText, heap) => do
            let szText ← hal_strncpy_s szText (uint32 cBytesCopy) bytes byteIdx (uint32 byteCnt)
            convertToCharArray (some szText) 0 (-1) heap

def getCharsOfArray (pArrayBytes : Option (List UInt8)) (heap : Heap) :
    Option (HResultOr (List UInt16) × Heap) := helperGetChars pArrayBytes none heap

def getChars (pArrayBytes : Option (List UInt8)) (byteIdx byteCnt : Int) (heap : Heap) :
    Option (HResultOr (List UInt16) × Heap) :=
  helperGetChars pArrayBytes (some (byteIdx, byteCnt)) heap

end TinyClr.Utf8Encoding
