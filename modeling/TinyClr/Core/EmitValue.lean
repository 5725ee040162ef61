import TinyClr.Core.Streams
import TinyClr.Core.TypeDef

/-!
# Numbers in a serialized stream

The branch for numbers of `EmitValue` and `ReadValue` of `CLR_RT_BinaryFormatter::TypeHandler`
(`CLR/Core/Serialization/BinaryFormatter.cpp`).

What the language leaves undefined, a shift by more than the width of a number or a quotient that
does not exist, is a fault, `none`.
-/

namespace TinyClr.Serialization

open TinyClr.Library TinyClr.Streams

/-- The value a 64-bit unsigned integer holds after a computation that yields `x`. -/
def uint64 (x : Int) : Nat := (x % 2 ^ 64).toNat

def serializationViolation : Failure := .other (int32 0xA7000000)

/-- `SerializationHintsAttribute`: `BitPacked`, `RangeBias` and `Scale` -/
structure Hints where
  bitPacked : Int
  rangeBias : Int
  scale : Nat
  bitPacked_int : -2 ^ 31 ≤ bitPacked ∧ bitPacked < 2 ^ 31
  rangeBias_int : -2 ^ 63 ≤ rangeBias ∧ rangeBias < 2 ^ 63
  scale_lt : scale < 2 ^ 64

/-- `bits` and `fSigned` of a type; `none` where it is not a number. -/
def bitsAndSign : DataType → Option (Nat × Bool)
  | .datetime => some (64, false)
  | .timespan => some (64, true)
  | .boolean => some (1, false)
  | .i1 => some (8, true)
  | .u1 => some (8, false)
  | .char => some (16, false)
  | .i2 => some (16, true)
  | .u2 => some (16, false)
  | .i4 => some (32, true)
  | .u4 => some (32, false)
  | .r4 => some (32, true)
  | .i8 => some (64, true)
  | .u8 => some (64, false)
  | .r8 => some (64, true)
  | _ => none

/-- `val <<= shift`, and `val >>= shift` as a signed or an unsigned number -/
def shiftBack (fSigned : Bool) (shift val : Nat) : Nat :=
  let val : Nat := (val <<< shift) % 2 ^ 64
  if fSigned then uint64 (int64 val >>> shift) else val >>> shift

/-- `if(m_hints.m_bitPacked) bits = m_hints.m_bitPacked` -/
def packedBits (hints : Hints) (bits : Nat) : Nat :=
  if hints.bitPacked ≠ 0 then uint32 hints.bitPacked else bits

/-- `/` of signed 64-bit numbers -/
def divideSigned (a b : Int) : Option Int :=
  if b = 0 ∨ (a = -2 ^ 63 ∧ b = -1) then none else some (a.tdiv b)

/-- The branch of `EmitValue` for signed numbers, to the bits that are written -/
def scaleSigned (hints : Hints) (bits val : Nat) : Option (HResultOr Nat) := do
  let valS := int64 val
  let valS ← if hints.scale ≠ 0 then divideSigned valS (int64 hints.scale) else some valS
  if bits ≠ 64 then
    if bits > 64 then none
    else
      let maxVal : Int := 2 ^ (bits - 1) - 1
      if valS < -maxVal - 1 ∨ valS > maxVal then some (.error serializationViolation)
      else some (.ok (uint64 valS))
  else some (.ok (uint64 valS))

def scaleUnsigned (hints : Hints) (bits val : Nat) : Option (HResultOr Nat) :=
  let valU : Nat := if hints.scale ≠ 0 then val / hints.scale else val
  if bits ≠ 64 then
    if bits > 64 then none
    else
      let maxVal := 2 ^ bits - 1
      if valU > maxVal then some (.error serializationViolation) else some (.ok valU)
  else some (.ok valU)

/-- `EmitValue` of a number; `u8` is what the heap block holds. -/
def emitValue (dt : DataType) (hints : Hints) (u8 : Nat) (s : MemoryStream) (heap : Allocator) :
    Option (HResult × MemoryStream × Allocator) := do
  let (bits, fSigned) ← bitsAndSign dt
  let shift := 64 - bits
  let val : Nat := if shift ≠ 0 then shiftBack fSigned shift u8 else u8
  let bits := packedBits hints bits
  let val := uint64 (val - hints.rangeBias)
  match ← if fSigned then scaleSigned hints bits val else scaleUnsigned hints bits val with
  | .error code => some (.failed code, s, heap)
  | .ok val => writeBits64 s heap val bits

/-- `ReadValue` of a number, to what is stored in the heap block -/
def readValue (dt : DataType) (hints : Hints) (s : MemoryStream) :
    Option (HResultOr Nat × MemoryStream) := do
  let (bits, fSigned) ← bitsAndSign dt
  let bits := packedBits hints bits
  let (val, s) ← readBits64 s bits
  match val with
  | .error code => some (.error code, s)
  | .ok val =>
      if bits > 64 then none
      else
        let val : Nat := if bits ≠ 64 then shiftBack fSigned (64 - bits) val else val
        let val : Nat := if hints.scale ≠ 0 then val * hints.scale % 2 ^ 64 else val
        some (.ok (uint64 (val + hints.rangeBias)), s)

end TinyClr.Serialization
