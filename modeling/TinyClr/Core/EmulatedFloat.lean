import TinyClr.Library.FixedPoint

/-!
# Emulated floating point

The numbers `R4` and `R8` of `CLR/Include/TinyCLR_Runtime__HeapBlock.h` in the build with
`TINYCLR_EMULATED_FLOATINGPOINT`, and what `CLR/Core/CLR_RT_HeapBlock.cpp` computes with them: the
cases `DATATYPE_R4` and `DATATYPE_R8` of the arithmetic, and the conversions from IEEE 754.

A signed computation that overflows leaves what fits in the type.
-/

namespace TinyClr.EmulatedFloat

open TinyClr.Library

def HB_FloatShift : Nat := 10

def HB_DoubleShift : Nat := 16

/-- `R4`, by its field `_L` -/
abbrev R4 := Signed 31

/-- `R8`, as the 64-bit number of its fields -/
abbrev R8 := Signed 63

/-! ### The operators -/

namespace R4

def addAssign (a num : R4) : R4 := Signed.wrap 31 (a.value + num.value)

def subAssign (a num : R4) : R4 := Signed.wrap 31 (a.value - num.value)

def mul (a num : R4) : R4 :=
  Signed.wrap 31 ((Signed.wrap 63 (a.value * num.value)).value / 2 ^ HB_FloatShift)

def div (a num : R4) : R4 :=
  Signed.wrap 31 ((Signed.wrap 63 (a.value * 2 ^ HB_FloatShift)).value.tdiv num.value)

end R4

namespace R8

def addAssign (a num : R8) : R8 := Signed.wrap 63 (a.value + num.value)

def subAssign (a num : R8) : R8 := Signed.wrap 63 (a.value - num.value)

/-- What `ACCUMULATE` adds to the result -/
def accumulate (op1 op2 part : Nat) : Nat :=
  let v := op1 * (op2 >>> (16 * part) % 2 ^ 16) % 2 ^ 64
  if 16 * part ≥ HB_DoubleShift then v <<< (16 * part - HB_DoubleShift) % 2 ^ 64
  else v >>> (HB_DoubleShift - 16 * part)

def mul (a num : R8) : R8 :=
  let op1 := a.value.natAbs
  let op2 := num.value.natAbs
  let fNegate := decide (a.value < 0) != decide (num.value < 0)
  let res : Nat := (accumulate op1 op2 0 + accumulate op1 op2 1 + accumulate op1 op2 2 +
    accumulate op1 op2 3) % 2 ^ 64
  let ret_value := Signed.wrap 63 res
  if fNegate ∧ ret_value.value ≠ 0 then Signed.wrap 63 (-ret_value.value) else ret_value

def div (a num : R8) : R8 :=
  Signed.wrap 63 ((Signed.wrap 63 (a.value.tdiv num.value)).value * 2 ^ HB_DoubleShift)

end R8

/-! ### Arithmetic -/

section Checks

variable {n : Nat}

def checkAdd (orig rhs r : Signed n) : Signed n :=
  if rhs.value > 0 ∧ orig.value > 0 ∧ orig.value > r.value then Signed.max n
  else if rhs.value < 0 ∧ orig.value < 0 ∧ orig.value < r.value then Signed.min n
  else r

def checkSub (orig rhs r : Signed n) : Signed n :=
  if rhs.value < 0 ∧ orig.value > 0 ∧ orig.value > r.value then Signed.max n
  else if rhs.value > 0 ∧ orig.value < 0 ∧ orig.value < r.value then Signed.min n
  else r

/-- The test for an overflow after a multiplication -/
def checkMul (orig rhs r : Signed n) : Signed n :=
  if orig.value ≠ 0 ∧ rhs.value ≠ 0 then
    let isNeg := decide (orig.value < 0)
    let isNeg := if rhs.value < 0 then !isNeg else isNeg
    if !isNeg ∧ (r.value < 0 ∨ r.value < orig.value ∨ r.value < rhs.value) then Signed.max n
    else if isNeg ∧ (r.value > 0 ∨ r.value > orig.value ∨ r.value > rhs.value) then Signed.min n
    else r
  else r

end Checks

def numericAddR4 (a right : R4) : R4 := checkAdd a right (a.addAssign right)

def numericAddR8 (a right : R8) : R8 := checkAdd a right (a.addAssign right)

/-- `NumericSub`, for `DATATYPE_R4`; the lower half of `r8`, which it reads, is `r4`. -/
def numericSubR4 (a right : R4) : R4 := checkSub a right (a.subAssign right)

def numericSubR8 (a right : R8) : R8 := checkSub a right (a.subAssign right)

def numericMulR4 (a right : R4) : R4 := checkMul a right (a.mul right)

def numericMulR8 (a right : R8) : R8 := checkMul a right (a.mul right)

/-- `NumericDiv`, for `DATATYPE_R4`; `none` for `CLR_E_DIVIDE_BY_ZERO` -/
def numericDivR4 (a right : R4) : Option R4 := if right.value = 0 then none else some (a.div right)

/-- `NumericDiv`, for `DATATYPE_R8`; `none` for `CLR_E_DIVIDE_BY_ZERO` -/
def numericDivR8 (a right : R8) : Option R8 := if right.value = 0 then none else some (a.div right)

/-! ### Conversions -/

/-- `res` of `SetFloatIEEE754`, before the sign -/
def floatRes (arg : UInt32) (mantissa : Nat) (exponent : Int) : Int :=
  if arg = 0 then 0
  else if exponent ≤ -31 then 0
  else if exponent ≥ 31 then 0x7FFFFFFF
  else if exponent > 0 then
    let tmpRes := mantissa <<< exponent.toNat % 2 ^ 64
    if tmpRes >>> 31 ≠ 0 then 0x7FFFFFFF else tmpRes
  else if exponent < 0 then (mantissa >>> (-exponent).toNat : Nat)
  else mantissa

def setFloatIEEE754 (arg : UInt32) : R4 :=
  let mantissa := (arg.toNat &&& 0x007FFFFF) ||| 0x00800000
  let exponent : Int := ((arg.toNat >>> 23) &&& 0x000000FF : Nat) - 127
  let res := floatRes arg mantissa (exponent - (23 - HB_FloatShift))
  Signed.wrap 31 (if arg.toNat &&& 0x80000000 ≠ 0 then -res else res)

/-- `res` of `SetDoubleIEEE754`, before the sign -/
def doubleRes (arg : UInt64) (mantissa : Nat) (exponent : Int) : Int :=
  if arg = 0 then 0
  else if exponent ≤ -63 then 0
  else if exponent ≥ 63 then 0x7FFFFFFFFFFFFFFF
  else if exponent > 0 then
    let mask := 0xFFFFFFFFFFFFFFFF <<< (63 - exponent).toNat % 2 ^ 64
    if mask &&& mantissa ≠ 0 then 0x7FFFFFFFFFFFFFFF
    else (mantissa <<< exponent.toNat % 2 ^ 64 : Nat)
  else if exponent < 0 then (mantissa >>> (-exponent).toNat : Nat)
  else mantissa

def setDoubleIEEE754 (arg : UInt64) : R8 :=
  let mantissa := (arg.toNat &&& 0x000FFFFFFFFFFFFF) ||| 0x0010000000000000
  let exponent : Int := ((arg.toNat >>> 52) &&& 0x7FF : Nat) - 1023
  let res := doubleRes arg mantissa (exponent - (52 - HB_DoubleShift))
  Signed.wrap 63 (if arg.toNat &&& 0x8000000000000000 ≠ 0 then -res else res)

end TinyClr.EmulatedFloat
