import TinyClr.Library.MachineInt

/-!
# The UTF-8 / UTF-16 converter

`CLR_RT_UnicodeHelper` (`CLR/Core/CLR_RT_UnicodeHelper.cpp`) walks a NUL-terminated input and
writes a size-limited output.  The input is the memory `mem` the pointer runs over and the
pointer an index into it; reading past the end of `mem` is a fault, `none`.  The output is the
list of units written so far, in order, beside the size that remains (`m_outputUTF8_size`,
`m_outputUTF16_size`).  A `CLR_UINT32` such as `ch` is a `Nat` below `2 ^ 32`, an `int` an `Int`.
-/

namespace TinyClr.UnicodeHelper

open TinyClr.Library

def SURROGATE_HALFSHIFT : Nat := 10
def SURROGATE_HALFBASE : Nat := 0x00010000
def SURROGATE_HALFMASK : Nat := 0x000003FF
def HIGH_SURROGATE_START : Nat := 0xD800
def HIGH_SURROGATE_END : Nat := 0xDBFF
def LOW_SURROGATE_START : Nat := 0xDC00
def LOW_SURROGATE_END : Nat := 0xDFFF

/-! ### Lead bytes and low parts -/

/-- The case labels of `switch(ch & 0xF0)`. -/
inductive Lead where
  | one
  | illegal
  | two
  | three
  | four
deriving DecidableEq, Repr

/-- The case `switch(ch & 0xF0)` selects. -/
def lead (ch : Nat) : Lead :=
  match ch &&& 0xF0 with
  | 0x80 | 0x90 | 0xA0 | 0xB0 => .illegal
  | 0xC0 | 0xD0 => .two
  | 0xE0 => .three
  | 0xF0 => .four
  | _ => .one

def badLowpart (ch : Nat) : Bool := ch < 0x80 || 0xBF < ch

/-- `n` uses of `UTF8_CHECK_LOWPART`: the pointer behind them, or `some none` for `return -1`. -/
def checkLowparts (mem : List UInt8) : Nat → Nat → Option (Option Nat)
  | 0, src => some (some src)
  | n + 1, src => do
      let ch ← mem[src]?
      if badLowpart ch.toNat then some none else checkLowparts mem n (src + 1)

/-- `n` uses of `UTF8_LOAD_LOWPART`, accumulating into `ch2`. -/
def loadLowparts (mem : List UInt8) : Nat → Nat → Nat → Option Nat
  | 0, _, ch2 => some ch2
  | n + 1, src, ch2 => do
      let ch ← mem[src]?
      loadLowparts mem n (src + 1) ((ch2 <<< 6) ||| (ch.toNat &&& 0x3F))

/-! ### The counters -/

/-- The loop of `CountNumberOfCharacters`; the first argument bounds the iterations. -/
def countCharactersLoop (mem : List UInt8) : Nat → Nat → Int → Int → Option Int
  | 0, _, _, _ => none
  | fuel + 1, src, max, num => do
      let ch ← mem[src]?
      if ch.toNat = 0 then some num
      else if max = 0 then some num
      else
        let max := int32 (max - 1)
        -- the low parts the lead byte announces, and the characters it counts for
        let next (lowparts : Nat) (chars : Int) : Option Int := do
          match ← checkLowparts mem lowparts (src + 1) with
          | none => some (-1)
          | some src => countCharactersLoop mem fuel src max (int32 (num + chars))
        match lead ch.toNat with
        | .one => next 0 1
        | .illegal => some (-1)
        | .two => next 1 1
        | .three => next 2 1
        | .four => next 3 2

def countNumberOfCharacters (mem : List UInt8) (inputUTF8 : Nat) (max : Int) : Option Int :=
  countCharactersLoop mem (mem.length + 1) inputUTF8 max 0

/-- The loop of `CountNumberOfBytes`. -/
def countBytesLoop (mem : List UInt16) : Nat → Nat → Int → Int → Option Int
  | 0, _, _, _ => none
  | fuel + 1, src, max, num => do
      let ch ← mem[src]?
      let ch := ch.toNat
      if ch = 0 then some num
      else if max = 0 then some num
      else
        let max := int32 (max - 1)
        if ch < 0x0080 then countBytesLoop mem fuel (src + 1) max (int32 (num + 1))
        else if ch < 0x0800 then countBytesLoop mem fuel (src + 1) max (int32 (num + 2))
        else if LOW_SURROGATE_START ≤ ch ∧ ch ≤ LOW_SURROGATE_END then some (-1)
        else if HIGH_SURROGATE_START ≤ ch ∧ ch ≤ HIGH_SURROGATE_END then do
          let low ← mem[src + 1]?
          if LOW_SURROGATE_START ≤ low.toNat ∧ low.toNat ≤ LOW_SURROGATE_END then
            countBytesLoop mem fuel (src + 2) max (int32 (num + 4))
          else some (-1)
        else countBytesLoop mem fuel (src + 1) max (int32 (num + 3))

def countNumberOfBytes (mem : List UInt16) (inputUTF16 : Nat) (max : Int) : Option Int :=
  countBytesLoop mem (mem.length + 1) inputUTF16 max 0

/-! ### The converters -/

/-- Where one iteration of a conversion loop goes: to the loop test, out of the loop by `break`,
    or to `ExitFalse`. -/
inductive Flow (σ : Type) where
  | again (s : σ)
  | leave (s : σ)
  | exitFalse (s : σ)
deriving DecidableEq, Repr

/-- The members a conversion leaves behind, what it wrote before `m_output`, and whether it
    stored the terminating zero there. -/
structure Converted (β : Type) where
  res : Bool
  input : Nat
  output : List β
  size : Int
  terminated : Bool
deriving DecidableEq, Repr

/-- The memory a conversion wrote. -/
def Converted.written {β : Type} [OfNat β 0] (r : Converted β) : List β :=
  if r.terminated then r.output ++ [0] else r.output

structure FromState where
  input : Nat
  output : List UInt16
  size : Int
  maxChars : Int
  maxBytes : Int
deriving DecidableEq, Repr

/-- A case for a sequence of `lowparts + 1` bytes: `mask` selects the lead byte's payload and
    `units` are what is stored for the code point. -/
def fromMultiByte (mem : List UInt8) (fJustMove : Bool) (s : FromState) (ch lowparts mask : Nat)
    (width : Nat) (units : Nat → List UInt16) : Option (Flow FromState) :=
  if (lowparts : Int) + 1 ≤ s.maxBytes then
    if fJustMove then
      some (.again { s with
        input := s.input + 1 + lowparts, maxChars := s.maxChars - width,
        maxBytes := s.maxBytes - (lowparts + 1) })
    else if s.size < width then some (.exitFalse s)
    else do
      let ch2 ← loadLowparts mem lowparts (s.input + 1) (ch &&& mask)
      some (.again
        { input := s.input + 1 + lowparts, output := s.output ++ units ch2,
          size := s.size - width, maxChars := s.maxChars - width,
          maxBytes := s.maxBytes - (lowparts + 1) })
  else some (.exitFalse s)

/-- One iteration of the loop of `ConvertFromUTF8`.  Every exit un-reads the lead byte, except
    the one for an illegal lead byte. -/
def fromStep (mem : List UInt8) (fJustMove : Bool) (s : FromState) : Option (Flow FromState) := do
  let ch ← mem[s.input]?
  let ch := ch.toNat
  match lead ch with
  | .one =>
      if ch = 0 then some (.exitFalse s)
      else if fJustMove then
        some (.again { s with
          input := s.input + 1, maxChars := s.maxChars - 1, maxBytes := s.maxBytes - 1 })
      else if s.size < 1 then some (.exitFalse s)
      else some (.again
        { input := s.input + 1, output := s.output ++ [UInt16.ofNat ch], size := s.size - 1,
          maxChars := s.maxChars - 1, maxBytes := s.maxBytes - 1 })
  | .illegal => some (.exitFalse { s with input := s.input + 1 })
  | .two =>
      if ch < 0xC2 then some (.exitFalse s)
      else fromMultiByte mem fJustMove s ch 1 0x1F 1 fun ch2 => [UInt16.ofNat ch2]
  | .three => fromMultiByte mem fJustMove s ch 2 0x0F 1 fun ch2 => [UInt16.ofNat ch2]
  | .four =>
      if 0xF5 ≤ ch then some (.exitFalse s)
      else fromMultiByte mem fJustMove s ch 3 0x07 2 fun ch2 =>
        [UInt16.ofNat ((ch2 >>> SURROGATE_HALFSHIFT) + HIGH_SURROGATE_START),
         UInt16.ofNat ((ch2 &&& SURROGATE_HALFMASK) + LOW_SURROGATE_START)]

/-- `while(iMaxChars > 0 && iMaxBytes > 0)`; `iMaxChars` falls in every iteration. -/
def fromLoop (mem : List UInt8) (fJustMove : Bool) : Nat → FromState → Option (Flow FromState)
  | fuel, s =>
      if 0 < s.maxChars ∧ 0 < s.maxBytes then
        match fuel with
        | 0 => none
        | fuel + 1 =>
            match fromStep mem fJustMove s with
            | some (.again s) => fromLoop mem fJustMove fuel s
            | exit => exit
      else some (.leave s)

def convertFromUTF8 (mem : List UInt8) (inputUTF8 : Nat) (outputUTF16_size iMaxChars : Int)
    (fJustMove : Bool) (iMaxBytes : Int) : Option (Converted UInt16) := do
  let iMaxBytes := if iMaxBytes = -1 then int32 (iMaxChars * 3) else iMaxBytes
  match ← fromLoop mem fJustMove iMaxChars.toNat
      { input := inputUTF8, output := [], size := outputUTF16_size, maxChars := iMaxChars,
        maxBytes := iMaxBytes } with
  | .again s | .leave s =>
      if fJustMove then some ⟨true, s.input, s.output, s.size, false⟩
      else if s.size < 1 then some ⟨false, s.input, s.output, s.size, false⟩
      else some ⟨true, s.input, s.output, s.size, true⟩
  | .exitFalse s => some ⟨false, s.input, s.output, s.size, false⟩

structure ToState where
  input : Nat
  output : List UInt8
  size : Int
  maxChars : Int
deriving DecidableEq, Repr

/-- Storing the bytes of one character; `ExitFalse` if they do not fit. -/
def ToState.store (fJustMove : Bool) (s : ToState) (input : Nat) (bytes : List UInt8)
    (maxChars : Int) : Flow ToState :=
  if fJustMove then .again { s with input := input, maxChars := maxChars }
  else if s.size < bytes.length then .exitFalse { s with input := input }
  else .again { input := input, output := s.output ++ bytes, size := s.size - bytes.length,
                maxChars := maxChars }

def lowpart (ch : Nat) : UInt8 := UInt8.ofNat (0x80 ||| (ch &&& 0x3F))

/-- One iteration of the loop of `ConvertToUTF8`.  A surrogate pair leaves `iMaxChars` alone. -/
def toStep (mem : List UInt16) (fJustMove : Bool) (s : ToState) : Option (Flow ToState) := do
  let ch ← mem[s.input]?
  let ch := ch.toNat
  let input := s.input + 1
  if ch < 0x0080 then
    if ch = 0 then some (.leave { s with input := input })
    else some (s.store fJustMove input [UInt8.ofNat ch] (s.maxChars - 1))
  else if ch < 0x0800 then
    some (s.store fJustMove input [UInt8.ofNat (0xC0 ||| ((ch >>> 6) &&& 0x1F)), lowpart ch]
      (s.maxChars - 1))
  else if HIGH_SURROGATE_START ≤ ch ∧ ch ≤ HIGH_SURROGATE_END then do
    let low ← mem[input]?
    let ch := uint32 (((SURROGATE_HALFBASE + ((ch - HIGH_SURROGATE_START) <<< SURROGATE_HALFSHIFT)
      : Nat) : Int) + ((low.toNat : Int) - LOW_SURROGATE_START))
    some (s.store fJustMove (input + 1) [UInt8.ofNat (0xF0 ||| ((ch >>> 6 >>> 6 >>> 6) &&& 0x07)),
      lowpart (ch >>> 6 >>> 6), lowpart (ch >>> 6), lowpart ch] s.maxChars)
  else
    some (s.store fJustMove input [UInt8.ofNat (0xE0 ||| ((ch >>> 6 >>> 6) &&& 0x0F)),
      lowpart (ch >>> 6), lowpart ch] (s.maxChars - 1))

/-- `while(iMaxChars > 0)`; every iteration reads a unit, so the memory bounds the iterations. -/
def toLoop (mem : List UInt16) (fJustMove : Bool) : Nat → ToState → Option (Flow ToState)
  | fuel, s =>
      if 0 < s.maxChars then
        match fuel with
        | 0 => none
        | fuel + 1 =>
            match toStep mem fJustMove s with
            | some (.again s) => toLoop mem fJustMove fuel s
            | exit => exit
      else some (.leave s)

def convertToUTF8 (mem : List UInt16) (inputUTF16 : Nat) (outputUTF8_size iMaxChars : Int)
    (fJustMove : Bool) : Option (Converted UInt8) := do
  match ← toLoop mem fJustMove (mem.length + 1)
      { input := inputUTF16, output := [], size := outputUTF8_size, maxChars := iMaxChars } with
  | .again s | .leave s =>
      if fJustMove then some ⟨true, s.input, s.output, s.size, false⟩
      else if s.size < 1 then some ⟨false, s.input, s.output, s.size, false⟩
      else some ⟨true, s.input, s.output, s.size, true⟩
  | .exitFalse s => some ⟨false, s.input, s.output, s.size, false⟩

end TinyClr.UnicodeHelper
