import TinyClr.Core.StringChars

/-!
# Splitting strings

`String.Split` (`CLR/Libraries/CorLib/corlib_native_System_String.cpp`) with
`CLR_RT_HeapBlock_String::CreateInstance` (`CLR/Core/CLR_RT_HeapBlock_String.cpp`).

The decoded characters are an array of units; `behind` is what memory holds after it, which the
conversion of a piece may read.  A new string is the memory of its text, as much as its heap block
has room for; `fresh` is what that memory holds before.  An access outside of the memory is a
fault, `none`.
-/

namespace TinyClr.StringSplit

open TinyClr.Library ArrayCreation FieldLayout UnicodeHelper StringChars

def c_WhiteSpaces : List UInt16 :=
  [0x0009, 0x000A, 0x000B, 0x000C, 0x000D, 0x0020, 0x00A0, 0x2000, 0x2001, 0x2002, 0x2003, 0x2004,
    0x2005, 0x2006, 0x2007, 0x2008, 0x2009, 0x200A, 0x200B, 0x3000, 0xFEFF]

/-- `CLR_RT_HeapBlock_String::CreateInstance( reference, length )`: the memory of the text -/
def createText (fresh : Nat → UInt8) (length : Nat) (heap : Heap) :
    Option (HResultOr (List UInt8) × Heap) :=
  let totLength := uint32 (sizeofHeapBlock + length + 1 : Nat)
  let blocks := uint32 (totLength + 11 : Nat) / 12
  if blocks > HB_MaxSize then some (.error .outOfMemory, heap)
  else
    match heap.extract with
    | (false, heap) => some (.error .outOfMemory, heap)
    | (true, heap) =>
        let szText := (List.range (blocks * sizeofHeapBlock - sizeofHeapBlock)).map fresh
        if szText = [] then none else some (.ok (szText.set 0 0), heap)

/-- `CLR_RT_HeapBlock_String::CreateInstance( reference, szText, length )` of UTF-16 units -/
def createString (fresh : Nat → UInt8) (mem : List UInt16) (szText length : Nat) (heap : Heap) :
    Option (HResultOr (List UInt8) × Heap) := do
  let lengthInBytes := uint32 (← countNumberOfBytes mem szText (int32 (length : Nat)))
  match ← createText fresh lengthInBytes heap with
  | (.error code, heap) => some (.error code, heap)
  | (.ok text, heap) => do
      let size := int32 (uint32 (lengthInBytes + 1 : Nat))
      let read ← convertToUTF8 mem szText size (int32 (length : Nat)) false
      if read.written.length > text.length then none
      else some (.ok (splice text 0 read.written), heap)

/-! ### The two passes -/

/-- The locals of a pass, the array it fills and the heap; an element of the array is null or a
    string. -/
structure Pass where
  pSrcStart : Nat
  count : Int
  fContinueSearching : Bool
  arrayDst : List (Option (List UInt8))
  heap : Heap

section Passes

variable (fresh : Nat → UInt8) (src behind pChars : List UInt16) (maxStrings : Int) (pass1 : Bool)

/-- What a pass finds at a character: `fFound` and `fContinueSearching` -/
def find (iSrc : Nat) (s : Pass) : Option (Bool × Bool) :=
  if iSrc = src.length then some (true, s.fContinueSearching)
  else if int32 (s.count + 1) ≥ maxStrings then some (false, false)
  else if s.fContinueSearching then do
    let unit ← src[iSrc]?
    some (pChars.contains unit, true)
  else some (false, false)

/-- The body of the loop over the characters -/
def splitStep (iSrc : Nat) (s : Pass) : Option (HResultOr Pass) := do
  let (fFound, fContinueSearching) ← find src pChars maxStrings iSrc s
  if fFound then
    if pass1 then
      if s.count < 0 ∨ s.arrayDst.length ≤ s.count.toNat then none
      else
        match ← createString fresh (src ++ behind) s.pSrcStart (iSrc - s.pSrcStart) s.heap with
        | (.error code, _) => some (.error code)
        | (.ok str, heap) =>
            some (.ok
              { pSrcStart := iSrc + 1
                count := int32 (s.count + 1)
                fContinueSearching := fContinueSearching
                arrayDst := s.arrayDst.set s.count.toNat (some str)
                heap := heap })
    else
      some (.ok { s with count := int32 (s.count + 1), fContinueSearching := fContinueSearching })
  else some (.ok { s with fContinueSearching := fContinueSearching })

/-- The iterations from `iSrc` on; the first argument is the number of them. -/
def splitLoop : Nat → Nat → Pass → Option (HResultOr Pass)
  | 0, _, s => some (.ok s)
  | n + 1, iSrc, s => do
      match ← splitStep fresh src behind pChars maxStrings pass1 iSrc s with
      | .error code => some (.error code)
      | .ok s => splitLoop n (iSrc + 1) s

/-- A pass over the characters and their end -/
def splitPass (arrayDst : List (Option (List UInt8))) (heap : Heap) : Option (HResultOr Pass) :=
  splitLoop fresh src behind pChars maxStrings pass1 (src.length + 1) 0
    { pSrcStart := 0, count := 0, fContinueSearching := true, arrayDst := arrayDst, heap := heap }

end Passes

/-- The characters that separate: those of `chars`, or white space -/
def separators (chars : Option (List UInt16)) : List UInt16 :=
  match chars with
  | some (c :: cs) => c :: cs
  | _ => c_WhiteSpaces

/-- `Split( chars, maxStrings )` of a string: the elements of the array it returns -/
def split (fresh : Nat → UInt8) (behind : List UInt16) (str : Option (List UInt8))
    (chars : Option (List UInt16)) (maxStrings : Int) (heap : Heap) :
    Option (HResultOr (List (Option (List UInt8)))) :=
  if maxStrings < 0 then some (.error .outOfRange)
  else if maxStrings = 0 then (createInstance none .string 0 heap).map Prod.fst
  else do
    match ← convertToCharArray str 0 (-1) heap with
    | (.error code, _) => some (.error code)
    | (.ok src, heap) =>
        let pChars := separators chars
        match ← splitPass fresh src behind pChars maxStrings false [] heap with
        | .error code => some (.error code)
        | .ok counted =>
            match ← createInstance none .string counted.count heap with
            | (.error code, _) => some (.error code)
            | (.ok arrayDst, heap) =>
                match ← splitPass fresh src behind pChars maxStrings true arrayDst heap with
                | .error code => some (.error code)
                | .ok filled => some (.ok filled.arrayDst)

end TinyClr.StringSplit
