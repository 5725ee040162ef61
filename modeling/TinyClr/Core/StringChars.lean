import TinyClr.Core.ArrayCreation
import TinyClr.Core.UnicodeRoundTrip
import TinyClr.Library.Splice

/-!
# The characters of a string

`ConvertToCharArray` (`CLR/Libraries/CorLib/corlib_native_System_String.cpp`) with `CheckRange`
(`CLR/Core/CLR_RT_HeapBlock_Array.cpp`): a zero-terminated UTF-8 text becomes an array of UTF-16
units.  The text is the memory from its first byte on, and the array is made on the heap of
`CreateInstance`.
-/

namespace TinyClr.StringChars

open TinyClr.Library ArrayCreation FieldLayout UnicodeHelper

/-! ### Arrays of well-known types -/

/-- `CLR_RT_HeapBlock_Array::CreateInstance` of a well-known type, whose elements `ClearElements`
    sets to `zero`; an `int` is converted to the length. -/
def createInstance {β : Type} (zero : β) (dt : DataType) (length : Int) (heap : Heap) :
    Option (HResultOr (List β) × Heap) :=
  if int32 length < 0 then some (.error .outOfRange, heap)
  else
    let length := UInt32.ofNat (int32 length).toNat
    if (lengthHB dt length).toNat > HB_MaxSize then some (.error .outOfMemory, heap)
    else
      match heap.extract with
      | (false, heap) => some (.error .outOfMemory, heap)
      | (true, heap) =>
          let cleared := (length * (sizeInBytes dt).toUInt32).toNat
          if sizeofHeapBlockArray + cleared > (lengthHB dt length).toNat * sizeofHeapBlock then none
          else some (.ok (List.replicate length.toNat zero), heap)

/-- There is memory for an array. -/
def Available (dt : DataType) (length : Nat) (heap : Heap) : Prop :=
  (length * (sizeInBytes dt).toNat + 31) / 12 ≤ HB_MaxSize ∧ heap.extract.1 = true

instance (dt : DataType) (length : Nat) (heap : Heap) : Decidable (Available dt length heap) :=
  inferInstanceAs (Decidable (_ ∧ _))

section Arrays

variable {β : Type} {zero : β} {dt : DataType} {heap : Heap}

theorem createInstance_negative {length : Int} (h : int32 length < 0) :
    createInstance zero dt length heap = some (.error .outOfRange, heap) := by
  rw [createInstance, if_pos h]

theorem lengthHB_nat {length : Nat} (hlength : length < 2 ^ 31)
    (hsize : length * (sizeInBytes dt).toNat + 31 < 2 ^ 32) :
    (UInt32.ofNat length).toNat = length ∧
      (lengthHB dt (UInt32.ofNat length)).toNat = (length * (sizeInBytes dt).toNat + 31) / 12 := by
  have hword : (UInt32.ofNat length).toNat = length := by
    rw [UInt32.toNat_ofNat', Nat.mod_eq_of_lt (by omega)]
  refine ⟨hword, ?_⟩
  rw [lengthHB_eq (by rw [hword]; omega), hword]

theorem createInstance_available {length : Nat} (hlength : length < 2 ^ 31)
    (hsize : length * (sizeInBytes dt).toNat + 31 < 2 ^ 32) (h : Available dt length heap) :
    createInstance zero dt length heap =
      some (.ok (List.replicate length zero), heap.extract.2) := by
  obtain ⟨hle, hroom⟩ := h
  have hint : int32 (length : Nat) = length := int32_eq_self (by omega) (by omega)
  obtain ⟨hword, hblocks⟩ := lengthHB_nat hlength hsize
  have hcleared : (UInt32.ofNat length * (sizeInBytes dt).toUInt32).toNat =
      length * (sizeInBytes dt).toNat := by
    rw [UInt32.toNat_mul, hword, UInt8.toNat_toUInt32, Nat.mod_eq_of_lt (by omega)]
  rw [createInstance, hint, if_neg (by omega), Int.toNat_natCast]
  simp only [hblocks, hcleared, hword]
  rw [if_neg (Nat.not_lt.mpr hle)]
  rcases hextract : heap.extract with ⟨_ | _, heap'⟩
  · rw [hextract] at hroom
    cases hroom
  · dsimp only
    rw [if_neg]
    rw [sizeofHeapBlockArray, sizeofHeapBlock]
    omega

theorem createInstance_unavailable {length : Nat} (hlength : length < 2 ^ 31)
    (hsize : length * (sizeInBytes dt).toNat + 31 < 2 ^ 32) (h : ¬ Available dt length heap) :
    ∃ heap', createInstance zero dt length heap = some (.error .outOfMemory, heap') := by
  have hint : int32 (length : Nat) = length := int32_eq_self (by omega) (by omega)
  obtain ⟨-, hblocks⟩ := lengthHB_nat hlength hsize
  rw [createInstance, hint, if_neg (by omega), Int.toNat_natCast]
  simp only [hblocks]
  by_cases hle : (length * (sizeInBytes dt).toNat + 31) / 12 ≤ HB_MaxSize
  · rw [if_neg (Nat.not_lt.mpr hle)]
    rcases hextract : heap.extract with ⟨_ | _, heap'⟩
    · exact ⟨heap', rfl⟩
    · exact absurd ⟨hle, by rw [hextract]⟩ h
  · rw [if_pos (Nat.lt_of_not_le hle)]
    exact ⟨heap, rfl⟩

end Arrays

/-! ### The conversion -/

def checkRange (index length numOfElements : Int) : Bool :=
  if length < 0 then false
  else if index < 0 ∨ index > numOfElements then false
  else if int32 (index + length) < 0 ∨ int32 (index + length) > numOfElements then false
  else true

/-- What `ConvertToCharArray` does with a range of the text: it makes the array, moves to the first
    character and reads. -/
def readCharacters (mem : List UInt8) (startIndex length : Int) (heap : Heap) :
    Option (HResultOr (List UInt16) × Heap) := do
  match ← createInstance 0 .char length heap with
  | (.error code, heap) => some (.error code, heap)
  | (.ok array, heap) => do
      let moved ← convertFromUTF8 mem 0 (array.length : Nat) startIndex true (-1)
      let read ← convertFromUTF8 mem moved.input moved.size (array.length : Nat) false (-1)
      some (.ok (splice array 0 read.written), heap)

def convertToCharArray (szText : Option (List UInt8)) (startIndex length : Int) (heap : Heap) :
    Option (HResultOr (List UInt16) × Heap) :=
  match szText with
  | none => some (.error .nullReference, heap)
  | some mem => do
      let totLength ← countNumberOfCharacters mem 0 (-1)
      if totLength < 0 then some (.error .wrongType, heap)
      else
        let length := if length = -1 then totLength else length
        if checkRange startIndex length totLength = false then some (.error .outOfRange, heap)
        else readCharacters mem startIndex length heap

theorem countNumberOfCharacters_terminated {cs : List Char} {rest : List UInt8}
    (hnul : ∀ c ∈ cs, c.toNat ≠ 0) (hlen : (utf16 cs).length < 2 ^ 31) :
    countNumberOfCharacters (utf8 cs ++ 0 :: rest) 0 (-1) = some ((utf16 cs).length : Int) := by
  have hchars := length_le_utf16 cs
  have hunits := length_utf16_le cs
  have hfuel : (utf8 cs ++ 0 :: rest).length + 1 =
      ((utf8 cs ++ 0 :: rest).length - cs.length) + 1 + cs.length := by
    simp only [List.length_append, List.length_cons]
    omega
  have hmax : Unlimited (-1) cs.length := ⟨by omega, by omega, by omega⟩
  have hcount := countCharactersLoop_chars (utf8 cs ++ 0 :: rest) rest cs
    ((utf8 cs ++ 0 :: rest).length - cs.length) 0 (-1) 0 hnul rfl hmax (Int.le_refl 0) (by omega)
  rw [countNumberOfCharacters, hfuel, hcount, Int.zero_add]

theorem convertFromUTF8_move {mem : List UInt8} {size : Int} :
    convertFromUTF8 mem 0 size 0 true (-1) = some ⟨true, 0, [], size, false⟩ := by
  rw [convertFromUTF8, fromLoop_done _ (by simp only; omega)]
  rfl

theorem convertFromUTF8_filled {cs : List Char} {rest : List UInt8}
    (hnul : ∀ c ∈ cs, c.toNat ≠ 0) (hlen : 3 * (utf16 cs).length < 2 ^ 31) :
    ∃ r, convertFromUTF8 (utf8 cs ++ 0 :: rest) 0 (utf16 cs).length (utf16 cs).length false (-1) =
      some r ∧ r.written = cs.flatMap fromUnits := by
  have hbytes := length_utf8_le cs
  have hchars := length_le_utf16 cs
  have hbudget : int32 ((utf16 cs).length * 3) = (utf16 cs).length * 3 :=
    int32_eq_self (by omega) (by omega)
  have hfuel : ((utf16 cs).length : Int).toNat = ((utf16 cs).length - cs.length) + cs.length := by
    omega
  have hloop := fromLoop_chars (utf8 cs ++ 0 :: rest) (0 :: rest) cs
    ((utf16 cs).length - cs.length)
    { input := 0, output := [], size := (utf16 cs).length, maxChars := (utf16 cs).length,
      maxBytes := (utf16 cs).length * 3 }
    hnul rfl (Int.le_refl _) (by simp only; omega) (Int.le_refl _)
  rw [convertFromUTF8]
  simp only [if_pos, hbudget, hfuel, hloop]
  rw [fromLoop_done _ (by simp only [FromState.after]; omega)]
  simp only [FromState.after, Option.bind_eq_bind, Option.bind_some, if_neg Bool.false_ne_true]
  rw [if_pos (by omega)]
  exact ⟨_, rfl, rfl⟩

theorem length_flatMap_fromUnits (cs : List Char) :
    (cs.flatMap fromUnits).length = (utf16 cs).length := by
  rw [utf16, List.length_flatMap, List.length_flatMap]
  exact congrArg List.sum (List.map_congr_left fun c _ => length_fromUnits c)

theorem checkRange_whole {n : Nat} (hn : n < 2 ^ 31) : checkRange 0 n n = true := by
  have hint : int32 (0 + (n : Int)) = n := by rw [Int.zero_add, int32_eq_self (by omega) (by omega)]
  rw [checkRange, if_neg (by omega), if_neg (by omega), hint, if_neg (by omega)]

section Texts

variable {cs : List Char} {rest : List UInt8} {heap : Heap}

theorem convertToCharArray_whole (hnul : ∀ c ∈ cs, c.toNat ≠ 0)
    (hlen : 3 * (utf16 cs).length < 2 ^ 31) :
    convertToCharArray (some (utf8 cs ++ 0 :: rest)) 0 (-1) heap =
      readCharacters (utf8 cs ++ 0 :: rest) 0 (utf16 cs).length heap := by
  have hcount := @countNumberOfCharacters_terminated cs rest hnul (by omega)
  have hrange : checkRange 0 (utf16 cs).length (utf16 cs).length = true :=
    checkRange_whole (by omega)
  have hneg : ¬ ((utf16 cs).length : Int) < 0 := Int.not_lt.mpr (Int.natCast_nonneg _)
  rw [convertToCharArray, hcount, Option.bind_eq_bind, Option.bind_some, if_neg hneg]
  dsimp only
  rw [if_pos rfl, hrange, if_neg Bool.noConfusion]

theorem unitsSize (hlen : 3 * (utf16 cs).length < 2 ^ 31) :
    (utf16 cs).length * (sizeInBytes .char).toNat + 31 < 2 ^ 32 := by
  rw [show (sizeInBytes .char).toNat = 2 from rfl]
  omega

theorem convertToCharArray_available (hnul : ∀ c ∈ cs, c.toNat ≠ 0)
    (hlen : 3 * (utf16 cs).length < 2 ^ 31) (havailable : Available .char (utf16 cs).length heap) :
    convertToCharArray (some (utf8 cs ++ 0 :: rest)) 0 (-1) heap =
      some (.ok (cs.flatMap fromUnits), heap.extract.2) := by
  obtain ⟨r, hread, hwritten⟩ := @convertFromUTF8_filled cs rest hnul hlen
  rw [convertToCharArray_whole hnul hlen, readCharacters,
    createInstance_available (by omega) (unitsSize hlen) havailable]
  simp only [Option.bind_eq_bind, Option.bind_some, List.length_replicate, convertFromUTF8_move,
    hread, hwritten]
  refine congrArg some (Prod.ext (congrArg Except.ok ?_) rfl)
  rw [splice, List.take_zero, List.nil_append, List.drop_of_length_le, List.append_nil]
  rw [List.length_replicate, length_flatMap_fromUnits]
  omega

theorem convertToCharArray_unavailable (hnul : ∀ c ∈ cs, c.toNat ≠ 0)
    (hlen : 3 * (utf16 cs).length < 2 ^ 31)
    (havailable : ¬ Available .char (utf16 cs).length heap) :
    ∃ heap', convertToCharArray (some (utf8 cs ++ 0 :: rest)) 0 (-1) heap =
      some (.error .outOfMemory, heap') := by
  obtain ⟨heap', hcreate⟩ :=
    @createInstance_unavailable _ (0 : UInt16) _ _ _ (by omega) (unitsSize hlen) havailable
  rw [convertToCharArray_whole hnul hlen, readCharacters, hcreate]
  exact ⟨heap', rfl⟩

end Texts

end TinyClr.StringChars
