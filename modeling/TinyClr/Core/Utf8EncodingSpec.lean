import TinyClr.Core.Utf8Encoding
import Mathlib.Data.List.TakeWhile

/-!
# What the UTF-8 encoding converts

`GetBytes` uses its character index and count as a byte index and count, and `GetChars` decodes a
copy up to the first zero.  Both are right about a slice exactly where this makes no difference.
-/

namespace TinyClr.Utf8Encoding

open TinyClr.Library StringChars FieldLayout UnicodeHelper

/-! ### Text in memory -/

/-- The characters in front of the first NUL -/
def beforeNul (cs : List Char) : List Char := cs.takeWhile fun c => c.toNat ≠ 0

theorem beforeNul_ne (cs : List Char) : ∀ c ∈ beforeNul cs, c.toNat ≠ 0 := by
  intro c hc
  have hkept := List.mem_takeWhile_imp hc
  exact of_decide_eq_true hkept

theorem beforeNul_eq {cs : List Char} (h : ∀ c ∈ cs, c.toNat ≠ 0) : beforeNul cs = cs :=
  List.takeWhile_eq_self_iff.mpr fun c hc => decide_eq_true (h c hc)

theorem utf8Char_ne_zero {c : Char} (hc : c.toNat ≠ 0) : ∀ b ∈ String.utf8EncodeChar c, b ≠ 0 := by
  obtain ⟨head, tail, henc, hhead, -, -, htail⟩ := utf8Char_shape hc
  rw [henc, List.forall_mem_cons]
  constructor
  · rintro rfl
    exact hhead rfl
  · rintro b hb rfl
    exact absurd (htail 0 hb) (by decide)

theorem utf8_ne_zero {cs : List Char} (hnul : ∀ c ∈ cs, c.toNat ≠ 0) : ∀ b ∈ utf8 cs, b ≠ 0 := by
  intro b hb
  obtain ⟨c, hc, hmem⟩ := List.mem_flatMap.mp hb
  exact utf8Char_ne_zero (hnul c hc) b hmem

/-- The bytes in front of the first zero are those of the characters in front of the first NUL. -/
theorem takeWhile_utf8 (cs : List Char) :
    (utf8 cs).takeWhile (fun b => b ≠ 0) = utf8 (beforeNul cs) := by
  induction cs with
  | nil => rfl
  | cons c cs ih =>
    by_cases hc : c.toNat = 0
    · have hchar : c = Char.ofNat 0 := Char.toNat_inj.mp hc
      subst hchar
      rfl
    · have hbefore : beforeNul (c :: cs) = c :: beforeNul cs :=
        List.takeWhile_cons_of_pos (decide_eq_true hc)
      rw [utf8_cons, List.takeWhile_append_of_pos, ih, hbefore, utf8_cons]
      intro b hb
      exact decide_eq_true (utf8Char_ne_zero hc b hb)

theorem hal_strlen_s_utf8 {cs : List Char} (hnul : ∀ c ∈ cs, c.toNat ≠ 0) :
    hal_strlen_s (utf8 cs ++ [0]) = some (utf8 cs).length := by
  rw [hal_strlen_s, List.findIdx?_append, List.findIdx?_eq_none_iff.mpr, Option.none_or]
  · exact congrArg some (Nat.zero_add _)
  · intro b hb
    exact decide_eq_false (utf8_ne_zero hnul b hb)

/-! ### Copying -/

variable {dst src : List UInt8} {dstIndex srcIndex : Int}

theorem memcpy_zero :
    memcpy dst dstIndex src srcIndex 0 = some dst := if_pos rfl

variable {slice : List UInt8}

theorem memcpy_slice {count : Int}
    (hslice : SliceAt src srcIndex count slice) (hcount : 0 < count) (hdst : 0 ≤ dstIndex)
    (hroom : dstIndex + count ≤ dst.length) :
    memcpy dst dstIndex src srcIndex count.toNat = some (splice dst dstIndex.toNat slice) := by
  obtain ⟨hsrc, hle, rfl⟩ := hslice.range hcount
  rw [memcpy, if_neg (by omega), if_pos ⟨hsrc, by omega, hdst, by omega⟩]

theorem memcpy_ends {dst' : List UInt8} {count : Nat}
    (hcount : count ≠ 0) (h : memcpy dst dstIndex src srcIndex count = some dst') :
    0 ≤ srcIndex ∧ srcIndex + count ≤ src.length ∧ 0 ≤ dstIndex ∧
      dstIndex + count ≤ dst.length := by
  rw [memcpy, if_neg hcount] at h
  split at h
  next hrange => exact hrange
  · cases h

/-- Up to the first zero, and zeros from there on -/
def untilZero (bytes : List UInt8) : List UInt8 :=
  bytes.takeWhile (fun b => b ≠ 0) ++
    List.replicate (bytes.length - (bytes.takeWhile fun b => b ≠ 0).length) 0

theorem length_untilZero (bytes : List UInt8) : (untilZero bytes).length = bytes.length := by
  have hle := (List.takeWhile_sublist (l := bytes) fun b => b ≠ 0).length_le
  rw [untilZero, List.length_append, List.length_replicate]
  omega

theorem strncpy_range : ∀ (count index : Nat), index + count ≤ src.length →
    strncpy src index count = some (untilZero ((src.drop index).take count)) := by
  intro count
  induction count with
  | zero =>
    intro index _
    rw [strncpy, List.take_zero]
    rfl
  | succ count ih =>
    intro index hle
    have hget : src[index]? = some src[index] := List.getElem?_eq_getElem (by omega)
    have htake : (src.drop index).take (count + 1) =
        src[index] :: (src.drop (index + 1)).take count := by
      rw [List.drop_eq_getElem_cons (by omega), List.take_succ_cons]
    have hlength : ((src.drop (index + 1)).take count).length = count := by
      rw [List.length_take, List.length_drop]
      omega
    rw [strncpy, if_neg (by omega), Int.toNat_natCast, hget, htake]
    dsimp only
    by_cases hzero : src[index] = 0
    · rw [if_pos hzero, untilZero, List.takeWhile_cons_of_neg (by simp [hzero]), List.length_cons,
        hlength]
      rfl
    · rw [if_neg hzero, show ((index : Int) + 1) = ((index + 1 : Nat) : Int) from rfl,
        ih (index + 1) (by omega), untilZero, untilZero,
        List.takeWhile_cons_of_pos (by simp [hzero]), List.length_cons, List.length_cons,
        Nat.add_sub_add_right]
      rfl

variable {index : Int}

theorem strncpy_slice {count : Int}
    (h : SliceAt src index count slice) :
    strncpy src index count.toNat = some (untilZero slice) := by
  have hlength := h.count
  rcases Int.lt_or_eq_of_le (show 0 ≤ count by omega) with hpos | rfl
  · obtain ⟨hindex, hle, rfl⟩ := h.range hpos
    obtain ⟨index, rfl⟩ := Int.eq_ofNat_of_zero_le hindex
    exact strncpy_range _ _ (by omega)
  · rw [h.nil_of_count]
    rfl

theorem hal_strncpy_s_slice {count : Nat}
    (h : SliceAt src index count slice) (hcount : count + 1 < 2 ^ 32) :
    hal_strncpy_s (List.replicate (count + 1) 0) (count + 1) src index count =
      some (untilZero slice ++ [0]) := by
  have hstrncpy := strncpy_slice h
  have hlength := h.count
  have hstored := length_untilZero slice
  rw [Int.toNat_natCast] at hstrncpy
  rw [hal_strncpy_s, if_neg (by omega), uint32_nat hcount, if_neg (by omega),
    if_neg (by rw [List.length_replicate]; omega), hstrncpy, Option.bind_eq_bind, Option.bind_some,
    splice, List.take_zero, List.nil_append, Nat.zero_add, hstored]
  have hset : (List.replicate (count + 1) (0 : UInt8)).set count 0 = List.replicate (count + 1) 0 :=
    by simp
  rw [hset, List.drop_replicate, show count + 1 - slice.length = 1 by omega]
  rfl

theorem hal_strncpy_s_ends {strDst strSrc strDst' : List UInt8} {count : Nat}
    (hcount : count ≠ 0) (hsize : count + 1 < 2 ^ 32)
    (h : hal_strncpy_s strDst (count + 1) strSrc index count = some strDst') :
    0 ≤ index ∧ index < strSrc.length := by
  rw [hal_strncpy_s, if_neg (by omega), uint32_nat hsize, if_neg (by omega)] at h
  split at h
  · cases h
  obtain ⟨stored, hstored, -⟩ := Option.bind_eq_some_iff.mp h
  obtain ⟨count, rfl⟩ := Nat.exists_eq_succ_of_ne_zero hcount
  rw [strncpy] at hstored
  split at hstored
  · cases hstored
  split at hstored
  · cases hstored
  next ch hget =>
    have hlt := (List.getElem?_eq_some_iff.mp hget).1
    omega

/-! ### To bytes -/

section ToBytes

variable {cs : List Char} {bytes : List UInt8} {charIndex charCount byteIndex : Int}

/-- The bytes stand in the array from an index on, and the others are as they were. -/
def WrittenAt (bytes : List UInt8) (index : Int) (written bytes' : List UInt8) : Prop :=
  written = [] ∧ bytes' = bytes ∨
    0 ≤ index ∧ index + written.length ≤ bytes.length ∧ bytes' = splice bytes index.toNat written

/-- `GetBytes` fails and leaves the array as it is, or writes the encoding of exactly the characters
    it is asked for. -/
def EncodesExactly (cs : List Char) (bytes : List UInt8) (charIndex charCount byteIndex : Int) :
    Prop :=
  ∃ res bytes', getBytes (some (utf8 cs ++ [0])) charIndex charCount (some bytes) byteIndex =
      some (res, some bytes') ∧
    match res with
    | .error _ => bytes' = bytes
    | .ok written => ∃ mid, SliceAt (utf16 cs) charIndex charCount (utf16 mid) ∧
        written = (utf8 mid).length ∧ WrittenAt bytes byteIndex (utf8 mid) bytes'

/-- One of the two checks of `GetBytes` refuses. -/
def EncodingRefused (cs : List Char) (bytes : List UInt8) (charIndex charCount byteIndex : Int) :
    Prop :=
  ((utf8 cs).length : Int) < int32 (charIndex + charCount) ∨
    (bytes.length : Int) < int32 (byteIndex + charCount)

/-- The characters are ASCII, they stand at the same index in the UTF-8 form, and there is room
    for them. -/
def SameInUtf8 (cs : List Char) (bytes : List UInt8) (charIndex charCount byteIndex : Int) :
    Prop :=
  0 < charCount ∧ 0 ≤ byteIndex ∧ byteIndex + charCount ≤ bytes.length ∧
    ∃ mid, SliceAt (utf16 cs) charIndex charCount (utf16 mid) ∧ (∀ c ∈ mid, c.toNat < 0x80) ∧
      SliceAt (utf8 cs) charIndex charCount (utf8 mid)

theorem getBytes_eq (hnul : ∀ c ∈ cs, c.toNat ≠ 0) (hcs : (utf8 cs).length < 2 ^ 31)
    (hbytes : bytes.length < 2 ^ 31) :
    (EncodingRefused cs bytes charIndex charCount byteIndex ∧
        getBytes (some (utf8 cs ++ [0])) charIndex charCount (some bytes) byteIndex =
          some (.error .outOfRange, some bytes)) ∨
      ¬ EncodingRefused cs bytes charIndex charCount byteIndex ∧
        getBytes (some (utf8 cs ++ [0])) charIndex charCount (some bytes) byteIndex =
          (memcpy bytes byteIndex (utf8 cs ++ [0]) charIndex (uint32 charCount)).map
            fun bytes' => (.ok charCount, some bytes') := by
  have hlen : int32 ((utf8 cs).length : Nat) = (utf8 cs).length :=
    int32_eq_self (by omega) (by omega)
  have hnum : int32 (bytes.length : Nat) = bytes.length := int32_eq_self (by omega) (by omega)
  rw [getBytes, hal_strlen_s_utf8 hnul]
  simp only [Option.bind_eq_bind, Option.bind_some, hlen, hnum, EncodingRefused]
  by_cases hchars : ((utf8 cs).length : Int) < int32 (charIndex + charCount)
  · exact Or.inl ⟨Or.inl hchars, if_pos hchars⟩
  rw [if_neg (show ¬ int32 (charIndex + charCount) > (utf8 cs).length from hchars)]
  by_cases hroom : (bytes.length : Int) < int32 (byteIndex + charCount)
  · exact Or.inl ⟨Or.inr hroom, if_pos hroom⟩
  · refine Or.inr ⟨not_or_intro hchars hroom, ?_⟩
    rw [if_neg (show ¬ int32 (byteIndex + charCount) > bytes.length from hroom),
      Option.map_eq_bind]
    rfl

/-- A copy of `GetBytes` that ends was of a count that is not negative, from inside the string to
    inside the array. -/
theorem getBytes_copied {bytes' : List UInt8} (hbytes : bytes.length < 2 ^ 31)
    (hcount : charCount ≠ 0) (hlow : -2 ^ 31 ≤ charCount)
    (hhigh : charCount < 2 ^ 31)
    (h : memcpy bytes byteIndex (utf8 cs ++ [0]) charIndex (uint32 charCount) = some bytes') :
    0 < charCount ∧ uint32 charCount = charCount.toNat ∧ 0 ≤ charIndex ∧
      charIndex + charCount ≤ (utf8 cs ++ [0]).length ∧ 0 ≤ byteIndex ∧
      byteIndex + charCount ≤ bytes.length := by
  rcases Int.lt_or_lt_of_ne hcount with hneg | hpos
  · exfalso
    have hword : uint32 charCount = (charCount + 2 ^ 32).toNat := by
      rw [uint32, ← Int.add_emod_right, Int.emod_eq_of_lt (by omega) (by omega)]
    rw [hword] at h
    obtain ⟨-, -, hdst, hroom⟩ := memcpy_ends (by omega) h
    omega
  · have hword : uint32 charCount = charCount.toNat := uint32_eq_toNat (by omega) (by omega)
    rw [hword] at h
    obtain ⟨hsrc, hle, hdst, hroom⟩ := memcpy_ends (by omega) h
    refine ⟨hpos, hword, hsrc, ?_, hdst, ?_⟩ <;> omega

/-- `GetBytes` is exact if and only if it refuses, has nothing to write, or is asked for characters
    that are the same in the UTF-8 form. -/
theorem encodesExactly_iff (hnul : ∀ c ∈ cs, c.toNat ≠ 0) (hcs : (utf8 cs).length < 2 ^ 31)
    (hbytes : bytes.length < 2 ^ 31) (hlow : -2 ^ 31 ≤ charCount) (hhigh : charCount < 2 ^ 31) :
    EncodesExactly cs bytes charIndex charCount byteIndex ↔
      EncodingRefused cs bytes charIndex charCount byteIndex ∨ charCount = 0 ∨
        SameInUtf8 cs bytes charIndex charCount byteIndex := by
  rcases getBytes_eq hnul hcs hbytes with ⟨hrefused, hget⟩ | ⟨haccepted, hget⟩
  · exact ⟨fun _ => Or.inl hrefused, fun _ => ⟨_, _, hget, rfl⟩⟩
  rw [EncodesExactly, hget]
  constructor
  · rintro ⟨res, bytes', hrun, hexact⟩
    refine Or.inr (or_iff_not_imp_left.mpr fun hcount => ?_)
    obtain ⟨copied, hcopy, heq⟩ := Option.map_eq_some_iff.mp hrun
    obtain ⟨rfl, hbytes'⟩ := Prod.mk.inj heq
    obtain rfl := Option.some.inj hbytes'
    obtain ⟨mid, hmid, hwritten, hplace⟩ := hexact
    obtain ⟨hpos, hword, hsrc, hle, hdst, hroom⟩ :=
      getBytes_copied hbytes hcount hlow hhigh hcopy
    have hunits := hmid.count
    have hends := (hmid.range hpos).2.1
    have hfits := length_utf16_le cs
    have hlength : (utf8 mid).length = (utf16 mid).length := by omega
    refine ⟨hpos, hdst, hroom, mid, hmid, (length_utf8_eq_iff mid).mp hlength, ?_⟩
    -- the copy does not reach the terminating zero
    have hslice := SliceAt.of_range hsrc (Int.le_of_lt hpos)
      (show charIndex + charCount ≤ (utf8 cs).length by omega)
    rw [hword, memcpy_slice (hslice.append [0]) hpos hdst hroom, Option.some.injEq] at hcopy
    have hbytes' : copied = splice bytes byteIndex.toNat (utf8 mid) := by
      rcases hplace with ⟨hnil, -⟩ | ⟨-, -, hplace⟩
      · rw [hnil, List.length_nil] at hlength
        omega
      · exact hplace
    have hsame : _ = utf8 mid :=
      splice_injective (by have := hslice.count; omega) (hcopy.trans hbytes')
    rw [← hsame]
    exact hslice
  · rintro (hrefused | rfl | ⟨hpos, hdst, hroom, mid, hmid, hascii, hsame⟩)
    · exact absurd hrefused haccepted
    · rw [show uint32 0 = 0 from rfl, memcpy_zero]
      exact ⟨_, _, rfl, [], SliceAt.nil _ _, rfl, Or.inl ⟨rfl, rfl⟩⟩
    · have hword : uint32 charCount = charCount.toNat := uint32_eq_toNat (by omega) (by omega)
      have hlength := hsame.count
      rw [hword, memcpy_slice (hsame.append [0]) hpos hdst hroom]
      refine ⟨_, _, rfl, mid, hmid, hlength.symm, Or.inr ⟨hdst, ?_, rfl⟩⟩
      omega

end ToBytes

/-! ### To characters -/

section ToCharacters

variable {heap : Heap} {bytes : List UInt8} {byteIndex byteCount : Int} {cs : List Char}

/-- `GetChars` fails, or returns the UTF-16 form of exactly the bytes it is asked for. -/
def DecodesExactly (heap : Heap) (bytes : List UInt8) (byteIndex byteCount : Int) : Prop :=
  ∃ res heap', getChars (some bytes) byteIndex byteCount heap = some (res, heap') ∧
    ∀ units, res = .ok units →
      ∃ cs, SliceAt bytes byteIndex byteCount (utf8 cs) ∧ units = utf16 cs

/-- The check of `GetChars` refuses, or there is no copy. -/
def DecodingRefused (heap : Heap) (bytes : List UInt8) (byteIndex byteCount : Int) : Prop :=
  (bytes.length : Int) < int32 (byteIndex + byteCount) ∨ int32 (byteCount + 1) < 0 ∨
    ¬ Available .u1 (byteCount + 1).toNat heap

/-- The bytes are those of characters of the basic plane without NUL, or there is no memory for the
    characters in front of the first NUL. -/
def PlainText (heap : Heap) (bytes : List UInt8) (byteIndex byteCount : Int) : Prop :=
  ∃ cs, SliceAt bytes byteIndex byteCount (utf8 cs) ∧
    ((∀ c ∈ cs, c.toNat ≠ 0 ∧ c.toNat < 0x10000) ∨
      ¬ Available .char (utf16 (beforeNul cs)).length heap.extract.2)

theorem copySize (hlow : -2 ^ 31 ≤ byteCount) (hhigh : byteCount < 2 ^ 31)
    (h : ¬ int32 (byteCount + 1) < 0) :
    -1 ≤ byteCount ∧ int32 (byteCount + 1) = (byteCount + 1).toNat ∧
      (byteCount + 1).toNat < 2 ^ 31 ∧
      (byteCount + 1).toNat * (ArrayCreation.sizeInBytes .u1).toNat + 31 < 2 ^ 32 := by
  rw [show (ArrayCreation.sizeInBytes .u1).toNat = 1 from rfl]
  rcases Int.lt_or_le (byteCount + 1) (2 ^ 31) with hlt | hle
  · rw [int32_eq_self (by omega) hlt] at h ⊢
    omega
  · rw [int32_eq_sub hle (by omega)] at h
    omega

theorem getChars_refused (hbytes : bytes.length < 2 ^ 31) (hlow : -2 ^ 31 ≤ byteCount)
    (hhigh : byteCount < 2 ^ 31) (h : DecodingRefused heap bytes byteIndex byteCount) :
    ∃ code heap', getChars (some bytes) byteIndex byteCount heap = some (.error code, heap') := by
  have hnum : int32 (bytes.length : Nat) = bytes.length := int32_eq_self (by omega) (by omega)
  simp only [getChars, helperGetChars, Option.bind_eq_bind, Option.bind_some, Option.map_some,
    Option.getD_some, hnum]
  by_cases hcheck : (bytes.length : Int) < int32 (byteIndex + byteCount)
  · exact ⟨_, _, if_pos hcheck⟩
  rw [if_neg (show ¬ int32 (byteIndex + byteCount) > bytes.length from hcheck)]
  by_cases hneg : int32 (byteCount + 1) < 0
  · have hidem : int32 (int32 (byteCount + 1)) = int32 (byteCount + 1) :=
      int32_eq_self (int32_range _).1 (int32_range _).2
    rw [createInstance_negative (by rw [hidem]; exact hneg)]
    exact ⟨_, _, rfl⟩
  · have hunavailable := (h.resolve_left hcheck).resolve_left hneg
    obtain ⟨hnear, hcopy, hlength, hsize⟩ := copySize hlow hhigh hneg
    obtain ⟨heap', hcreate⟩ :=
      @createInstance_unavailable _ (0 : UInt8) _ _ _ hlength hsize hunavailable
    rw [hcopy, hcreate]
    exact ⟨_, _, rfl⟩

theorem getChars_accepted (hbytes : bytes.length < 2 ^ 31) (hlow : -2 ^ 31 ≤ byteCount)
    (hhigh : byteCount < 2 ^ 31) (h : ¬ DecodingRefused heap bytes byteIndex byteCount) :
    -1 ≤ byteCount ∧ byteCount < 2 ^ 20 ∧ int32 (byteIndex + byteCount) ≤ bytes.length ∧
    getChars (some bytes) byteIndex byteCount heap =
      (hal_strncpy_s (List.replicate (byteCount + 1).toNat 0) (byteCount + 1).toNat bytes byteIndex
          (uint32 byteCount)).bind
        fun szText => convertToCharArray (some szText) 0 (-1) heap.extract.2 := by
  obtain ⟨hcheck, hrest⟩ := not_or.mp h
  obtain ⟨hneg, havailable⟩ := not_or.mp hrest
  rw [not_not] at havailable
  have hnum : int32 (bytes.length : Nat) = bytes.length := int32_eq_self (by omega) (by omega)
  obtain ⟨hnear, hcopy, hlength, hsize⟩ := copySize hlow hhigh hneg
  have hbound := havailable.1
  rw [show (ArrayCreation.sizeInBytes .u1).toNat = 1 from rfl, HB_MaxSize] at hbound
  refine ⟨hnear, by omega, Int.not_lt.mp hcheck, ?_⟩
  simp only [getChars, helperGetChars, Option.bind_eq_bind, Option.bind_some, Option.map_some,
    Option.getD_some, hnum]
  rw [if_neg (show ¬ int32 (byteIndex + byteCount) > bytes.length from hcheck), hcopy,
    createInstance_available hlength hsize havailable, Option.bind_some]
  dsimp only
  rw [uint32_nat (by omega)]

theorem getChars_slice (hbytes : bytes.length < 2 ^ 31) (hlow : -2 ^ 31 ≤ byteCount)
    (hhigh : byteCount < 2 ^ 31) (h : ¬ DecodingRefused heap bytes byteIndex byteCount)
    (hslice : SliceAt bytes byteIndex byteCount (utf8 cs)) :
    ∃ heap', getChars (some bytes) byteIndex byteCount heap = some
      (if Available .char (utf16 (beforeNul cs)).length heap.extract.2 then
        .ok ((beforeNul cs).flatMap fromUnits) else .error .outOfMemory, heap') := by
  obtain ⟨-, hsmall, -, hrun⟩ := getChars_accepted hbytes hlow hhigh h
  have hcount := hslice.count
  obtain ⟨count, rfl⟩ := Int.eq_ofNat_of_zero_le (show 0 ≤ byteCount by omega)
  have hwhole : (utf16 cs).length ≤ count := by
    have hle := length_utf16_le cs
    omega
  have hbefore : (utf16 (beforeNul cs)).length ≤ (utf16 cs).length := by
    obtain ⟨rest, hrest⟩ := List.takeWhile_prefix (l := cs) fun c => c.toNat ≠ 0
    conv_rhs => rw [← hrest, utf16_append, List.length_append]
    exact Nat.le_add_right _ _
  obtain ⟨rest, hcopied⟩ :
      ∃ rest, untilZero (utf8 cs) ++ [0] = utf8 (beforeNul cs) ++ 0 :: rest := by
    rw [untilZero, takeWhile_utf8, List.append_assoc]
    rcases hzeros : (utf8 cs).length - (utf8 (beforeNul cs)).length with _ | n
    · exact ⟨[], rfl⟩
    · exact ⟨List.replicate n 0 ++ [0], rfl⟩
  rw [hrun, uint32_nat (by omega), show ((count : Int) + 1).toNat = count + 1 from rfl,
    hal_strncpy_s_slice hslice (by omega), Option.bind_some, hcopied]
  by_cases hmemory : Available .char (utf16 (beforeNul cs)).length heap.extract.2
  · rw [if_pos hmemory]
    exact ⟨_, convertToCharArray_available (beforeNul_ne cs) (by omega) hmemory⟩
  · rw [if_neg hmemory]
    exact convertToCharArray_unavailable (beforeNul_ne cs) (by omega) hmemory

theorem getChars_ends {res : HResultOr (List UInt16)} {heap' : Heap}
    (hbytes : bytes.length < 2 ^ 30) (hlow : -2 ^ 31 ≤ byteCount) (hhigh : byteCount < 2 ^ 31)
    (hlow' : -2 ^ 31 ≤ byteIndex) (hhigh' : byteIndex < 2 ^ 31)
    (h : ¬ DecodingRefused heap bytes byteIndex byteCount)
    (hrun : getChars (some bytes) byteIndex byteCount heap = some (res, heap')) :
    ∃ slice, SliceAt bytes byteIndex byteCount slice := by
  obtain ⟨hnear, hsmall, hcheck, heq⟩ := getChars_accepted (by omega) hlow hhigh h
  rw [heq] at hrun
  rcases Int.lt_trichotomy byteCount 0 with hneg | rfl | hpos
  · -- the copy has no elements, and no zero is found in it
    obtain rfl : byteCount = -1 := by omega
    have hempty : convertToCharArray (some []) 0 (-1) heap.extract.2 = none := rfl
    rw [hal_strncpy_s, if_pos (show ((-1 : Int) + 1).toNat = 0 from rfl), Option.bind_some,
      show List.replicate ((-1 : Int) + 1).toNat (0 : UInt8) = [] from rfl, hempty] at hrun
    cases hrun
  · exact ⟨[], SliceAt.nil _ _⟩
  · obtain ⟨count, rfl⟩ := Int.eq_ofNat_of_zero_le (Int.le_of_lt hpos)
    rw [uint32_nat (by omega), show ((count : Int) + 1).toNat = count + 1 from rfl] at hrun
    obtain ⟨szText, hcopy, -⟩ := Option.bind_eq_some_iff.mp hrun
    obtain ⟨hindex, hlt⟩ := hal_strncpy_s_ends (by omega) (by omega) hcopy
    rw [int32_eq_self (by omega) (by omega)] at hcheck
    exact ⟨_, SliceAt.of_range hindex (Int.le_of_lt hpos) hcheck⟩

/-- `GetChars` is exact about slices of text if and only if it refuses, or is asked for plain
    text. -/
theorem decodesExactly_iff (hbytes : bytes.length < 2 ^ 30) (hlow : -2 ^ 31 ≤ byteCount)
    (hhigh : byteCount < 2 ^ 31) (hlow' : -2 ^ 31 ≤ byteIndex) (hhigh' : byteIndex < 2 ^ 31)
    (hvalid : ∀ slice, SliceAt bytes byteIndex byteCount slice → ∃ cs, slice = utf8 cs) :
    DecodesExactly heap bytes byteIndex byteCount ↔
      DecodingRefused heap bytes byteIndex byteCount ∨
        PlainText heap bytes byteIndex byteCount := by
  by_cases hrefused : DecodingRefused heap bytes byteIndex byteCount
  · obtain ⟨code, heap', hrun⟩ := getChars_refused (by omega) hlow hhigh hrefused
    exact ⟨fun _ => Or.inl hrefused, fun _ => ⟨_, _, hrun, nofun⟩⟩
  constructor
  · rintro ⟨res, heap', hrun, hexact⟩
    refine Or.inr ?_
    obtain ⟨slice, hslice⟩ := getChars_ends hbytes hlow hhigh hlow' hhigh' hrefused hrun
    obtain ⟨cs, rfl⟩ := hvalid slice hslice
    refine ⟨cs, hslice, or_iff_not_imp_right.mpr fun hmemory => ?_⟩
    obtain ⟨heap'', hdecoded⟩ := getChars_slice (by omega) hlow hhigh hrefused hslice
    rw [hrun, if_pos (not_not.mp hmemory), Option.some.injEq] at hdecoded
    obtain ⟨cs', hslice', hunits⟩ := hexact _ (Prod.mk.inj hdecoded).1
    obtain rfl := utf8_injective (hslice.unique hslice')
    obtain ⟨rest, hrest⟩ := List.takeWhile_prefix (l := cs) fun c => c.toNat ≠ 0
    have hlength := congrArg List.length hunits
    rw [length_flatMap_fromUnits] at hlength
    have hnil : rest = [] := by
      apply eq_nil_of_utf16
      have hsum := congrArg (fun ds => (utf16 ds).length) hrest
      rw [utf16_append, List.length_append] at hsum
      rw [beforeNul] at hlength
      omega
    have hwhole : beforeNul cs = cs := by
      rw [hnil, List.append_nil] at hrest
      exact hrest
    rw [hwhole] at hunits
    have hbmp := (flatMap_fromUnits_eq_iff cs).mp hunits
    intro c hc
    refine ⟨beforeNul_ne cs c ?_, hbmp c hc⟩
    rw [hwhole]
    exact hc
  · rintro (h | ⟨cs, hslice, hplain⟩)
    · exact absurd h hrefused
    obtain ⟨heap', hdecoded⟩ := getChars_slice (by omega) hlow hhigh hrefused hslice
    refine ⟨_, heap', hdecoded, fun units hunits => ⟨cs, hslice, ?_⟩⟩
    split at hunits
    next hmemory =>
      have hplain := hplain.resolve_right (not_not.mpr hmemory)
      obtain rfl := Except.ok.inj hunits
      rw [beforeNul_eq fun c hc => (hplain c hc).1]
      exact (flatMap_fromUnits_eq_iff cs).mpr fun c hc => (hplain c hc).2
    · cases hunits

end ToCharacters

/-! ### Whole strings and arrays -/

section Whole

variable {cs : List Char} {heap heap' : Heap}

theorem getBytesOfString_utf8 (hnul : ∀ c ∈ cs, c.toNat ≠ 0) (hcs : (utf8 cs).length < 2 ^ 31)
    (havailable : Available .u1 (utf8 cs).length heap) :
    getBytesOfString (some (utf8 cs ++ [0])) heap = some (.ok (utf8 cs), heap.extract.2) := by
  have hsize : (utf8 cs).length * (ArrayCreation.sizeInBytes .u1).toNat + 31 < 2 ^ 32 := by
    rw [show (ArrayCreation.sizeInBytes .u1).toNat = 1 from rfl]
    omega
  have hcopy : memcpy (List.replicate (utf8 cs).length 0) 0 (utf8 cs ++ [0]) 0 (utf8 cs).length =
      some (utf8 cs) := by
    rw [memcpy]
    split
    · rename_i hnil
      simp [List.length_eq_zero_iff.mp hnil]
    · simp [splice]
  rw [getBytesOfString, hal_strlen_s_utf8 hnul, Option.bind_eq_bind, Option.bind_some,
    createInstance_available hcs hsize havailable, Option.bind_eq_bind, Option.bind_some]
  dsimp only
  rw [hcopy, Option.bind_eq_bind, Option.bind_some]

theorem getCharsOfArray_eq {bytes : List UInt8} (hbytes : bytes.length < 2 ^ 31) :
    getCharsOfArray (some bytes) heap = getChars (some bytes) 0 bytes.length heap := by
  have hnum : int32 (bytes.length : Nat) = bytes.length := int32_eq_self (by omega) (by omega)
  simp only [getCharsOfArray, getChars, helperGetChars, Option.map_some, Option.map_none,
    Option.getD_some, Option.getD_none, hnum]

/-- **A string comes back from its bytes exactly if it is of the basic plane**, if there is memory
    for them, for their copy and for its characters. -/
theorem getChars_getBytes (hnul : ∀ c ∈ cs, c.toNat ≠ 0)
    (havailable : Available .u1 (utf8 cs).length heap)
    (hcopy : Available .u1 ((utf8 cs).length + 1) heap')
    (hunits : Available .char (utf16 cs).length heap'.extract.2) :
    ∃ bytes left units left', getBytesOfString (some (utf8 cs ++ [0])) heap = some (.ok bytes, left) ∧
      getCharsOfArray (some bytes) heap' = some (.ok units, left') ∧
      (units = utf16 cs ↔ ∀ c ∈ cs, c.toNat < 0x10000) := by
  have hbound := hcopy.1
  rw [show (ArrayCreation.sizeInBytes .u1).toNat = 1 from rfl, HB_MaxSize] at hbound
  have hslice : SliceAt (utf8 cs) 0 (utf8 cs).length (utf8 cs) :=
    ⟨rfl, Or.inr ⟨[], [], (List.append_nil _).symm, rfl⟩⟩
  have haccepted : ¬ DecodingRefused heap' (utf8 cs) 0 (utf8 cs).length := by
    rintro (hcheck | hneg | hmemory)
    · rw [int32_eq_self (by omega) (by omega)] at hcheck
      omega
    · rw [int32_eq_self (by omega) (by omega)] at hneg
      omega
    · exact hmemory hcopy
  obtain ⟨left', hdecoded⟩ := getChars_slice (by omega) (by omega) (by omega) haccepted hslice
  rw [beforeNul_eq hnul, if_pos hunits] at hdecoded
  refine ⟨utf8 cs, _, _, left', getBytesOfString_utf8 hnul (by omega) havailable, ?_,
    flatMap_fromUnits_eq_iff cs⟩
  rw [getCharsOfArray_eq (by omega), hdecoded]

/-- Characters of one, two and three bytes -/
theorem getChars_getBytes_multibyte : ∃ bytes left left',
    getBytesOfString (some (utf8 ['a', Char.ofNat 0xE9, Char.ofNat 0x20AC] ++ [0])) [true] =
        some (.ok bytes, left) ∧
      getCharsOfArray (some bytes) [true, true] =
        some (.ok (utf16 ['a', Char.ofNat 0xE9, Char.ofNat 0x20AC]), left') := by
  obtain ⟨bytes, left, units, left', hbytes, hunits, hsame⟩ :=
    @getChars_getBytes ['a', Char.ofNat 0xE9, Char.ofNat 0x20AC] [true] [true, true] (by simp)
      ⟨by decide, rfl⟩ ⟨by decide, rfl⟩ ⟨by decide, rfl⟩
  obtain rfl := hsame.mpr (by simp)
  exact ⟨bytes, left, left', hbytes, hunits⟩

end Whole

/-! ### The indexed conversions -/

/-- **The indexed conversions are exact exactly where characters and bytes are the same: `GetBytes`
    for ASCII at an index that is the same in the UTF-8 form, `GetChars` for text of the basic
    plane without NUL; and where they refuse.** -/
theorem conversions_exact_iff (cs : List Char) (hnul : ∀ c ∈ cs, c.toNat ≠ 0)
    (hcs : (utf8 cs).length < 2 ^ 31) (bytes : List UInt8)
    (hbytes : (bytes.length + 31) / 12 ≤ HB_MaxSize) (heap : Heap)
    (charIndex charCount byteIndex : Int32) (start byteCount : Int32)
    (hvalid : ∀ slice, SliceAt bytes start.toInt byteCount.toInt slice → ∃ ds, slice = utf8 ds) :
    (EncodesExactly cs bytes charIndex.toInt charCount.toInt byteIndex.toInt ↔
        EncodingRefused cs bytes charIndex.toInt charCount.toInt byteIndex.toInt ∨
          charCount.toInt = 0 ∨
          SameInUtf8 cs bytes charIndex.toInt charCount.toInt byteIndex.toInt) ∧
      (DecodesExactly heap bytes start.toInt byteCount.toInt ↔
        DecodingRefused heap bytes start.toInt byteCount.toInt ∨
          PlainText heap bytes start.toInt byteCount.toInt) := by
  rw [HB_MaxSize] at hbytes
  constructor
  · exact encodesExactly_iff hnul hcs (by omega) charCount.le_toInt charCount.toInt_lt
  · exact decodesExactly_iff (by omega) byteCount.le_toInt byteCount.toInt_lt start.le_toInt
      start.toInt_lt hvalid

/-- `GetBytes("ab", 1, 1, bytes, 0)` and `GetChars(bytes, 0, 1)` -/
theorem conversions_exact_ascii :
    (EncodesExactly ['a', 'b'] [0x63] 1 1 0 ↔
        EncodingRefused ['a', 'b'] [0x63] 1 1 0 ∨ (1 : Int) = 0 ∨
          SameInUtf8 ['a', 'b'] [0x63] 1 1 0) ∧
      (DecodesExactly [true, true] [0x63] 0 1 ↔
        DecodingRefused [true, true] [0x63] 0 1 ∨ PlainText [true, true] [0x63] 0 1) := by
  refine conversions_exact_iff ['a', 'b'] (by simp) (by decide) [0x63] (by decide) [true, true]
    1 1 0 0 1 fun slice hslice => ⟨['c'], ?_⟩
  have hsingle : SliceAt [0x63] 0 1 (utf8 ['c']) :=
    ⟨rfl, Or.inr ⟨[], [], rfl, rfl⟩⟩
  exact hslice.unique hsingle

/-- One character of "é" is written as one byte, and `{ 0x61, 0, 0x62 }` is decoded as "a". -/
theorem conversions_inexact :
    ¬ EncodesExactly [Char.ofNat 0xE9] [0] 0 1 0 ∧
      ¬ DecodesExactly [true, true] [0x61, 0, 0x62] 0 3 := by
  constructor
  · rintro ⟨res, bytes', hrun, hexact⟩
    have hget : getBytes (some (utf8 [Char.ofNat 0xE9] ++ [0])) 0 1 (some [0]) 0 =
        some (.ok 1, some [0xC3]) := by decide
    rw [hget, Option.some.injEq] at hrun
    obtain ⟨rfl, hbytes'⟩ := Prod.mk.inj hrun
    obtain rfl := Option.some.inj hbytes'
    obtain ⟨mid, hmid, hwritten, -⟩ := hexact
    have hunit : utf16 mid = [0xE9] := (hmid.range (by decide)).2.2
    have hascii : ∀ c ∈ mid, c.toNat < 0x80 := by
      rw [← length_utf8_eq_iff, hunit]
      exact (Int.ofNat.inj hwritten).symm
    rcases mid with _ | ⟨c, ds⟩
    · cases hunit
    have hc := hascii c List.mem_cons_self
    rw [utf16_cons, utf16Char_of_lt (by omega)] at hunit
    have hvalue := congrArg UInt16.toNat (List.cons.inj hunit).1
    rw [toNat_unit (by omega)] at hvalue
    exact absurd hc (by rw [hvalue]; decide)
  · rintro ⟨res, heap', hrun, hexact⟩
    have hget : getChars (some [0x61, 0, 0x62]) 0 3 [true, true] = some (.ok [0x61], []) := by
      decide
    rw [hget, Option.some.injEq] at hrun
    obtain ⟨rfl, -⟩ := Prod.mk.inj hrun
    obtain ⟨cs, hslice, hunits⟩ := hexact _ rfl
    have hwhole : utf8 cs = utf8 ['a', Char.ofNat 0, 'b'] := (hslice.range (by decide)).2.2
    rw [utf8_injective hwhole] at hunits
    exact absurd hunits (by decide)

end TinyClr.Utf8Encoding
