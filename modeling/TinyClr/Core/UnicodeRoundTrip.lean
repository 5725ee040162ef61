import TinyClr.Core.UnicodeHelperSpec

/-!
# Round trips through the converter

A string is counted, encoded into a buffer of exactly that size, counted again and decoded back.
The encoder is right about every valid string; the decoder is right about the basic plane only,
and its byte budget `iMaxChars * 3` has to fit an `int`.
-/

namespace TinyClr.UnicodeHelper

open TinyClr.Library

variable {cs : List Char}

/-! ### Encoding -/

theorem convertToUTF8_utf8 (hnul : ∀ c ∈ cs, c.toNat ≠ 0) (hlen : 3 * (utf16 cs).length < 2 ^ 31) :
    countNumberOfBytes (utf16 cs ++ [0]) 0 (-1) = some ((utf8 cs).length : Int) ∧
      ∃ r, convertToUTF8 (utf16 cs ++ [0]) 0 ((utf8 cs).length + 1) (utf16 cs).length false =
        some r ∧ r.res = true ∧ r.written = utf8 cs ++ [0] := by
  have hbytes := length_utf8_le cs
  have hchars := length_le_utf16 cs
  have hfuel : (utf16 cs ++ [0]).length + 1 =
      ((utf16 cs).length + 1 - cs.length) + 1 + cs.length := by
    simp only [List.length_append, List.length_singleton]
    omega
  refine ⟨?_, ?_⟩
  · have hmax : Unlimited (-1) cs.length := ⟨by omega, by omega, by omega⟩
    have hcount := countBytesLoop_chars (utf16 cs ++ [0]) [] cs
      ((utf16 cs).length + 1 - cs.length) 0 (-1) 0 hnul rfl hmax (Int.le_refl 0) (by omega)
    rw [countNumberOfBytes, hfuel, hcount, Int.zero_add]
  · let start : ToState :=
      { input := 0, output := [], size := (utf8 cs).length + 1, maxChars := (utf16 cs).length }
    have hloop := toLoop_chars (utf16 cs ++ [0]) [0] cs
      ((utf16 cs).length + 1 - cs.length + 1) start hnul rfl (Int.le_refl _)
      (by simp only [start]; omega)
    obtain ⟨t, hend, houtput, hsize⟩ := toLoop_end (utf16 cs ++ [0]) []
      (s := start.after cs (toCharges cs)) ((utf16 cs).length + 1 - cs.length)
      (by simp only [start, ToState.after, Nat.zero_add, List.drop_left])
    simp only [start, ToState.after, List.nil_append] at houtput hsize
    refine ⟨⟨true, t.input, utf8 cs, t.size, true⟩, ?_, rfl, rfl⟩
    rw [convertToUTF8, hfuel, hloop, hend]
    simp only [Option.bind_eq_bind, Option.bind_some, if_neg Bool.false_ne_true, houtput,
      if_neg (show ¬ t.size < 1 by omega)]

/-! ### Decoding -/

theorem countNumberOfCharacters_utf8 (hnul : ∀ c ∈ cs, c.toNat ≠ 0)
    (hlen : (utf16 cs).length < 2 ^ 31) :
    countNumberOfCharacters (utf8 cs ++ [0]) 0 (-1) = some ((utf16 cs).length : Int) := by
  have hchars := length_le_utf16 cs
  have hunits := length_utf16_le cs
  have hfuel : (utf8 cs ++ [0]).length + 1 =
      ((utf8 cs).length + 1 - cs.length) + 1 + cs.length := by
    simp only [List.length_append, List.length_singleton]
    omega
  have hmax : Unlimited (-1) cs.length := ⟨by omega, by omega, by omega⟩
  have hcount := countCharactersLoop_chars (utf8 cs ++ [0]) [] cs
    ((utf8 cs).length + 1 - cs.length) 0 (-1) 0 hnul rfl hmax (Int.le_refl 0) (by omega)
  rw [countNumberOfCharacters, hfuel, hcount, Int.zero_add]

theorem convertFromUTF8_units (hnul : ∀ c ∈ cs, c.toNat ≠ 0)
    (hlen : 3 * (utf16 cs).length < 2 ^ 31) :
    ∃ r, convertFromUTF8 (utf8 cs ++ [0]) 0 ((utf16 cs).length + 1) (utf16 cs).length false (-1) =
      some r ∧ r.res = true ∧ r.written = cs.flatMap fromUnits ++ [0] := by
  have hbytes := length_utf8_le cs
  have hchars := length_le_utf16 cs
  have hbudget : int32 ((utf16 cs).length * 3) = (utf16 cs).length * 3 :=
    int32_eq_self (by omega) (by omega)
  have hfuel : ((utf16 cs).length : Int).toNat = ((utf16 cs).length - cs.length) + cs.length := by
    omega
  have hloop := fromLoop_chars (utf8 cs ++ [0]) [0] cs
    ((utf16 cs).length - cs.length)
    { input := 0, output := [], size := (utf16 cs).length + 1, maxChars := (utf16 cs).length,
      maxBytes := (utf16 cs).length * 3 }
    hnul rfl (Int.le_refl _) (by simp only; omega) (by simp only; omega)
  rw [convertFromUTF8]
  simp only [if_pos, hbudget, hfuel, hloop]
  rw [fromLoop_done _ (by simp only [FromState.after]; omega)]
  simp only [FromState.after, Option.bind_eq_bind, Option.bind_some, if_neg Bool.false_ne_true]
  rw [if_neg (by omega)]
  exact ⟨_, rfl, rfl, rfl⟩

theorem convertFromUTF8_charged {mem : List UInt8} {size maxChars : Int} {r : Converted UInt16}
    (h : convertFromUTF8 mem 0 size maxChars false (-1) = some r) :
    (r.output.length : Int) ≤ max 0 (int32 (maxChars * 3)) := by
  rw [convertFromUTF8] at h
  obtain ⟨flow, hloop, h⟩ := Option.bind_eq_some_iff.mp h
  simp only [if_pos] at hloop
  have hbound : ∀ t, flow = .again t ∨ flow = .leave t ∨ flow = .exitFalse t →
      (t.output.length : Int) ≤ max 0 (int32 (maxChars * 3)) := by
    intro t hflow
    by_cases hbudget : 0 ≤ int32 (maxChars * 3)
    · have hcharged := fromLoop_charged _ _ _ hbudget hloop
      rcases hflow with rfl | rfl | rfl <;>
        simp only [Flow.Charged, List.length_nil] at hcharged <;> omega
    · -- the loop is not entered
      rw [fromLoop_done _ (by simp only; omega), Option.some.injEq] at hloop
      subst hloop
      rcases hflow with hflow | hflow | hflow <;> cases hflow
      exact Int.le_max_left 0 _
  cases flow with
  | again t =>
    have := hbound t (Or.inl rfl)
    simp only at h
    split_ifs at h <;> cases h <;> exact this
  | leave t =>
    have := hbound t (Or.inr (Or.inl rfl))
    simp only at h
    split_ifs at h <;> cases h <;> exact this
  | exitFalse t =>
    have := hbound t (Or.inr (Or.inr rfl))
    cases h
    exact this

/-! ### The round trip -/

/-- The units the decoder stores are the string's own exactly if it has no character above
    `0xFFFF`. -/
theorem flatMap_fromUnits_eq_iff (cs : List Char) :
    cs.flatMap fromUnits = utf16 cs ↔ ∀ c ∈ cs, c.toNat < 0x10000 := by
  induction cs with
  | nil => simp
  | cons c cs ih =>
    rw [List.flatMap_cons, utf16_cons, List.forall_mem_cons, ← ih, ← fromUnits_eq_iff]
    constructor
    · intro h
      exact List.append_inj h (length_fromUnits c)
    · rintro ⟨hc, hcs⟩
      rw [hc, hcs]

/-- A string without NUL survives the converter: encoding it into a buffer of
    `CountNumberOfBytes + 1` bytes yields its UTF-8 form, and decoding that into
    `CountNumberOfCharacters + 1` units yields the string. -/
structure RoundTrips (cs : List Char) : Prop where
  encoded : ∃ n r, countNumberOfBytes (utf16 cs ++ [0]) 0 (-1) = some n ∧
    convertToUTF8 (utf16 cs ++ [0]) 0 (n + 1) (utf16 cs).length false = some r ∧
    r.res = true ∧ r.written = utf8 cs ++ [0]
  decoded : ∃ n r, countNumberOfCharacters (utf8 cs ++ [0]) 0 (-1) = some n ∧
    convertFromUTF8 (utf8 cs ++ [0]) 0 (n + 1) (utf16 cs).length false (-1) = some r ∧
    r.res = true ∧ r.written = utf16 cs ++ [0]

/-- A string whose length fits an `int` round-trips if and only if it stays in the basic plane
    and three times its length fits an `int` too. -/
theorem roundTrips_iff (cs : List Char) (hnul : ∀ c ∈ cs, c.toNat ≠ 0)
    (hlen : (utf16 cs).length < 2 ^ 31) :
    RoundTrips cs ↔ (∀ c ∈ cs, c.toNat < 0x10000) ∧ 3 * (utf16 cs).length < 2 ^ 31 := by
  have hcount := countNumberOfCharacters_utf8 hnul hlen
  constructor
  · rintro ⟨-, n, r, hn, hr, hres, hwritten⟩
    rw [hcount, Option.some.injEq] at hn
    subst hn
    by_cases hfit : 3 * (utf16 cs).length < 2 ^ 31
    · obtain ⟨r', hr', -, hwritten'⟩ := convertFromUTF8_units hnul hfit
      rw [hr, Option.some.injEq] at hr'
      subst hr'
      have hunits := List.append_cancel_right (hwritten'.symm.trans hwritten)
      exact ⟨(flatMap_fromUnits_eq_iff cs).mp hunits, hfit⟩
    · exfalso
      have hwrap : int32 ((utf16 cs).length * 3) = (utf16 cs).length * 3 - 2 ^ 32 :=
        int32_eq_sub (by omega) (by omega)
      have hcharged := convertFromUTF8_charged hr
      have hlength : (utf16 cs).length ≤ r.output.length := by
        have := congrArg List.length hwritten
        unfold Converted.written at this
        split_ifs at this <;>
          simp only [List.length_append, List.length_singleton] at this <;> omega
      omega
  · rintro ⟨hbmp, hfit⟩
    obtain ⟨hbytes, r, hr, hres, hwritten⟩ := convertToUTF8_utf8 hnul hfit
    obtain ⟨r', hr', hres', hwritten'⟩ := convertFromUTF8_units hnul hfit
    rw [(flatMap_fromUnits_eq_iff cs).mpr hbmp] at hwritten'
    exact ⟨⟨_, r, hbytes, hr, hres, hwritten⟩, ⟨_, r', hcount, hr', hres', hwritten'⟩⟩

/-- Characters of one, two and three bytes come back; with one of four bytes they do not. -/
theorem roundTrips_iff_multibyte :
    RoundTrips ['a', Char.ofNat 0xE9, Char.ofNat 0x20AC] ∧
      ¬ RoundTrips ['a', Char.ofNat 0x1F600, Char.ofNat 0x20AC] := by
  constructor
  · exact (roundTrips_iff _ (by simp) (by decide)).mpr ⟨by simp, by decide⟩
  · intro h
    obtain ⟨hplane, -⟩ := (roundTrips_iff _ (by simp) (by decide)).mp h
    exact absurd (hplane (Char.ofNat 0x1F600) (by simp)) (by decide)

/-- U+10000 is the least string that comes back as something else: the first unit is `0xD840`. -/
theorem not_roundTrips_supplementary : ¬ RoundTrips [Char.ofNat 0x10000] := by
  rintro ⟨-, n, r, hn, hr, hres, hwritten⟩
  have hcount : countNumberOfCharacters (utf8 [Char.ofNat 0x10000] ++ [0]) 0 (-1) = some 2 := by
    decide
  rw [hcount, Option.some.injEq] at hn
  subst hn
  have hdecoded : convertFromUTF8 (utf8 [Char.ofNat 0x10000] ++ [0]) 0 (2 + 1)
      (utf16 [Char.ofNat 0x10000]).length false (-1) = some ⟨true, 4, [0xD840, 0xDC00], 1, true⟩ := by
    decide
  rw [hdecoded, Option.some.injEq] at hr
  subst hr
  revert hwritten
  decide

end TinyClr.UnicodeHelper
