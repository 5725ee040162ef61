import Mathlib.Data.List.Flatten
import Mathlib.Data.Char

/-!
# The two encoding forms of a sequence of Unicode scalar values

A `Char` is a Unicode scalar value, so a list of them is what a valid UTF-8 or UTF-16 sequence
stands for.  UTF-8 is the standard library's `String.utf8EncodeChar`; UTF-16 is defined here.
-/

namespace TinyClr.Library

/-- The UTF-16 code units of one scalar value: itself, or its surrogate pair. -/
def utf16Char (c : Char) : List UInt16 :=
  let v := c.toNat
  if v < 0x10000 then [UInt16.ofNat v]
  else [UInt16.ofNat (0xD800 + (v - 0x10000) / 0x400), UInt16.ofNat (0xDC00 + (v - 0x10000) % 0x400)]

def utf16 (cs : List Char) : List UInt16 := cs.flatMap utf16Char

def utf8 (cs : List Char) : List UInt8 := cs.flatMap String.utf8EncodeChar

@[simp] theorem utf16_nil : utf16 [] = [] := rfl
@[simp] theorem utf8_nil : utf8 [] = [] := rfl
@[simp] theorem utf16_cons (c : Char) (cs : List Char) :
    utf16 (c :: cs) = utf16Char c ++ utf16 cs := rfl
@[simp] theorem utf8_cons (c : Char) (cs : List Char) :
    utf8 (c :: cs) = String.utf8EncodeChar c ++ utf8 cs := rfl

/-- A scalar value lies below the surrogate range or between it and `0x110000`. -/
theorem scalar_range (c : Char) : c.toNat < 0xD800 ∨ 0xDFFF < c.toNat ∧ c.toNat < 0x110000 :=
  c.valid

variable {c : Char}

theorem utf16Char_of_lt (h : c.toNat < 0x10000) :
    utf16Char c = [UInt16.ofNat c.toNat] := if_pos h

theorem utf16Char_of_le (h : 0x10000 ≤ c.toNat) :
    utf16Char c = [UInt16.ofNat (0xD800 + (c.toNat - 0x10000) / 0x400),
      UInt16.ofNat (0xDC00 + (c.toNat - 0x10000) % 0x400)] := if_neg (Nat.not_lt.mpr h)

/-- A scalar value takes one to four bytes for its one or two units, at most three a unit. -/
theorem length_bounds (c : Char) :
    0 < (utf16Char c).length ∧ (utf16Char c).length ≤ (String.utf8EncodeChar c).length ∧
      (String.utf8EncodeChar c).length ≤ 3 * (utf16Char c).length := by
  have hrange := scalar_range c
  simp only [utf16Char, String.utf8EncodeChar, Char.toNat] at hrange ⊢
  split_ifs <;> simp only [List.length_cons, List.length_nil] <;> omega

theorem length_utf8_le (cs : List Char) : (utf8 cs).length ≤ 3 * (utf16 cs).length := by
  induction cs with
  | nil => exact Nat.le_refl _
  | cons c cs ih =>
    have hc := length_bounds c
    simp only [utf8_cons, utf16_cons, List.length_append]
    omega

theorem length_utf16_le (cs : List Char) : (utf16 cs).length ≤ (utf8 cs).length := by
  induction cs with
  | nil => exact Nat.le_refl _
  | cons c cs ih =>
    have hc := length_bounds c
    simp only [utf8_cons, utf16_cons, List.length_append]
    omega

theorem length_le_utf16 (cs : List Char) : cs.length ≤ (utf16 cs).length := by
  induction cs with
  | nil => exact Nat.le_refl _
  | cons c cs ih =>
    have hc := length_bounds c
    simp only [utf16_cons, List.length_append, List.length_cons]
    omega

/-! ### Reading UTF-8 back -/

/-- The first character of a UTF-8 sequence can be told from what follows. -/
theorem utf8EncodeChar_append_inj {d : Char} {xs ys : List UInt8}
    (h : String.utf8EncodeChar c ++ xs = String.utf8EncodeChar d ++ ys) : c = d ∧ xs = ys := by
  have hdecode : ∀ (e : Char) (zs : List UInt8),
      (String.utf8EncodeChar e ++ zs).toByteArray.utf8DecodeChar? 0 = some e := by
    intro e zs
    rw [List.toByteArray_append]
    exact ByteArray.utf8DecodeChar?_utf8EncodeChar_append
  have hchar := hdecode c xs
  rw [h, hdecode d ys, Option.some.injEq] at hchar
  subst hchar
  exact ⟨rfl, List.append_cancel_left h⟩

/-- A sequence that begins with the characters of another one goes on with characters. -/
theorem utf8_append_left : ∀ {cs ds : List Char} {rest : List UInt8},
    utf8 cs = utf8 ds ++ rest → ∃ es, cs = ds ++ es ∧ rest = utf8 es
  | cs, [], rest, h => ⟨cs, rfl, h.symm⟩
  | [], d :: ds, rest, h => by
      have hlength := congrArg List.length h
      have hd := length_bounds d
      simp only [utf8_nil, utf8_cons, List.length_nil, List.length_append] at hlength
      omega
  | c :: cs, d :: ds, rest, h => by
      rw [utf8_cons, utf8_cons, List.append_assoc] at h
      obtain ⟨rfl, hrest⟩ := utf8EncodeChar_append_inj h
      obtain ⟨es, rfl, hes⟩ := utf8_append_left hrest
      exact ⟨es, rfl, hes⟩

theorem eq_nil_of_utf16 {cs : List Char} (h : (utf16 cs).length = 0) : cs = [] := by
  have hlength := length_le_utf16 cs
  exact List.eq_nil_of_length_eq_zero (by omega)

theorem utf8_injective : Function.Injective utf8 := by
  intro cs ds h
  rw [← List.append_nil (utf8 ds)] at h
  obtain ⟨es, rfl, hes⟩ := utf8_append_left h
  have hlength := length_utf16_le es
  rw [← hes, List.length_nil] at hlength
  rw [eq_nil_of_utf16 (Nat.le_zero.mp hlength), List.append_nil]

@[simp] theorem utf16_append (cs ds : List Char) : utf16 (cs ++ ds) = utf16 cs ++ utf16 ds :=
  List.flatMap_append

@[simp] theorem utf8_append (cs ds : List Char) : utf8 (cs ++ ds) = utf8 cs ++ utf8 ds :=
  List.flatMap_append

/-- A sequence takes as many bytes as units exactly if it is ASCII. -/
theorem length_utf8_eq_iff (cs : List Char) :
    (utf8 cs).length = (utf16 cs).length ↔ ∀ c ∈ cs, c.toNat < 0x80 := by
  have hchar : ∀ c : Char, (String.utf8EncodeChar c).length = (utf16Char c).length ↔
      c.toNat < 0x80 := by
    intro c
    have hval : c.val.toNat = c.toNat := rfl
    simp only [utf16Char, String.utf8EncodeChar, hval]
    split_ifs <;> simp only [List.length_cons, List.length_nil, true_iff] <;> omega
  induction cs with
  | nil => simp
  | cons c cs ih =>
    have hc := length_bounds c
    have hcs := length_utf16_le cs
    have hcons : (utf8 (c :: cs)).length = (utf16 (c :: cs)).length ↔
        (String.utf8EncodeChar c).length = (utf16Char c).length ∧
          (utf8 cs).length = (utf16 cs).length := by
      rw [utf8_cons, utf16_cons, List.length_append, List.length_append]
      omega
    rw [hcons, List.forall_mem_cons]
    exact and_congr (hchar c) ih

end TinyClr.Library
