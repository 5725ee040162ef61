import TinyClr.Drivers.FatShortName
import Mathlib.Data.Nat.Digits.Defs
import Mathlib.Tactic.Ring

/-!
# What the functions for short names do

`AttachNumTail` works on the 11 bytes in place; `withTail` is the name it makes.
-/

namespace TinyClr.ShortName

/-! ### Decimal digits -/

def decimal (num : Nat) : Name := ((Nat.digits 10 num).map fun d => .ofNat (d + 0x30)).reverse

theorem decimal_zero : decimal 0 = [] := rfl

variable {num : Nat}

theorem decimal_succ (h : 0 < num) :
    decimal num = decimal (num / 10) ++ [.ofNat (num % 10 + 0x30)] := by
  rw [decimal, decimal, Nat.digits_def' (by decide) h, List.map_cons, List.reverse_cons]

theorem decimal_digit {c : UInt8} (h : c ∈ decimal num) : 0x30 ≤ c ∧ c ≤ 0x39 := by
  obtain ⟨d, hd, rfl⟩ := List.mem_map.mp (List.mem_reverse.mp h)
  have hlt := Nat.digits_lt_base (by decide) hd
  have hval : (UInt8.ofNat (d + 0x30)).toNat = d + 0x30 :=
    UInt8.toNat_ofNat_of_lt' (by rw [UInt8.size]; omega)
  rw [UInt8.le_iff_toNat_le, UInt8.le_iff_toNat_le, hval]
  exact ⟨by change 48 ≤ _; omega, by change _ ≤ 57; omega⟩

theorem decimal_ne_nil (h : 0 < num) : decimal num ≠ [] := by
  rw [decimal_succ h]
  exact List.append_ne_nil_of_right_ne_nil _ (List.cons_ne_nil _ _)

theorem tailNumber_decimal (num : Nat) (rest : Name) (m : Nat) :
    tailNumber (decimal num ++ rest) m
      = tailNumber rest (m * 10 ^ (decimal num).length + num) := by
  induction num using Nat.strong_induction_on generalizing rest with
  | _ num ih =>
    rcases Nat.eq_zero_or_pos num with rfl | hpos
    · rw [decimal_zero, List.nil_append, List.length_nil, Nat.pow_zero, Nat.mul_one, Nat.add_zero]
    · rw [decimal_succ hpos, List.append_assoc, ih (num / 10) (by omega), List.singleton_append,
        tailNumber, List.length_append, List.length_singleton, Nat.pow_succ]
      have hval : (UInt8.ofNat (num % 10 + 0x30)).toNat = num % 10 + 0x30 :=
        UInt8.toNat_ofNat_of_lt' (by rw [UInt8.size]; omega)
      have hsub : (UInt8.ofNat (num % 10 + 0x30) - 0x30).toNat = num % 10 := by
        rw [UInt8.toNat_sub_of_le _ _ (by rw [UInt8.le_iff_toNat_le, hval]; change 48 ≤ _; omega),
          hval]
        exact Nat.add_sub_cancel _ _
      have hblank : UInt8.ofNat (num % 10 + 0x30) ≠ WHITESPACE_CHAR := by
        intro heq
        have hnat := congrArg UInt8.toNat heq
        rw [hval, show WHITESPACE_CHAR.toNat = 32 from rfl] at hnat
        omega
      have hdigit : ¬ (UInt8.ofNat (num % 10 + 0x30) < 0x30 ∨ UInt8.ofNat (num % 10 + 0x30) > 0x39) := by
        rw [UInt8.lt_iff_toNat_lt, gt_iff_lt, UInt8.lt_iff_toNat_lt, hval]
        change ¬ (_ < 48 ∨ 57 < _)
        omega
      rw [if_neg hblank, if_neg hdigit, hsub]
      congr 1
      have hdiv := Nat.div_add_mod num 10
      ring_nf
      omega

/-! ### Writing the tail -/

theorem setChar_eq {name : Name} {i : Nat} (h : i < name.length) (c : UInt8) :
    setChar name i c = some (name.set i c) := by
  rw [setChar, if_pos ⟨Int.natCast_nonneg i, h⟩]
  rfl

theorem charAt_eq {name : Name} {i : Nat} : charAt name i = name[i]? := by
  rw [charAt, if_pos (Int.natCast_nonneg i)]
  rfl

theorem set_append (front rest : Name) (c c' : UInt8) :
    (front ++ c :: rest).set front.length c' = front ++ c' :: rest := by
  rw [List.set_append_right _ _ (Nat.le_refl _), Nat.sub_self, List.set_cons_zero]

/-- The digits are written over the characters in front of `rest`. -/
theorem writeDigits_spec {num : Nat} :
    ∀ {fuel : Nat} {front rest : Name}, (decimal num).length ≤ front.length →
      (decimal num).length < fuel →
      writeDigits fuel (front ++ rest) num ((front.length : Int) - 1)
        = some (front.take (front.length - (decimal num).length) ++ decimal num ++ rest,
          (front.length : Int) - (decimal num).length - 1) := by
  induction num using Nat.strong_induction_on with
  | _ num ih =>
    intro fuel front rest hlen hfuel
    obtain ⟨fuel, rfl⟩ := Nat.exists_eq_succ_of_ne_zero (Nat.ne_of_gt (Nat.zero_lt_of_lt hfuel))
    rw [Nat.succ_eq_add_one, writeDigits]
    rcases Nat.eq_zero_or_pos num with rfl | hpos
    · rw [if_neg (Nat.lt_irrefl 0), decimal_zero]
      simp
    · rw [decimal_succ hpos, List.length_append, List.length_singleton] at hlen hfuel ⊢
      obtain ⟨front, c, rfl⟩ : ∃ front' c, front = front' ++ [c] := by
        rcases List.eq_nil_or_concat front with rfl | ⟨front', c, rfl⟩
        · exact absurd hlen (by rw [List.length_nil]; omega)
        · exact ⟨front', c, List.concat_eq_append⟩
      rw [List.length_append, List.length_singleton] at hlen
      have hplace : (((front ++ [c]).length : Nat) : Int) - 1 = (front.length : Nat) := by
        rw [List.length_append, List.length_singleton]
        omega
      rw [if_pos hpos, hplace, List.append_assoc, List.singleton_append,
        setChar_eq (by rw [List.length_append, List.length_cons]; omega), set_append,
        Option.bind_some, ih (num / 10) (by omega) (by omega) (by omega)]
      rw [List.length_append, List.length_singleton,
        show front.length + 1 - ((decimal (num / 10)).length + 1)
          = front.length - (decimal (num / 10)).length by omega,
        List.take_append_of_le_length (Nat.sub_le _ _)]
      congr 2
      · rw [List.append_assoc, List.append_assoc, List.append_assoc, List.singleton_append]
      · omega

/-- Blanks are skipped down to the last character that is none. -/
theorem skipBlanks_spec {front : Name} {c : UInt8} (hc : c ≠ WHITESPACE_CHAR) :
    ∀ {s fuel : Nat} {shift : Int} {rest : Name}, s < fuel →
      skipBlanks fuel (front ++ c :: (List.replicate s WHITESPACE_CHAR ++ rest))
        ((front.length : Int) + s) shift = some ((front.length : Int), shift + s) := by
  intro s
  induction s with
  | zero =>
    intro fuel shift rest hfuel
    obtain ⟨fuel, rfl⟩ := Nat.exists_eq_succ_of_ne_zero (Nat.ne_of_gt hfuel)
    have hchar : charAt (front ++ c :: (List.replicate 0 WHITESPACE_CHAR ++ rest))
        ((front.length : Int) + (0 : Nat)) = some c := by
      rw [Int.natCast_zero, Int.add_zero, charAt_eq, List.getElem?_append_right (Nat.le_refl _),
        Nat.sub_self, List.getElem?_cons_zero]
    rw [Nat.succ_eq_add_one, skipBlanks, hchar, Option.bind_some, if_neg hc]
    simp
  | succ s ih =>
    intro fuel shift rest hfuel
    obtain ⟨fuel, rfl⟩ := Nat.exists_eq_succ_of_ne_zero (Nat.ne_of_gt (Nat.zero_lt_of_lt hfuel))
    have hlist : List.replicate (s + 1) WHITESPACE_CHAR ++ rest
        = List.replicate s WHITESPACE_CHAR ++ (WHITESPACE_CHAR :: rest) := by
      rw [List.replicate_succ', List.append_assoc, List.singleton_append]
    have hchar : charAt (front ++ c :: (List.replicate s WHITESPACE_CHAR ++ WHITESPACE_CHAR :: rest))
        ((front.length : Int) + (s + 1 : Nat)) = some WHITESPACE_CHAR := by
      rw [← Int.natCast_add, charAt_eq, List.getElem?_append_right (Nat.le_add_right _ _),
        Nat.add_sub_cancel_left, List.getElem?_cons_succ,
        List.getElem?_append_right (by rw [List.length_replicate]), List.length_replicate,
        Nat.sub_self, List.getElem?_cons_zero]
    rw [Nat.succ_eq_add_one, skipBlanks, hlist, hchar, Option.bind_some, if_pos rfl,
      show (front.length : Int) + ((s + 1 : Nat) : Int) - 1 = (front.length : Int) + s by omega,
      ih (Nat.lt_of_succ_lt_succ hfuel)]
    congr 2
    omega

/-- When there is nothing but blanks, the place in front of the name is read. -/
theorem skipBlanks_outside :
    ∀ {s fuel : Nat} {shift : Int} {rest : Name},
      skipBlanks fuel (List.replicate s WHITESPACE_CHAR ++ rest) ((s : Int) - 1) shift = none := by
  intro s
  induction s with
  | zero =>
    intro fuel shift rest
    cases fuel with
    | zero => rfl
    | succ fuel => rfl
  | succ s ih =>
    intro fuel shift rest
    cases fuel with
    | zero => rfl
    | succ fuel =>
      have hlist : List.replicate (s + 1) WHITESPACE_CHAR ++ rest
          = List.replicate s WHITESPACE_CHAR ++ (WHITESPACE_CHAR :: rest) := by
        rw [List.replicate_succ', List.append_assoc, List.singleton_append]
      have hplace : ((s + 1 : Nat) : Int) - 1 = (s : Nat) := by omega
      rw [skipBlanks, hplace, hlist, charAt_eq,
        List.getElem?_append_right (by rw [List.length_replicate]), List.length_replicate,
        Nat.sub_self, List.getElem?_cons_zero, Option.bind_some, if_pos rfl]
      exact ih

variable {ext : Name}

theorem shiftTail_fill {shift : Int} :
    ∀ {gap front : Name} {fuel : Nat}, front.length + gap.length = SHORTNAME_SIZE →
      (SHORTNAME_SIZE : Int) ≤ front.length + shift → gap.length < fuel →
      shiftTail fuel (front ++ gap ++ ext) front.length shift
        = some (front ++ List.replicate gap.length WHITESPACE_CHAR ++ ext) := by
  intro gap
  induction gap with
  | nil =>
    intro front fuel hlen _ hfuel
    obtain ⟨fuel, rfl⟩ := Nat.exists_eq_succ_of_ne_zero (Nat.ne_of_gt hfuel)
    rw [List.length_nil, Nat.add_zero] at hlen
    rw [Nat.succ_eq_add_one, shiftTail, hlen, if_neg (Int.lt_irrefl _)]
    simp
  | cons g gap ih =>
    intro front fuel hlen hshift hfuel
    obtain ⟨fuel, rfl⟩ := Nat.exists_eq_succ_of_ne_zero (Nat.ne_of_gt (Nat.zero_lt_of_lt hfuel))
    rw [List.length_cons] at hlen hfuel ⊢
    rw [Nat.succ_eq_add_one, shiftTail, if_pos (by omega), if_neg (by omega), List.append_assoc,
      List.cons_append, setChar_eq (by rw [List.length_append, List.length_cons]; omega),
      set_append, Option.bind_some]
    have hnext := @ih (front ++ [WHITESPACE_CHAR]) fuel
      (by rw [List.length_append, List.length_singleton]; omega)
      (by rw [List.length_append, List.length_singleton]; omega) (by omega)
    rw [List.length_append, List.length_singleton, Int.natCast_add] at hnext
    rw [List.replicate_succ]
    simpa using hnext

/-- The tail is moved over the gap in front of it. -/
theorem shiftTail_spec {ext : Name} :
    ∀ {tail front gap : Name} {fuel : Nat}, gap ≠ [] →
      front.length + gap.length + tail.length = SHORTNAME_SIZE →
      gap.length + tail.length < fuel →
      shiftTail fuel (front ++ gap ++ tail ++ ext) front.length gap.length
        = some (front ++ tail ++ List.replicate gap.length WHITESPACE_CHAR ++ ext) := by
  intro tail
  induction tail with
  | nil =>
    intro front gap fuel _ hlen hfuel
    rw [List.length_nil, Nat.add_zero] at hlen hfuel
    rw [List.append_nil, List.append_nil]
    exact shiftTail_fill hlen (by omega) hfuel
  | cons t tail ih =>
    intro front gap fuel hgap hlen hfuel
    obtain ⟨fuel, rfl⟩ := Nat.exists_eq_succ_of_ne_zero (Nat.ne_of_gt (Nat.zero_lt_of_lt hfuel))
    rw [List.length_cons] at hlen hfuel
    obtain ⟨g, gap, rfl⟩ := List.exists_cons_of_ne_nil hgap
    rw [List.length_cons] at hlen hfuel
    have hread : charAt (front ++ g :: gap ++ t :: tail ++ ext)
        ((front.length : Int) + ((g :: gap).length : Nat)) = some t := by
      rw [← Int.natCast_add, charAt_eq, ← List.length_append, List.append_assoc,
        List.getElem?_append_right (Nat.le_refl _), Nat.sub_self, List.cons_append,
        List.getElem?_cons_zero]
    have hwrite : setChar (front ++ g :: gap ++ t :: tail ++ ext) front.length t
        = some (front ++ [t] ++ (gap ++ [t]) ++ tail ++ ext) := by
      rw [List.append_assoc, List.append_assoc, List.cons_append,
        setChar_eq (by rw [List.length_append, List.length_cons]; omega), set_append]
      simp
    rw [Nat.succ_eq_add_one, shiftTail, if_pos (by omega), if_pos (by rw [List.length_cons]; omega),
      hread, Option.bind_some, hwrite, Option.bind_some]
    have hnext := @ih (front ++ [t]) (gap ++ [t]) fuel (List.append_ne_nil_of_right_ne_nil _ (List.cons_ne_nil _ _))
      (by simp only [List.length_append, List.length_singleton]; omega)
      (by simp only [List.length_append, List.length_singleton]; omega)
    simp only [List.length_append, List.length_singleton, Int.natCast_add] at hnext
    rw [List.length_cons, Int.natCast_add]
    simpa using hnext

def withTail (base ext : Name) (num : Nat) : Name :=
  pad SHORTNAME_SIZE (base.take (SHORTNAME_SIZE - 1 - (decimal num).length) ++ tilde :: decimal num)
    ++ ext

theorem length_pad {size : Nat} {chars : Name} (h : chars.length ≤ size) :
    (pad size chars).length = size := by
  rw [pad, List.length_append, List.length_replicate]
  omega

/-- **`AttachNumTail`** puts the tail behind as much of the basis as there is room for. -/
theorem attachNumTail_spec {base ext : Name} {num : Nat} (hne : base ≠ [])
    (hblank : ∀ c ∈ base, c ≠ WHITESPACE_CHAR) (hlen : base.length ≤ SHORTNAME_SIZE)
    (hdigits : (decimal num).length < SHORTNAME_SIZE - 1) :
    attachNumTail (pad SHORTNAME_SIZE base ++ ext) num = some (withTail base ext num) := by
  have hsize : (pad SHORTNAME_SIZE base).length = SHORTNAME_SIZE := length_pad hlen
  set k := (decimal num).length with hk
  have hwrite := @writeDigits_spec num 11 (pad SHORTNAME_SIZE base) ext
    (by rw [hsize]; omega) (by rw [SHORTNAME_SIZE] at hdigits; omega)
  rw [hsize, ← hk] at hwrite
  -- what is kept of the basis, with the blanks up to the tail
  set kept := base.take (SHORTNAME_SIZE - 1 - k) with hkept
  have hkeptLen : kept.length = min (SHORTNAME_SIZE - 1 - k) base.length := List.length_take
  obtain ⟨s, hs⟩ : ∃ s, kept.length + s = SHORTNAME_SIZE - 1 - k := ⟨_, Nat.add_sub_of_le (by omega)⟩
  obtain ⟨c, hc⟩ : ∃ c, (pad SHORTNAME_SIZE base).take (SHORTNAME_SIZE - k)
      = kept ++ List.replicate s WHITESPACE_CHAR ++ [c] := by
    have hsucc : SHORTNAME_SIZE - k = SHORTNAME_SIZE - 1 - k + 1 := by omega
    have hfits : SHORTNAME_SIZE - 1 - k < (pad SHORTNAME_SIZE base).length := by
      rw [hsize]
      omega
    have htake : (pad SHORTNAME_SIZE base).take (SHORTNAME_SIZE - 1 - k)
        = kept ++ List.replicate s WHITESPACE_CHAR := by
      rw [pad, List.take_append, List.take_replicate]
      congr 2
      omega
    exact ⟨_, by rw [hsucc, ← List.take_append_getElem hfits, htake]⟩
  obtain ⟨front, last, hfront⟩ : ∃ front last, kept = front ++ [last] := by
    rcases List.eq_nil_or_concat kept with hnil | ⟨front, last, hlast⟩
    · rw [hnil, List.length_nil] at hkeptLen
      have hpos := List.length_pos_of_ne_nil hne
      omega
    · exact ⟨front, last, hlast.trans List.concat_eq_append⟩
  have hlast : last ≠ WHITESPACE_CHAR := by
    refine hblank last (List.mem_of_mem_take (i := SHORTNAME_SIZE - 1 - k) ?_)
    rw [← hkept, hfront]
    exact List.mem_append_right _ (List.mem_singleton_self last)
  have hplace : ((SHORTNAME_SIZE : Int) - k - 1) = (kept ++ List.replicate s WHITESPACE_CHAR).length := by
    rw [List.length_append, List.length_replicate]
    omega
  rw [hc] at hwrite
  have hmark : setChar (kept ++ List.replicate s WHITESPACE_CHAR ++ [c] ++ decimal num ++ ext)
      ((SHORTNAME_SIZE : Int) - k - 1) tilde
      = some (kept ++ List.replicate s WHITESPACE_CHAR ++ tilde :: (decimal num ++ ext)) := by
    rw [hplace, List.append_assoc _ [c], List.append_assoc _ _ ext, setChar_eq (by
      simp only [List.length_append, List.length_singleton]
      omega)]
    exact congrArg some (set_append _ _ _ _)
  have hskip : skipBlanks 11 (kept ++ List.replicate s WHITESPACE_CHAR ++ tilde :: (decimal num ++ ext))
      ((SHORTNAME_SIZE : Int) - k - 1 - 1) 0 = some ((front.length : Int), (s : Int)) := by
    have hi : (SHORTNAME_SIZE : Int) - k - 1 - 1 = (front.length : Int) + s := by
      rw [hfront, List.length_append, List.length_singleton] at hs
      omega
    rw [hi, hfront, List.append_assoc, List.append_assoc, List.singleton_append]
    rw [skipBlanks_spec hlast (by rw [SHORTNAME_SIZE] at hs; omega), Int.zero_add]
  have hfinal : withTail base ext num
      = kept ++ tilde :: decimal num ++ List.replicate s WHITESPACE_CHAR ++ ext := by
    rw [withTail, pad, ← hk, ← hkept]
    congr 3
    rw [List.length_append, List.length_cons, ← hk]
    omega
  simp only [attachNumTail, Option.bind_eq_bind, hwrite, Option.bind_some, hmark, hskip]
  rw [hfinal]
  split
  · rename_i hpos
    have hshift := @shiftTail_spec ext (tilde :: decimal num) kept
      (List.replicate s WHITESPACE_CHAR) 11
      (fun hnil => by
        have hzero := congrArg List.length hnil
        rw [List.length_replicate, List.length_nil] at hzero
        omega)
      (by
        rw [List.length_replicate, List.length_cons, ← hk]
        omega)
      (by
        rw [List.length_replicate, List.length_cons, ← hk]
        rw [SHORTNAME_SIZE] at hs
        omega)
    rw [List.length_replicate] at hshift
    have hi : (front.length : Int) + 1 = kept.length := by
      rw [hfront, List.length_append, List.length_singleton, Int.natCast_add]
      rfl
    rw [hi, ← hshift]
    simp
  · rename_i hzero
    obtain rfl : s = 0 := by omega
    simp

end TinyClr.ShortName
