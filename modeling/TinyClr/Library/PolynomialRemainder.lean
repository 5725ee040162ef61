import TinyClr.Library.BitString
import Mathlib.Algebra.Polynomial.Div
import Mathlib.Algebra.Polynomial.Monic
import Mathlib.Algebra.CharP.Two
import Mathlib.Algebra.Field.ZMod
import Mathlib.RingTheory.Coprime.Lemmas
import Mathlib.Tactic.LinearCombination

/-!
# Remainders of bit strings

A bit string is read as a polynomial over the field of two elements, the first bit at the highest
power.  A shift register of `w` bits with feedback computes the remainder of such a polynomial by a
generator of degree `w`, one bit at a time: this is what cyclic redundancy checks are made of.  Two
strings with one remainder differ by a multiple of the generator, so not only inside a window of
`w` bits.
-/

namespace TinyClr.Library

open Polynomial

/-! ### Bit strings as polynomials -/

/-- The polynomial with these coefficients, the highest one first -/
noncomputable def bitPoly : List Bool → (ZMod 2)[X]
  | [] => 0
  | b :: bs => (if b then X ^ bs.length else 0) + bitPoly bs

@[simp] theorem bitPoly_nil : bitPoly [] = 0 := rfl

theorem bitPoly_append (bs cs : List Bool) :
    bitPoly (bs ++ cs) = bitPoly bs * X ^ cs.length + bitPoly cs := by
  induction bs with
  | nil => simp
  | cons b bs ih =>
    rw [List.cons_append, bitPoly, bitPoly, ih, List.length_append, pow_add]
    cases b <;> simp [add_mul, add_assoc]

theorem bitPoly_replicate_false (n : Nat) : bitPoly (List.replicate n false) = 0 := by
  induction n with
  | zero => rfl
  | succ n ih => simp [List.replicate_succ, bitPoly, ih]

theorem degree_bitPoly_lt (bs : List Bool) : (bitPoly bs).degree < bs.length := by
  induction bs with
  | nil => rw [bitPoly_nil, degree_zero]; exact WithBot.bot_lt_coe 0
  | cons b bs ih =>
    have hle : (bs.length : WithBot ℕ) < ((bs.length + 1 : Nat) : WithBot ℕ) := by
      exact_mod_cast Nat.lt_succ_self bs.length
    rw [bitPoly, List.length_cons]
    refine (degree_add_le _ _).trans_lt (max_lt ?_ (ih.trans hle))
    cases b
    · simp
    · simpa using hle

/-- Strings of one length are known by their polynomials. -/
theorem bitPoly_injective {bs cs : List Bool} (hlen : bs.length = cs.length)
    (h : bitPoly bs = bitPoly cs) : bs = cs := by
  induction bs generalizing cs with
  | nil => exact (List.eq_nil_of_length_eq_zero hlen.symm).symm
  | cons b bs ih =>
    obtain _ | ⟨c, cs⟩ := cs
    · cases hlen
    have hlen' : bs.length = cs.length := by simpa using hlen
    have hbs : (bitPoly bs).coeff cs.length = 0 :=
      coeff_eq_zero_of_degree_lt (hlen' ▸ degree_bitPoly_lt bs)
    have hcs : (bitPoly cs).coeff cs.length = 0 :=
      coeff_eq_zero_of_degree_lt (degree_bitPoly_lt cs)
    have hbc : b = c := by
      have hcoeff := congrArg (fun p => p.coeff cs.length) h
      simp only [bitPoly, hlen', coeff_add, hbs, hcs] at hcoeff
      cases b <;> cases c <;> simp_all
    rw [bitPoly, bitPoly, hbc, hlen'] at h
    rw [hbc, ih hlen' (add_left_cancel h)]

/-! ### Words as polynomials -/

/-- The polynomial of the low `w` bits of a number -/
noncomputable def wordPoly (w n : Nat) : (ZMod 2)[X] :=
  bitPoly (bitsOf w n)

theorem degree_wordPoly_lt (w n : Nat) : (wordPoly w n).degree < w := by
  have h := degree_bitPoly_lt (bitsOf w n)
  rwa [length_bitsOf] at h

theorem wordPoly_zero (w : Nat) : wordPoly w 0 = 0 := by
  rw [wordPoly, bitsOf_zero_right, bitPoly_replicate_false]

theorem wordPoly_succ (w n : Nat) :
    wordPoly (w + 1) n = (if n.testBit w then X ^ w else 0) + wordPoly w n := by
  rw [wordPoly, bitsOf, bitPoly, length_bitsOf, wordPoly]

/-- A word, cut in two -/
theorem wordPoly_add (a b n : Nat) :
    wordPoly (a + b) n = wordPoly a (n / 2 ^ b) * X ^ b + wordPoly b n := by
  rw [wordPoly, bitsOf_add, bitPoly_append, length_bitsOf, wordPoly, wordPoly]

theorem wordPoly_congr {w m n : Nat} (h : m % 2 ^ w = n % 2 ^ w) : wordPoly w m = wordPoly w n := by
  rw [wordPoly, bitsOf_congr h, wordPoly]

/-- Exclusive or adds coefficients. -/
theorem wordPoly_xor (w m n : Nat) : wordPoly w (m ^^^ n) = wordPoly w m + wordPoly w n := by
  induction w with
  | zero => simp [wordPoly]
  | succ w ih =>
    rw [wordPoly_succ, wordPoly_succ, wordPoly_succ, ih, Nat.testBit_xor]
    cases m.testBit w <;> cases n.testBit w <;> simp [add_assoc, add_left_comm]
    rw [← add_assoc (X ^ w), CharTwo.add_self_eq_zero, zero_add]

/-- A shift multiplies by a power of the variable, as long as no bit falls out. -/
theorem wordPoly_shift (w k n : Nat) : wordPoly (w + k) (n * 2 ^ k) = wordPoly w n * X ^ k := by
  have hlow : wordPoly k (n * 2 ^ k) = 0 := by
    rw [wordPoly_congr (n := 0) (by simp), wordPoly_zero]
  rw [wordPoly_add, Nat.mul_div_cancel n (Nat.two_pow_pos k), hlow, add_zero]

theorem wordPoly_injective {w m n : Nat} (h : wordPoly w m = wordPoly w n) :
    m % 2 ^ w = n % 2 ^ w :=
  mod_eq_of_bitsOf (bitPoly_injective (by simp) h)

/-! ### The register -/

variable {w : Nat} (g : BitVec w)

/-- The generator of a register: its feedback word with the leading coefficient put back -/
noncomputable def generator : (ZMod 2)[X] :=
  X ^ w + wordPoly w g.toNat

/-- One bit goes into the register: the bit that falls out, joined with it, decides the feedback. -/
def shiftIn (r : BitVec w) (b : Bool) : BitVec w :=
  (r <<< 1) ^^^ (if r.msb ^^ b then g else 0)

/-- A bit string goes into the register. -/
def feed (r : BitVec w) (bs : List Bool) : BitVec w :=
  bs.foldl (shiftIn g) r

theorem feed_append (r : BitVec w) (bs cs : List Bool) :
    feed g r (bs ++ cs) = feed g (feed g r bs) cs :=
  List.foldl_append

theorem generator_monic : (generator g).Monic :=
  monic_X_pow_add (degree_wordPoly_lt w g.toNat)

theorem degree_generator : (generator g).degree = w := by
  have hlt := degree_wordPoly_lt w g.toNat
  rw [generator, degree_add_eq_left_of_degree_lt (by rwa [degree_X_pow]), degree_X_pow]

/-- A word is its own remainder. -/
theorem wordPoly_mod (n : Nat) : wordPoly w n %ₘ generator g = wordPoly w n := by
  rw [modByMonic_eq_self_iff (generator_monic g), degree_generator]
  exact degree_wordPoly_lt w n

theorem mod_generator_self : generator g %ₘ generator g = 0 :=
  (modByMonic_eq_zero_iff_dvd (generator_monic g)).mpr dvd_rfl

/-- The leading power of the generator is congruent to the feedback word. -/
theorem X_pow_mod : X ^ w %ₘ generator g = wordPoly w g.toNat := by
  have hsum : (X ^ w : (ZMod 2)[X]) = generator g + wordPoly w g.toNat := by
    rw [generator, add_assoc, CharTwo.add_self_eq_zero, add_zero]
  rw [hsum, add_modByMonic, mod_generator_self, wordPoly_mod, zero_add]

/-- The bit that falls out, and what stays -/
theorem wordPoly_mul_X (hw : 0 < w) (r : BitVec w) :
    wordPoly w r.toNat * X = (if r.msb then X ^ w else 0) + wordPoly w (r <<< 1).toNat := by
  obtain ⟨v, rfl⟩ := Nat.exists_eq_succ_of_ne_zero hw.ne'
  have hshift : wordPoly (v + 1) (r <<< 1).toNat = wordPoly v r.toNat * X := by
    rw [← pow_one X, ← wordPoly_shift]
    refine wordPoly_congr ?_
    rw [BitVec.toNat_shiftLeft, Nat.shiftLeft_eq, Nat.mod_mod]
  rw [hshift, wordPoly_succ, add_mul, BitVec.msb_eq_getLsbD_last]
  congr 1
  have hlast : v.succ - 1 = v := rfl
  rw [BitVec.getLsbD, hlast]
  split
  · rw [pow_succ]
  · rw [zero_mul]

/-- One bit: the register is multiplied by the variable, the bit joins at degree `w`, and the
    remainder is taken. -/
theorem wordPoly_shiftIn (hw : 0 < w) (r : BitVec w) (b : Bool) :
    wordPoly w (shiftIn g r b).toNat
      = (wordPoly w r.toNat * X + if b then X ^ w else 0) %ₘ generator g := by
  have hout : wordPoly w r.toNat * X + (if b then X ^ w else 0)
      = (if r.msb ^^ b then X ^ w else 0) + wordPoly w (r <<< 1).toNat := by
    rw [wordPoly_mul_X hw]
    cases r.msb <;> cases b <;> simp [add_comm]
    rw [← add_assoc, CharTwo.add_self_eq_zero, zero_add]
  rw [hout, add_modByMonic, wordPoly_mod, shiftIn, BitVec.toNat_xor, wordPoly_xor, add_comm]
  split
  · rw [X_pow_mod]
  · have hzero : (0 : BitVec w).toNat = 0 := rfl
    rw [zero_modByMonic, hzero, wordPoly_zero]

/-- A remainder taken early does not matter. -/
theorem mul_mod_mod (p q : (ZMod 2)[X]) :
    (p %ₘ generator g * q) %ₘ generator g = (p * q) %ₘ generator g := by
  rw [← sub_eq_zero, ← sub_modByMonic, modByMonic_eq_zero_iff_dvd (generator_monic g), ← sub_mul]
  refine Dvd.dvd.mul_right ⟨-(p /ₘ generator g), ?_⟩ q
  linear_combination modByMonic_add_div p (generator g)

/-- A whole string: the register holds the remainder of the string put after its first contents
    and multiplied by the leading power. -/
theorem wordPoly_feed (hw : 0 < w) (r : BitVec w) (bs : List Bool) :
    wordPoly w (feed g r bs).toNat
      = (wordPoly w r.toNat * X ^ bs.length + bitPoly bs * X ^ w) %ₘ generator g := by
  induction bs generalizing r with
  | nil => simp [feed, wordPoly_mod]
  | cons b bs ih =>
    have hstep : feed g r (b :: bs) = feed g (shiftIn g r b) bs := rfl
    rw [hstep, ih, add_modByMonic, wordPoly_shiftIn g hw, mul_mod_mod, ← add_modByMonic, bitPoly,
      List.length_cons]
    congr 1
    cases b <;> simp <;> ring

/-! ### Strings with one remainder -/

/-- A generator with a constant term shares no factor with the variable. -/
theorem isCoprime_generator (hw : 0 < w) (hone : g.getLsbD 0 = true) (n : Nat) :
    IsCoprime (generator g) (X ^ n) := by
  obtain ⟨v, hv⟩ := Nat.exists_eq_succ_of_ne_zero hw.ne'
  have hlow : wordPoly 1 g.toNat = 1 := by
    have hbit : g.toNat.testBit 0 = true := hone
    rw [wordPoly, bitsOf, hbit]
    simp [bitPoly]
  have hsplit : generator g = (X ^ v + wordPoly v (g.toNat / 2 ^ 1)) * X + 1 := by
    have hcut := wordPoly_add v 1 g.toNat
    rw [← Nat.succ_eq_add_one, ← hv, hlow] at hcut
    have hpow : (X ^ w : (ZMod 2)[X]) = X ^ v * X := by rw [hv, pow_succ]
    rw [generator, hcut, hpow]
    ring
  refine IsCoprime.pow_right ⟨1, -(X ^ v + wordPoly v (g.toNat / 2 ^ 1)), ?_⟩
  rw [hsplit]
  ring

/-- Strings that differ inside a window no longer than the register, and nowhere else, leave
    different remainders. -/
theorem eq_of_feed_eq (hw : 0 < w) (hone : g.getLsbD 0 = true) {r : BitVec w}
    {front us vs back : List Bool} (hlen : us.length = vs.length) (hwindow : us.length ≤ w)
    (h : feed g r (front ++ us ++ back) = feed g r (front ++ vs ++ back)) : us = vs := by
  have hpoly := congrArg (fun s : BitVec w => wordPoly w s.toNat) h
  simp only [wordPoly_feed g hw, bitPoly_append, List.length_append, hlen] at hpoly
  rw [← sub_eq_zero, ← sub_modByMonic, modByMonic_eq_zero_iff_dvd (generator_monic g)] at hpoly
  have hdvd : generator g ∣ (bitPoly us - bitPoly vs) * X ^ (back.length + w) := by
    convert hpoly using 1
    ring
  have hdvd' := (isCoprime_generator g hw hone _).dvd_of_dvd_mul_right hdvd
  have hdegree : (bitPoly us - bitPoly vs).degree < (generator g).degree := by
    have hshort : ((us.length : Nat) : WithBot ℕ) ≤ (w : WithBot ℕ) := by exact_mod_cast hwindow
    rw [degree_generator]
    refine (degree_sub_le _ _).trans_lt (max_lt ?_ ?_)
    · exact (degree_bitPoly_lt us).trans_le hshort
    · exact (degree_bitPoly_lt vs).trans_le (hlen ▸ hshort)
  exact bitPoly_injective hlen (sub_eq_zero.mp (eq_zero_of_dvd_of_degree_lt hdvd' hdegree))

end TinyClr.Library
