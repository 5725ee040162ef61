import Mathlib.Data.Nat.Init
import Mathlib.Logic.Function.Basic

/-!
# Bitmaps

A set of numbers, kept in words of `w` bits: number `p` is bit `p mod w` of word `p div w`.
-/

namespace TinyClr.Library.Bitmap

variable {w : Nat}

def bit (words : Nat → BitVec w) (p : Nat) : Bool := (words (p / w)).getLsbD (p % w)

def setBit (words : Nat → BitVec w) (k i : Nat) : Nat → BitVec w :=
  Function.update words k (words k ||| 1#w <<< i)

def clearBit (words : Nat → BitVec w) (k i : Nat) : Nat → BitVec w :=
  Function.update words k (words k &&& ~~~(1#w <<< i))

variable {words : Nat → BitVec w} {p q : Nat}

theorem getLsbD_one_shiftLeft {i j : Nat} (hj : j < w) :
    (1#w <<< i).getLsbD j = decide (j = i) := by
  rw [BitVec.getLsbD_shiftLeft, BitVec.getLsbD_one, Bool.eq_iff_iff]
  simp only [Bool.and_eq_true, Bool.not_eq_true', decide_eq_true_eq, decide_eq_false_iff_not]
  omega

theorem same_word_iff (h : q / w = p / w) : q % w = p % w ↔ q = p := by
  constructor
  · intro hmod
    rw [← Nat.div_add_mod q w, ← Nat.div_add_mod p w, h, hmod]
  · rintro rfl
    rfl

theorem bit_setBit (hw : 0 < w) :
    bit (setBit words (p / w) (p % w)) q = (bit words q || decide (q = p)) := by
  have hlt := Nat.mod_lt q hw
  unfold bit setBit
  by_cases hword : q / w = p / w
  · rw [hword, Function.update_self, BitVec.getLsbD_or, getLsbD_one_shiftLeft hlt]
    simp only [same_word_iff hword]
  · have hne : q ≠ p := fun h => hword (by rw [h])
    rw [Function.update_of_ne hword, decide_eq_false hne, Bool.or_false]

theorem bit_clearBit (hw : 0 < w) :
    bit (clearBit words (p / w) (p % w)) q = (bit words q && !decide (q = p)) := by
  have hlt := Nat.mod_lt q hw
  unfold bit clearBit
  by_cases hword : q / w = p / w
  · rw [hword, Function.update_self, BitVec.getLsbD_and, BitVec.getLsbD_not,
      getLsbD_one_shiftLeft hlt, decide_eq_true hlt, Bool.true_and]
    simp only [same_word_iff hword]
  · have hne : q ≠ p := fun h => hword (by rw [h])
    rw [Function.update_of_ne hword, decide_eq_false hne, Bool.not_false, Bool.and_true]

/-- A word is determined by the numbers it is for. -/
theorem word_eq {words' : Nat → BitVec w} {k : Nat}
    (h : ∀ q, w * k ≤ q → q < w * (k + 1) → bit words' q = bit words q) : words' k = words k := by
  refine BitVec.eq_of_getLsbD_eq fun i hi => ?_
  have hdiv : (w * k + i) / w = k := by
    rw [Nat.mul_add_div (by omega), Nat.div_eq_of_lt hi, Nat.add_zero]
  have hmod : (w * k + i) % w = i := by
    rw [Nat.mul_add_mod, Nat.mod_eq_of_lt hi]
  have hbit := h (w * k + i) (Nat.le_add_right _ _) (by rw [Nat.mul_succ]; omega)
  unfold bit at hbit
  rwa [hdiv, hmod] at hbit

end TinyClr.Library.Bitmap
