import TinyClr.Library.MachineInt
import TinyClr.Library.Overlay

/-!
# Fields of a byte buffer

A buffer is a map from offsets to bytes.  Words lie in it in little-endian order; a field that is
written is read back, and the fields it does not overlap stay as they are.
-/

namespace TinyClr.Library

variable {b : Nat → UInt8} {src : List UInt8} {o a v : Nat}

def memcpy (b : Nat → UInt8) (o : Nat) (src : List UInt8) : Nat → UInt8 :=
  overlay b o src.length fun i => src.getD i 0

def bytes16 (v : Nat) : List UInt8 := [UInt8.ofNat v, UInt8.ofNat (v >>> 8)]

def bytes32 (v : Nat) : List UInt8 :=
  [UInt8.ofNat v, UInt8.ofNat (v >>> 8), UInt8.ofNat (v >>> 16), UInt8.ofNat (v >>> 24)]

def word16 (b : Nat → UInt8) (o : Nat) : Nat := (b o).toNat ||| (b (o + 1)).toNat <<< 8

def word32 (b : Nat → UInt8) (o : Nat) : Nat :=
  (b o).toNat ||| (b (o + 1)).toNat <<< 8 ||| (b (o + 2)).toNat <<< 16 |||
    (b (o + 3)).toNat <<< 24

@[simp] theorem memcpy_outside (h : a < o ∨ o + src.length ≤ a) : memcpy b o src a = b a :=
  overlay_outside h

theorem memcpy_inside (i : Nat) (hi : i < src.length) : memcpy b o src (o + i) = src.getD i 0 := by
  rw [memcpy, overlay_inside (Nat.le_add_right o i) (by omega), Nat.add_sub_cancel_left]

@[simp] theorem memcpy_head (x : UInt8) : memcpy b o (x :: src) o = x :=
  memcpy_inside 0 (Nat.succ_pos _)

@[simp] theorem length_bytes16 (v : Nat) : (bytes16 v).length = 2 := rfl

@[simp] theorem length_bytes32 (v : Nat) : (bytes32 v).length = 4 := rfl

@[simp] theorem word16_zero (o : Nat) : word16 (fun _ => 0) o = 0 := by simp [word16]

@[simp] theorem word32_zero (o : Nat) : word32 (fun _ => 0) o = 0 := by simp [word32]

/-! ### Words as numbers -/

theorem word16_eq (b : Nat → UInt8) (o : Nat) :
    word16 b o = (b o).toNat + (b (o + 1)).toNat * 2 ^ 8 :=
  or_shift 8 (b o).toNat_lt

theorem word16_lt (b : Nat → UInt8) (o : Nat) : word16 b o < 2 ^ 16 := by
  have h₀ := (b o).toNat_lt
  have h₁ := (b (o + 1)).toNat_lt
  rw [word16_eq]
  omega

theorem word32_eq (b : Nat → UInt8) (o : Nat) :
    word32 b o = word16 b o + word16 b (o + 2) * 2 ^ 16 := by
  have h₂ := (b (o + 2)).toNat_lt
  have hhalf : word16 b o ||| (b (o + 2)).toNat <<< 16 =
      word16 b o + (b (o + 2)).toNat * 2 ^ 16 := or_shift 16 (word16_lt b o)
  have hlt : word16 b o + (b (o + 2)).toNat * 2 ^ 16 < 2 ^ 24 := by
    have := word16_lt b o
    omega
  rw [word32, ← word16, hhalf, or_shift 24 hlt, word16_eq b (o + 2), Nat.add_mul, Nat.mul_assoc,
    ← Nat.pow_add, Nat.add_assoc]

theorem word32_lt (b : Nat → UInt8) (o : Nat) : word32 b o < 2 ^ 32 := by
  have h₀ := word16_lt b o
  have h₂ := word16_lt b (o + 2)
  rw [word32_eq]
  omega

/-! ### Writing and reading -/

/-- A field that is not written to stays. -/
@[simp] theorem word16_memcpy_of_disjoint (h : a + 2 ≤ o ∨ o + src.length ≤ a) :
    word16 (memcpy b o src) a = word16 b a := by
  unfold word16
  rw [memcpy_outside (by omega), memcpy_outside (by omega)]

@[simp] theorem word32_memcpy_of_disjoint (h : a + 4 ≤ o ∨ o + src.length ≤ a) :
    word32 (memcpy b o src) a = word32 b a := by
  rw [word32_eq, word16_memcpy_of_disjoint (by omega), word16_memcpy_of_disjoint (by omega),
    ← word32_eq]

theorem memcpy_bytes32_of_disjoint (h : a < o ∨ o + 4 ≤ a) : memcpy b o (bytes32 v) a = b a :=
  memcpy_outside h

theorem word32_bytes32_of_disjoint (h : a + 4 ≤ o ∨ o + 4 ≤ a) :
    word32 (memcpy b o (bytes32 v)) a = word32 b a :=
  word32_memcpy_of_disjoint h

/-- A field that is written is read back. -/
@[simp] theorem word16_memcpy (v : Nat) : word16 (memcpy b o (bytes16 v)) o = v % 2 ^ 16 := by
  have hlen : (bytes16 v).length = 2 := rfl
  have h₀ : memcpy b o (bytes16 v) o = UInt8.ofNat v := memcpy_inside 0 (by omega)
  have h₁ : memcpy b o (bytes16 v) (o + 1) = UInt8.ofNat (v >>> 8) := memcpy_inside 1 (by omega)
  rw [word16_eq, h₀, h₁, UInt8.toNat_ofNat', UInt8.toNat_ofNat', Nat.shiftRight_eq_div_pow]
  omega

@[simp] theorem word32_memcpy (v : Nat) : word32 (memcpy b o (bytes32 v)) o = v % 2 ^ 32 := by
  have hlen : (bytes32 v).length = 4 := rfl
  have h₀ : memcpy b o (bytes32 v) o = UInt8.ofNat v := memcpy_inside 0 (by omega)
  have h₁ : memcpy b o (bytes32 v) (o + 1) = UInt8.ofNat (v >>> 8) := memcpy_inside 1 (by omega)
  have h₂ : memcpy b o (bytes32 v) (o + 2) = UInt8.ofNat (v >>> 16) := memcpy_inside 2 (by omega)
  have h₃ : memcpy b o (bytes32 v) (o + 3) = UInt8.ofNat (v >>> 24) := memcpy_inside 3 (by omega)
  rw [word32_eq, word16_eq, word16_eq _ (o + 2), h₀, h₁, h₂, h₃]
  simp only [UInt8.toNat_ofNat', Nat.shiftRight_eq_div_pow]
  omega

/-- Words agree where the bytes do. -/
theorem word16_congr {b' : Nat → UInt8} {o' : Nat} (h : ∀ i < 2, b (o + i) = b' (o' + i)) :
    word16 b o = word16 b' o' := by
  unfold word16
  rw [h 1 (by decide), show b o = b' o' from h 0 (by decide)]

theorem word32_congr {b' : Nat → UInt8} {o' : Nat} (h : ∀ i < 4, b (o + i) = b' (o' + i)) :
    word32 b o = word32 b' o' := by
  have hlow : word16 b o = word16 b' o' := word16_congr fun i hi => h i (by omega)
  have hhigh : word16 b (o + 2) = word16 b' (o' + 2) := word16_congr fun i hi => by
    simpa only [Nat.add_assoc] using h (2 + i) (by omega)
  rw [word32_eq, word32_eq, hlow, hhigh]

end TinyClr.Library
