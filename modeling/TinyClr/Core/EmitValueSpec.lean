import TinyClr.Core.EmitValue
import TinyClr.Core.StreamsRoundTrip
import Mathlib.Tactic.Linarith
import Mathlib.Tactic.Ring

/-!
# When serialized numbers are read back

A number minus its bias, divided by the scale, wraps at 64 bits.  What is written is read back
exactly where the scale still divides the wrapped difference.
-/

namespace TinyClr.Serialization

open TinyClr.Library TinyClr.Streams

/-! ### Words of 64 bits -/

theorem coe_uint64 (x : Int) : (uint64 x : Int) = x % 2 ^ 64 :=
  Int.toNat_of_nonneg (Int.emod_nonneg x (by decide))

theorem uint64_lt (x : Int) : uint64 x < 2 ^ 64 := by
  have h := Int.emod_lt_of_pos x (by decide : (0 : Int) < 2 ^ 64)
  have hcoe := coe_uint64 x
  omega

theorem uint64_congr {x y : Int} (h : x % 2 ^ 64 = y % 2 ^ 64) : uint64 x = uint64 y := by
  rw [uint64, h, uint64]

theorem uint64_inj {x y : Int} (h : uint64 x = uint64 y) : x % 2 ^ 64 = y % 2 ^ 64 := by
  rw [← coe_uint64, h, coe_uint64]

theorem uint64_of_lt {x : Nat} (h : x < 2 ^ 64) : uint64 x = x := by
  have hcoe := coe_uint64 x
  rw [Int.emod_eq_of_lt (by omega) (by omega)] at hcoe
  omega

/-! ### Numbers of a width -/

/-- The signed or unsigned number of this width that the low bits of `x` stand for -/
def lowValue (fSigned : Bool) (bits : Nat) (x : Int) : Int :=
  if fSigned then x.bmod (2 ^ bits) else x % 2 ^ bits

/-- A number has this width. -/
def Fits (fSigned : Bool) (bits : Nat) (x : Int) : Prop :=
  if fSigned then -2 ^ (bits - 1) ≤ x ∧ x < 2 ^ (bits - 1) else 0 ≤ x ∧ x < 2 ^ bits

variable {fSigned : Bool} {bits : Nat} {x y : Int}

theorem pow_split (hbits : 0 < bits) : 2 ^ bits = 2 * 2 ^ (bits - 1) := by
  rw [← Nat.pow_succ']
  congr 1
  omega

theorem coe_pow (n : Nat) : ((2 ^ n : Nat) : Int) = 2 ^ n := by norm_num

theorem lowValue_emod : lowValue fSigned bits x % 2 ^ bits = x % 2 ^ bits := by
  cases fSigned
  · exact Int.emod_emod_of_dvd x (Int.dvd_refl _)
  · have h := @Int.bmod_emod x (2 ^ bits)
    rwa [coe_pow] at h

theorem lowValue_congr (h : x % 2 ^ bits = y % 2 ^ bits) :
    lowValue fSigned bits x = lowValue fSigned bits y := by
  cases fSigned
  · exact h
  · rw [← coe_pow] at h
    rw [lowValue, lowValue, if_pos rfl, if_pos rfl, ← Int.emod_bmod x, h, Int.emod_bmod]

theorem lowValue_fits (hbits : 0 < bits) (x : Int) : Fits fSigned bits (lowValue fSigned bits x) := by
  have hpos := Nat.two_pow_pos bits
  cases fSigned
  · have hword : (0 : Int) < 2 ^ bits := by exact_mod_cast hpos
    exact ⟨Int.emod_nonneg _ (ne_of_gt hword), Int.emod_lt_of_pos _ hword⟩
  · have hlow := Int.le_bmod (x := x) hpos
    have hhigh := Int.bmod_lt (x := x) hpos
    have hpow := pow_split hbits
    rw [Fits, lowValue, if_pos rfl, if_pos rfl, ← coe_pow]
    omega

theorem lowValue_of_fits (hbits : 0 < bits) (h : Fits fSigned bits x) :
    lowValue fSigned bits x = x := by
  cases fSigned
  · exact Int.emod_eq_of_lt h.1 h.2
  · obtain ⟨hlow, hhigh⟩ := h
    have hpow := pow_split hbits
    rw [← coe_pow] at hlow hhigh
    exact Int.bmod_eq_of_le (by omega) (by omega)

theorem lowValue_eq_self_iff (hbits : 0 < bits) :
    lowValue fSigned bits x = x ↔ Fits fSigned bits x :=
  ⟨fun h => h ▸ lowValue_fits hbits x, lowValue_of_fits hbits⟩

theorem int64_eq (x : Int) : int64 x = lowValue true 64 x := by
  rw [lowValue, if_pos rfl, int64]

theorem emod_pow_of_le {k n : Nat} (h : k ≤ n) (x : Int) : x % 2 ^ n % 2 ^ k = x % 2 ^ k :=
  Int.emod_emod_of_dvd x (pow_dvd_pow 2 h)

theorem lowValue_word (hbits : 0 < bits) (hle : bits ≤ 64) (h : Fits fSigned bits x) :
    lowValue fSigned bits (uint64 x % 2 ^ bits : Nat) = x := by
  rw [lowValue_congr (y := x), lowValue_of_fits hbits h]
  rw [Int.natCast_mod, coe_uint64, coe_pow, Int.emod_emod_of_dvd _ (Int.dvd_refl _),
    emod_pow_of_le hle]

theorem shiftBack_eq (hbits : 0 < bits) (hle : bits ≤ 64) (val : Nat) :
    shiftBack fSigned (64 - bits) val = uint64 (lowValue fSigned bits val) := by
  obtain ⟨k, hk⟩ : ∃ k, 64 = bits + k := ⟨64 - bits, by omega⟩
  have hsub : 64 - bits = k := by omega
  have hword : 2 ^ 64 = 2 ^ bits * 2 ^ k := by rw [← Nat.pow_add, ← hk]
  have hword' : (2 : Int) ^ 64 = 2 ^ k * 2 ^ bits := by rw [← pow_add, Nat.add_comm, ← hk]
  have hpow := Nat.two_pow_pos k
  have hpow' : (0 : Int) < 2 ^ k := by exact_mod_cast hpow
  have hleft : (val <<< k) % 2 ^ 64 = val % 2 ^ bits * 2 ^ k := by
    rw [Nat.shiftLeft_eq, hword, Nat.mul_mod_mul_right]
  rw [shiftBack, hsub]
  simp only [hleft]
  cases fSigned
  · rw [if_neg Bool.false_ne_true, Nat.shiftRight_eq_div_pow, Nat.mul_div_cancel _ hpow, lowValue,
      if_neg Bool.false_ne_true, ← coe_pow, ← Int.natCast_mod, uint64_of_lt]
    refine Nat.lt_of_lt_of_le (Nat.mod_lt _ (Nat.two_pow_pos bits)) ?_
    exact Nat.pow_le_pow_right (by decide) hle
  · have hfits := @lowValue_fits true bits hbits val
    generalize hy : lowValue true bits val = y at hfits
    have hmod : y % 2 ^ bits = (val : Int) % 2 ^ bits := hy ▸ lowValue_emod
    have hhalf : (2 : Int) ^ 63 = 2 ^ (bits - 1) * 2 ^ k := by
      rw [← pow_add]
      congr 1
      omega
    have hrange : Fits true 64 (y * 2 ^ k) := by
      obtain ⟨hlow, hhigh⟩ := hfits
      constructor
      · rw [hhalf, ← Int.neg_mul]
        exact Int.mul_le_mul_of_nonneg_right hlow (Int.le_of_lt hpow')
      · rw [hhalf]
        exact Int.mul_lt_mul_of_pos_right hhigh hpow'
    have hint : int64 (val % 2 ^ bits * 2 ^ k : Nat) = y * 2 ^ k := by
      rw [int64_eq, ← lowValue_of_fits (by decide) hrange]
      refine lowValue_congr ?_
      rw [Int.natCast_mul, Int.natCast_mod, coe_pow, coe_pow, Int.mul_comm, Int.mul_comm y, hword',
        Int.mul_emod_mul_of_pos _ _ hpow', Int.mul_emod_mul_of_pos _ _ hpow', hmod,
        Int.emod_emod_of_dvd _ (Int.dvd_refl _)]
    rw [if_pos rfl, hint, Int.shiftRight_eq_div_pow, coe_pow,
      Int.mul_ediv_cancel _ (ne_of_gt hpow')]

/-! ### Division by the scale -/

/-- A number of the type minus a bias wraps around once at most. -/
def InReach (fSigned : Bool) (d : Int) : Prop :=
  -2 ^ 64 < d ∧ d < if fSigned then 2 ^ 64 else 2 ^ 65

variable {d : Int}

theorem lowValue_wraps (h : InReach fSigned d) :
    ∃ k : Int, (k = -1 ∨ k = 0 ∨ k = 1) ∧ d = lowValue fSigned 64 d + 2 ^ 64 * k := by
  have hmod := @lowValue_emod fSigned 64 d
  have hrange := @lowValue_fits fSigned 64 (by decide) d
  generalize lowValue fSigned 64 d = D at hmod hrange
  refine ⟨d / 2 ^ 64 - D / 2 ^ 64, ?_, ?_⟩
  · cases fSigned
    · simp only [InReach, Fits, Bool.false_eq_true, if_false] at h hrange
      omega
    · simp only [InReach, Fits, if_true] at h hrange
      omega
  · omega

variable {scale : Nat}

theorem dvd_lowValue_iff (hdvd : (scale : Int) ∣ d)
    (h : InReach fSigned d) :
    (scale : Int) ∣ lowValue fSigned 64 d ↔ scale ∣ 2 ^ 64 ∨ Fits fSigned 64 d := by
  obtain ⟨k, hk, heq⟩ := lowValue_wraps h
  have hcast : (scale : Int) ∣ 2 ^ 64 ↔ scale ∣ 2 ^ 64 := by
    rw [← coe_pow]
    exact Int.natCast_dvd_natCast
  have hiff : (scale : Int) ∣ lowValue fSigned 64 d ↔ (scale : Int) ∣ 2 ^ 64 * k := by
    rw [heq] at hdvd
    exact ⟨fun h => (Int.dvd_add_right h).mp hdvd, fun h => (Int.dvd_add_left h).mp hdvd⟩
  rw [hiff, ← lowValue_eq_self_iff (by decide : 0 < 64)]
  rcases hk with rfl | rfl | rfl
  · rw [Int.mul_neg_one, Int.dvd_neg, hcast, or_iff_left]
    intro hself
    rw [hself] at heq
    omega
  · rw [Int.mul_zero, iff_true_left (Int.dvd_zero _)]
    exact .inr (by omega)
  · rw [Int.mul_one, hcast, or_iff_left]
    intro hself
    rw [hself] at heq
    omega

theorem multiple_of_large {m : Int} (hlarge : 2 ^ 63 ≤ scale)
    (h : InReach true (scale * m)) : m = 0 ∨ m = 1 ∨ m = -1 := by
  simp only [InReach, if_true] at h
  have hlow : -2 < m := by
    by_contra hle
    have hmul := Int.mul_le_mul_of_nonneg_left (Int.not_lt.mp hle) (Int.natCast_nonneg scale)
    omega
  have hhigh : m < 2 := by
    by_contra hge
    have hmul := Int.mul_le_mul_of_nonneg_left (Int.not_lt.mp hge) (Int.natCast_nonneg scale)
    omega
  omega

theorem dvd_of_large (hlarge : 2 ^ 63 ≤ scale) (hlt : scale < 2 ^ 64)
    (hdvd : (scale : Int) ∣ d) (h : InReach true d) :
    lowValue true 64 scale ∣ lowValue true 64 d := by
  obtain ⟨m, rfl⟩ := hdvd
  have hm := multiple_of_large hlarge h
  have hscale : lowValue true 64 scale = scale - 2 ^ 64 := by
    rw [lowValue_congr (y := (scale : Int) - 2 ^ 64) (by omega)]
    refine lowValue_of_fits (by decide) ⟨?_, ?_⟩
    · omega
    · omega
  rcases hm with rfl | rfl | rfl
  · have hzero : lowValue true 64 0 = 0 := lowValue_of_fits (by decide) ⟨by decide, by decide⟩
    rw [Int.mul_zero, hzero]
    exact Int.dvd_zero _
  · rw [Int.mul_one]
  · by_cases heq : scale = 2 ^ 63
    · have hsame : lowValue true 64 (scale * -1) = lowValue true 64 scale :=
        lowValue_congr (by omega)
      rw [hsame]
    · have hneg : lowValue true 64 (scale * -1) = -(scale - 2 ^ 64) := by
        rw [lowValue_congr (y := -((scale : Int) - 2 ^ 64)) (by omega)]
        exact lowValue_of_fits (by decide) ⟨by omega, by omega⟩
      rw [hscale, hneg]
      exact Int.dvd_neg.mpr (Int.dvd_refl _)

theorem scale_dvd_iff (hlt : scale < 2 ^ 64) (hdvd : (scale : Int) ∣ d)
    (h : InReach fSigned d) :
    lowValue fSigned 64 scale ∣ lowValue fSigned 64 d ↔
      scale ∣ 2 ^ 64 ∨ (fSigned = true ∧ 2 ^ 63 ≤ scale) ∨ Fits fSigned 64 d := by
  by_cases hlarge : fSigned = true ∧ 2 ^ 63 ≤ scale
  · obtain ⟨rfl, hle⟩ := hlarge
    exact iff_of_true (dvd_of_large hle hlt hdvd h) (.inr (.inl ⟨rfl, hle⟩))
  · have hscale : lowValue fSigned 64 scale = scale := by
      refine lowValue_of_fits (by decide) ?_
      cases fSigned
      · exact ⟨Int.natCast_nonneg _, by omega⟩
      · have hlt' : scale < 2 ^ 63 := Nat.lt_of_not_le fun hle => hlarge ⟨rfl, hle⟩
        exact ⟨by omega, by omega⟩
    rw [hscale, dvd_lowValue_iff hdvd h]
    tauto

/-! ### `EmitValue` -/

instance : Decidable (Fits fSigned bits x) :=
  inferInstanceAs (Decidable (if fSigned then _ else _))

def quotient (fSigned : Bool) (scale : Nat) (d : Int) : Int :=
  if scale = 0 then lowValue fSigned 64 d
  else (lowValue fSigned 64 d).tdiv (lowValue fSigned 64 scale)

def encoded (fSigned : Bool) (bits : Nat) (q : Int) : Option (HResultOr Nat) :=
  if bits > 64 then none
  else if bits = 64 ∨ Fits fSigned bits q then some (.ok (uint64 q))
  else some (.error serializationViolation)

theorem int64_uint64 (x : Int) : int64 (uint64 x) = lowValue true 64 x := by
  rw [int64_eq, coe_uint64]
  exact lowValue_congr (Int.emod_emod_of_dvd x (Int.dvd_refl _))

theorem divideSigned_eq (hpos : scale ≠ 0) (hlt : scale < 2 ^ 64)
    (hdvd : (scale : Int) ∣ d) (h : InReach true d) :
    divideSigned (lowValue true 64 d) (lowValue true 64 scale)
      = some ((lowValue true 64 d).tdiv (lowValue true 64 scale)) := by
  refine if_neg ?_
  have hmod := @lowValue_emod true 64 scale
  rintro (hzero | ⟨hmin, hone⟩)
  · rw [hzero] at hmod
    omega
  · have hscale : (scale : Int) = 2 ^ 64 - 1 := by
      rw [hone] at hmod
      omega
    have hmod' := @lowValue_emod true 64 d
    obtain ⟨m, rfl⟩ := hdvd
    have hm := multiple_of_large (by omega) h
    rw [hmin, hscale] at hmod'
    rcases hm with rfl | rfl | rfl
    · exact absurd hmod' (by decide)
    · exact absurd hmod' (by decide)
    · exact absurd hmod' (by decide)

theorem scaleSigned_bind (hints : Hints) (bits val : Nat) :
    scaleSigned hints bits val = (if hints.scale ≠ 0 then
        divideSigned (int64 val) (int64 hints.scale) else some (int64 val)).bind fun valS =>
      if bits ≠ 64 then
        if bits > 64 then none
        else if valS < -((2 : Int) ^ (bits - 1) - 1) - 1 ∨ valS > 2 ^ (bits - 1) - 1 then
          some (.error serializationViolation)
        else some (.ok (uint64 valS))
      else some (.ok (uint64 valS)) := by
  rw [scaleSigned]
  split
  · rfl
  · rfl

def Divides (fSigned : Bool) (scale : Nat) (d : Int) : Prop :=
  fSigned = true → scale ≠ 0 →
    (divideSigned (lowValue true 64 d) (lowValue true 64 scale)).isSome = true

theorem divides_of_dvd (hlt : scale < 2 ^ 64) (hdvd : scale = 0 ∨ (scale : Int) ∣ d)
    (h : InReach fSigned d) : Divides fSigned scale d := by
  rintro rfl hzero
  rw [divideSigned_eq hzero hlt (hdvd.resolve_left hzero) h]
  rfl

theorem scaleSigned_eq {hints : Hints} (bits : Nat) (h : Divides true hints.scale d) :
    scaleSigned hints bits (uint64 d) = encoded true bits (quotient true hints.scale d) := by
  have hquotient : (if hints.scale ≠ 0 then
      divideSigned (int64 (uint64 d)) (int64 hints.scale) else some (int64 (uint64 d)))
        = some (quotient true hints.scale d) := by
    rw [int64_uint64, int64_eq, quotient]
    by_cases hzero : hints.scale = 0
    · rw [if_neg (not_not_intro hzero), if_pos hzero]
    · have hsome := h rfl hzero
      rw [if_pos hzero, if_neg hzero]
      rw [divideSigned] at hsome ⊢
      split_ifs at hsome ⊢
      · cases hsome
      · rfl
  rw [scaleSigned_bind, hquotient, Option.bind_some, encoded]
  generalize quotient true hints.scale d = q
  have hfits : Fits true bits q ↔ ¬(q < -((2 : Int) ^ (bits - 1) - 1) - 1 ∨ q > 2 ^ (bits - 1) - 1) := by
    rw [Fits, if_pos rfl]
    omega
  by_cases hwide : bits > 64
  · rw [if_pos (ne_of_gt hwide), if_pos hwide, if_pos hwide]
  · by_cases hword : bits = 64
    · rw [if_neg (not_not_intro hword), if_neg hwide, if_pos (.inl hword)]
    · rw [if_pos hword, if_neg hwide, if_neg hwide]
      by_cases hmax : q < -((2 : Int) ^ (bits - 1) - 1) - 1 ∨ q > 2 ^ (bits - 1) - 1
      · rw [if_pos hmax, if_neg]
        rw [hfits]
        tauto
      · rw [if_neg hmax, if_pos]
        exact .inr (hfits.mpr hmax)

theorem scaleUnsigned_eq (hints : Hints) (bits : Nat) (d : Int) :
    scaleUnsigned hints bits (uint64 d) = encoded false bits (quotient false hints.scale d) := by
  have hlt := hints.scale_lt
  have hscale : lowValue false 64 hints.scale = hints.scale :=
    lowValue_of_fits (by decide) ⟨Int.natCast_nonneg _, by omega⟩
  have hval : ((if hints.scale ≠ 0 then uint64 d / hints.scale else uint64 d : Nat) : Int)
      = quotient false hints.scale d := by
    have hword : ((uint64 d : Nat) : Int) = lowValue false 64 d := coe_uint64 d
    rw [quotient, hscale, ← hword]
    by_cases hzero : hints.scale = 0
    · rw [if_neg (not_not_intro hzero), if_pos hzero]
    · rw [if_pos hzero, if_neg hzero]
      exact Int.natCast_div _ _
  have hle : (if hints.scale ≠ 0 then uint64 d / hints.scale else uint64 d) < 2 ^ 64 := by
    have hword := uint64_lt d
    split
    · exact Nat.lt_of_le_of_lt (Nat.div_le_self _ _) hword
    · exact hword
  rw [scaleUnsigned, encoded, ← hval]
  generalize (if hints.scale ≠ 0 then uint64 d / hints.scale else uint64 d) = valU at hle
  have hpos := Nat.two_pow_pos bits
  have hfits : Fits false bits valU ↔ ¬valU > 2 ^ bits - 1 := by
    rw [Fits, if_neg Bool.false_ne_true, ← coe_pow]
    omega
  rw [uint64_of_lt hle]
  by_cases hwide : bits > 64
  · rw [if_pos (by omega), if_pos hwide, if_pos hwide]
  · by_cases hword : bits = 64
    · rw [if_neg (by omega), if_neg hwide, if_pos (.inl hword)]
    · rw [if_pos hword, if_neg hwide, if_neg hwide]
      by_cases hmax : valU > 2 ^ bits - 1
      · rw [if_pos hmax, if_neg]
        rw [hfits]
        tauto
      · rw [if_neg hmax, if_pos]
        exact .inr (hfits.mpr hmax)

/-! ### The round trip -/

/-- The number that a heap block of a type holds, minus the bias -/
def difference (fSigned : Bool) (bits : Nat) (hints : Hints) (u8 : UInt64) : Int :=
  lowValue fSigned bits u8.toNat - hints.rangeBias

theorem bitsAndSign_bits {dt : DataType} (h : bitsAndSign dt = some (bits, fSigned)) :
    0 < bits ∧ bits ≤ 64 := by
  cases dt <;> cases h <;> decide

theorem inReach_difference (hbits : 0 < bits) (hle : bits ≤ 64) (hints : Hints) (u8 : UInt64) :
    InReach fSigned (difference fSigned bits hints u8) := by
  have hfits := @lowValue_fits fSigned bits hbits u8.toNat
  obtain ⟨hlow, hhigh⟩ := hints.rangeBias_int
  rw [difference]
  generalize lowValue fSigned bits u8.toNat = v at hfits
  have hpow : ((2 : Int) ^ bits ≤ 2 ^ 64) := pow_le_pow_right₀ (by decide) hle
  have hhalf : ((2 : Int) ^ (bits - 1) ≤ 2 ^ 63) := pow_le_pow_right₀ (by decide) (by omega)
  cases fSigned
  · obtain ⟨h₁, h₂⟩ := hfits
    simp only [InReach, Bool.false_eq_true, if_false]
    omega
  · obtain ⟨h₁, h₂⟩ := hfits
    simp only [InReach, if_true]
    omega

theorem packedBits_pos {hints : Hints} (hbits : 0 < bits) : 0 < packedBits hints bits := by
  rw [packedBits]
  obtain ⟨hlow, hhigh⟩ := hints.bitPacked_int
  split
  · rw [uint32]
    omega
  · exact hbits

theorem packedBits_le_iff {hints : Hints} (hle : bits ≤ 64) :
    packedBits hints bits ≤ 64 ↔ 0 ≤ hints.bitPacked ∧ hints.bitPacked ≤ 64 := by
  rw [packedBits]
  obtain ⟨hlow, hhigh⟩ := hints.bitPacked_int
  split
  · rw [uint32]
    omega
  · omega

theorem emitValue_bind {dt : DataType} {hints : Hints} {u8 : UInt64}
    (hdt : bitsAndSign dt = some (bits, fSigned)) (s : MemoryStream) (heap : Allocator) :
    emitValue dt hints u8.toNat s heap =
      (if fSigned then
        scaleSigned hints (packedBits hints bits) (uint64 (difference fSigned bits hints u8))
        else scaleUnsigned hints (packedBits hints bits)
          (uint64 (difference fSigned bits hints u8))).bind fun
        | .error code => some (.failed code, s, heap)
        | .ok val => writeBits64 s heap val (packedBits hints bits) := by
  obtain ⟨hpos, hle⟩ := bitsAndSign_bits hdt
  have hword : (if 64 - bits ≠ 0 then shiftBack fSigned (64 - bits) u8.toNat else u8.toNat)
      = uint64 (lowValue fSigned bits u8.toNat) := by
    split
    · exact shiftBack_eq hpos hle _
    · have hfull : bits = 64 := by omega
      subst hfull
      rw [uint64_congr lowValue_emod, uint64_of_lt u8.toNat_lt]
  have hval : uint64 ((uint64 (lowValue fSigned bits u8.toNat) : Nat) - hints.rangeBias)
      = uint64 (difference fSigned bits hints u8) := by
    refine uint64_congr ?_
    rw [coe_uint64, difference]
    exact Int.emod_sub_emod _ _ _
  rw [emitValue, hdt]
  simp only [Option.bind_eq_bind, Option.bind_some]
  rw [hword, hval]
  cases fSigned
  · refine Eq.trans (if_neg Bool.false_ne_true) ?_
    exact congrArg (Option.bind · _) (if_neg Bool.false_ne_true).symm
  · refine Eq.trans (if_pos rfl) ?_
    exact congrArg (Option.bind · _) (if_pos rfl).symm

theorem emitValue_eq {dt : DataType} {hints : Hints} {u8 : UInt64}
    (hdt : bitsAndSign dt = some (bits, fSigned))
    (h : Divides fSigned hints.scale (difference fSigned bits hints u8)) (s : MemoryStream)
    (heap : Allocator) :
    emitValue dt hints u8.toNat s heap =
      (encoded fSigned (packedBits hints bits)
        (quotient fSigned hints.scale (difference fSigned bits hints u8))).bind fun
        | .error code => some (.failed code, s, heap)
        | .ok val => writeBits64 s heap val (packedBits hints bits) := by
  rw [emitValue_bind hdt]
  cases fSigned
  · rw [if_neg Bool.false_ne_true, scaleUnsigned_eq]
  · rw [if_pos rfl, scaleSigned_eq _ h]

theorem divides_of_emitValue {dt : DataType} {hints : Hints} {u8 : UInt64} {s : MemoryStream}
    {heap : Allocator} {r : HResult × MemoryStream × Allocator}
    (hdt : bitsAndSign dt = some (bits, fSigned))
    (h : emitValue dt hints u8.toNat s heap = some r) :
    Divides fSigned hints.scale (difference fSigned bits hints u8) := by
  rintro rfl hzero
  rw [emitValue_bind hdt, if_pos rfl, scaleSigned_bind, if_pos hzero, int64_uint64, int64_eq] at h
  cases hdivide : divideSigned (lowValue true 64 (difference true bits hints u8))
      (lowValue true 64 hints.scale) with
  | none =>
    rw [hdivide] at h
    cases h
  | some q => rfl

theorem readValue_eq {dt : DataType} {hints : Hints} (hdt : bitsAndSign dt = some (bits, fSigned))
    (hle : packedBits hints bits ≤ 64) {q : Int}
    (hq : packedBits hints bits = 64 ∨ Fits fSigned (packedBits hints bits) q)
    {s : MemoryStream} {rest : List Bool} (hs : Readable s)
    (hunread : s.unread = bitsOf (packedBits hints bits) (uint64 q) ++ rest) :
    ∃ s', readValue dt hints s = some (.ok (uint64 (q * (if hints.scale = 0 then 1
        else (hints.scale : Int)) + hints.rangeBias)), s') ∧ Readable s' ∧ s'.unread = rest := by
  obtain ⟨hbits, -⟩ := bitsAndSign_bits hdt
  have hpos := @packedBits_pos bits hints hbits
  have hread := readBits64_spec hs (packedBits hints bits)
  rw [hunread, takeBits_bitsOf] at hread
  obtain ⟨s', hcall, hreadable, hrest⟩ := hread
  refine ⟨s', ?_, hreadable, hrest⟩
  have hback : (if packedBits hints bits ≠ 64 then shiftBack fSigned (64 - packedBits hints bits)
      (uint64 q % 2 ^ packedBits hints bits) else uint64 q % 2 ^ packedBits hints bits)
        = uint64 q := by
    by_cases hfull : packedBits hints bits = 64
    · rw [if_neg (not_not_intro hfull), hfull, Nat.mod_eq_of_lt (uint64_lt q)]
    · rw [if_pos hfull, shiftBack_eq hpos hle, lowValue_word hpos hle (hq.resolve_left hfull)]
  rw [readValue, hdt]
  simp only [Option.bind_eq_bind, Option.bind_some, hcall, if_neg (Nat.not_lt.mpr hle), hback]
  refine congrArg (fun v => some (Except.ok v, s')) (uint64_congr ?_)
  by_cases hzero : hints.scale = 0
  · rw [if_neg (not_not_intro hzero), if_pos hzero, coe_uint64]
    omega
  · rw [if_pos hzero, if_neg hzero, Int.natCast_mod, Int.natCast_mul, coe_uint64]
    have hmul : q % 2 ^ 64 * hints.scale % 2 ^ 64 = q * hints.scale % 2 ^ 64 := by
      rw [Int.mul_emod, Int.emod_emod_of_dvd _ (Int.dvd_refl _), ← Int.mul_emod]
    have hcast : (((2 : Nat) ^ 64 : Nat) : Int) = 2 ^ 64 := coe_pow 64
    rw [hcast, Int.add_emod, Int.emod_emod_of_dvd _ (Int.dvd_refl _), hmul, ← Int.add_emod]

theorem restored_iff {hints : Hints} {u8 : UInt64} (hbits : 0 < bits) (hle : bits ≤ 64)
    (hdvd : hints.scale = 0 ∨ (hints.scale : Int) ∣ difference fSigned bits hints u8) :
    uint64 (quotient fSigned hints.scale (difference fSigned bits hints u8)
        * (if hints.scale = 0 then 1 else (hints.scale : Int)) + hints.rangeBias)
        = uint64 (lowValue fSigned bits u8.toNat) ↔
      hints.scale = 0 ∨ hints.scale ∣ 2 ^ 64 ∨ (fSigned = true ∧ 2 ^ 63 ≤ hints.scale) ∨
        Fits fSigned 64 (difference fSigned bits hints u8) := by
  have hreach := @inReach_difference fSigned bits hbits hle hints u8
  have hvalue : lowValue fSigned bits u8.toNat
      = difference fSigned bits hints u8 + hints.rangeBias := by
    rw [difference]
    omega
  rw [hvalue]
  generalize difference fSigned bits hints u8 = d at hdvd hreach
  have hD := @lowValue_emod fSigned 64 d
  by_cases hzero : hints.scale = 0
  · refine iff_of_true (uint64_congr ?_) (.inl hzero)
    rw [quotient, if_pos hzero, if_pos hzero, Int.mul_one]
    omega
  rw [or_iff_right hzero, ← scale_dvd_iff hints.scale_lt (hdvd.resolve_left hzero) hreach, quotient,
    if_neg hzero, if_neg hzero]
  have hS := @lowValue_emod fSigned 64 hints.scale
  have hrangeS := @lowValue_fits fSigned 64 (by decide) hints.scale
  have hrangeD := @lowValue_fits fSigned 64 (by decide) d
  have hne : lowValue fSigned 64 hints.scale ≠ 0 := by
    have hlt := hints.scale_lt
    intro h
    rw [h] at hS
    omega
  generalize lowValue fSigned 64 hints.scale = S at hS hrangeS hne ⊢
  generalize lowValue fSigned 64 d = D at hD hrangeD ⊢
  obtain ⟨j, hj⟩ : ∃ j, (hints.scale : Int) = S + 2 ^ 64 * j := ⟨hints.scale / 2 ^ 64 - S / 2 ^ 64, by omega⟩
  have hdiv := Int.mul_tdiv_add_tmod D S
  have hproduct : D.tdiv S * (hints.scale : Int) = S * D.tdiv S + 2 ^ 64 * (D.tdiv S * j) := by
    rw [hj]
    ring
  constructor
  · intro h
    have hmod := uint64_inj h
    rw [hproduct] at hmod
    refine Int.dvd_of_tmod_eq_zero ?_
    have hsmall : -2 ^ 64 < D.tmod S ∧ D.tmod S < 2 ^ 64 := by
      have habs : (D.tmod S).natAbs < S.natAbs := by
        rw [Int.natAbs_tmod]
        exact Nat.mod_lt _ (Int.natAbs_pos.mpr hne)
      cases fSigned
      · simp only [Fits, Bool.false_eq_true, if_false] at hrangeS
        omega
      · simp only [Fits, if_true] at hrangeS
        omega
    omega
  · intro h
    have hzero := Int.tmod_eq_zero_of_dvd h
    refine uint64_congr ?_
    rw [hproduct]
    omega

/-- What `EmitValue` may do: it reports a violation and leaves the stream, or memory for a buffer is
    missing, or it writes the quotient in the declared width, and `ReadValue` restores the number
    from these bits. -/
def Lossless (dt : DataType) (fSigned : Bool) (bits : Nat) (hints : Hints) (u8 : UInt64) : Prop :=
  ∀ s bs heap, Stored s bs → ∃ hr s' heap', emitValue dt hints u8.toNat s heap = some (hr, s', heap') ∧
    (hr = .failed serializationViolation ∧ s' = s ∨
      hr = .failed .outOfMemory ∧ s.capacity heap < bs.length + packedBits hints bits ∨
      hr = .ok ∧ ∃ more, Stored s' (bs ++ more) ∧ more.length = packedBits hints bits ∧
        uint64 (lowValue fSigned more.length (ofBits more))
          = uint64 (quotient fSigned hints.scale (difference fSigned bits hints u8)) ∧
        ∀ reader rest, Readable reader → reader.unread = more ++ rest →
          ∃ reader', readValue dt hints reader
              = some (.ok (uint64 (lowValue fSigned bits u8.toNat)), reader') ∧
            Readable reader' ∧ reader'.unread = rest)

/-- What is written is never truncated: the bits, in the declared width, are the quotient. -/
def NeverTruncated (dt : DataType) (fSigned : Bool) (bits : Nat) (hints : Hints) (u8 : UInt64) :
    Prop :=
  ∀ s bs heap s' heap', Stored s bs → emitValue dt hints u8.toNat s heap = some (.ok, s', heap') →
    ∃ more, Stored s' (bs ++ more) ∧ more.length = packedBits hints bits ∧
      uint64 (lowValue fSigned more.length (ofBits more))
        = uint64 (quotient fSigned hints.scale (difference fSigned bits hints u8))

/-- The condition on a number and its hints -/
def Exact (fSigned : Bool) (bits : Nat) (hints : Hints) (u8 : UInt64) : Prop :=
  (0 ≤ hints.bitPacked ∧ hints.bitPacked ≤ 64) ∧
    (packedBits hints bits ≠ 64 ∧ ¬Fits fSigned (packedBits hints bits)
        (quotient fSigned hints.scale (difference fSigned bits hints u8)) ∨
      hints.scale = 0 ∨ hints.scale ∣ 2 ^ 64 ∨ (fSigned = true ∧ 2 ^ 63 ≤ hints.scale) ∨
      Fits fSigned 64 (difference fSigned bits hints u8))

section RoundTrip

variable {dt : DataType} {hints : Hints} {u8 : UInt64}
  (hdt : bitsAndSign dt = some (bits, fSigned))

theorem lowValue_bitsOf (hpos : 0 < bits) (hle : bits ≤ 64) {q : Int}
    (hfits : bits = 64 ∨ Fits fSigned bits q) :
    uint64 (lowValue fSigned (bitsOf bits (uint64 q)).length (ofBits (bitsOf bits (uint64 q))))
      = uint64 q := by
  rw [length_bitsOf, ofBits_bitsOf]
  rcases hfits with rfl | hfits
  · rw [uint64_congr lowValue_emod, Nat.mod_eq_of_lt (uint64_lt _), uint64_of_lt (uint64_lt _)]
  · rw [lowValue_word hpos hle hfits]

include hdt

theorem neverTruncated : NeverTruncated dt fSigned bits hints u8 := by
  intro s bs heap s' heap' hstored hemit
  obtain ⟨hbits, -⟩ := bitsAndSign_bits hdt
  rw [emitValue_eq hdt (divides_of_emitValue hdt hemit), encoded] at hemit
  split_ifs at hemit with hwide hfits
  · cases hemit
  · have hwrite := writeBits64_spec hstored heap
      (uint64 (quotient fSigned hints.scale (difference fSigned bits hints u8)))
      (packedBits hints bits)
    obtain ⟨hr, s₁, heap₁, hcall, hout⟩ := hwrite
    obtain ⟨rfl, hrest⟩ := Prod.mk.inj (Option.some.inj (hcall.symm.trans hemit))
    obtain ⟨rfl, -⟩ := Prod.mk.inj hrest
    rcases hout with ⟨hfail, -⟩ | ⟨-, -, hmore⟩
    · cases hfail
    · exact ⟨_, hmore, length_bitsOf _ _,
        lowValue_bitsOf (packedBits_pos hbits) (Nat.le_of_not_lt hwide) hfits⟩
  · cases hemit

variable (hdvd : hints.scale = 0 ∨ (hints.scale : Int) ∣ difference fSigned bits hints u8)

include hdvd

theorem lossless_of_exact (h : Exact fSigned bits hints u8) : Lossless dt fSigned bits hints u8 := by
  intro s bs heap hstored
  obtain ⟨hbits, hle⟩ := bitsAndSign_bits hdt
  obtain ⟨hpacked, hcase⟩ := h
  have hwidth := (packedBits_le_iff hle).mpr hpacked
  have hpos := @packedBits_pos bits hints hbits
  have hdivides := divides_of_dvd hints.scale_lt hdvd (inReach_difference hbits hle hints u8)
  rw [emitValue_eq hdt hdivides, encoded, if_neg (Nat.not_lt.mpr hwidth)]
  by_cases hfits : packedBits hints bits = 64 ∨ Fits fSigned (packedBits hints bits)
      (quotient fSigned hints.scale (difference fSigned bits hints u8))
  · rw [if_pos hfits]
    have hexact := hcase.resolve_left fun hnot => by tauto
    obtain ⟨hr, s', heap', hwrite, hout⟩ := writeBits64_spec hstored heap
      (uint64 (quotient fSigned hints.scale (difference fSigned bits hints u8)))
      (packedBits hints bits)
    refine ⟨hr, s', heap', hwrite, ?_⟩
    rw [List.length_append, length_bitsOf] at hout
    rcases hout with ⟨hfail, hfew⟩ | ⟨hok, -, hmore⟩
    · exact .inr (.inl ⟨hfail, hfew⟩)
    · refine .inr (.inr ⟨hok, _, hmore, length_bitsOf _ _, lowValue_bitsOf hpos hwidth hfits,
        fun reader rest hreader hunread => ?_⟩)
      have hread := readValue_eq hdt hwidth hfits hreader hunread
      rwa [(restored_iff hbits hle hdvd).mpr hexact] at hread
  · rw [if_neg hfits]
    exact ⟨_, s, heap, rfl, .inl ⟨rfl, rfl⟩⟩

theorem exact_of_lossless (h : Lossless dt fSigned bits hints u8) :
    Exact fSigned bits hints u8 := by
  obtain ⟨hbits, hle⟩ := bitsAndSign_bits hdt
  obtain ⟨s, hcreate⟩ : ∃ s, createInstance none 0 (List.replicate 65 (some fun _ => 0)) =
      (.ok s, List.replicate 64 (some fun _ => 0)) := ⟨_, rfl⟩
  obtain ⟨hempty, hcapacity⟩ := createInstance_stored hcreate
  obtain ⟨hr, s', heap', hemit, hout⟩ := h s [] (List.replicate 64 (some fun _ => 0)) hempty
  have hdivides := divides_of_dvd hints.scale_lt hdvd (inReach_difference hbits hle hints u8)
  rw [emitValue_eq hdt hdivides, encoded] at hemit
  by_cases hwide : packedBits hints bits > 64
  · rw [if_pos hwide] at hemit
    cases hemit
  have hwidth := Nat.le_of_not_lt hwide
  refine ⟨(packedBits_le_iff hle).mp hwidth, ?_⟩
  rw [if_neg hwide] at hemit
  by_cases hfits : packedBits hints bits = 64 ∨ Fits fSigned (packedBits hints bits)
      (quotient fSigned hints.scale (difference fSigned bits hints u8))
  · rw [if_pos hfits] at hemit
    refine .inr ((restored_iff hbits hle hdvd).mp ?_)
    obtain ⟨hr', s'', heap'', hwrite, hwritten⟩ := writeBits64_spec hempty
      (List.replicate 64 (some fun _ => 0))
      (uint64 (quotient fSigned hints.scale (difference fSigned bits hints u8)))
      (packedBits hints bits)
    obtain ⟨rfl, hrest⟩ := Prod.mk.inj (Option.some.inj (hemit.symm.trans hwrite))
    obtain ⟨rfl, -⟩ := Prod.mk.inj hrest
    rw [hcapacity, buffers_replicate, List.nil_append, length_bitsOf] at hwritten
    rcases hwritten with ⟨-, hfew⟩ | ⟨rfl, -, hstored⟩
    · rw [c_PayloadSize] at hfew
      omega
    rcases hout with ⟨hviolation, -⟩ | ⟨hmemory, -⟩ | ⟨-, more, hmore, hlength, -, hrestores⟩
    · cases hviolation
    · cases hmemory
    -- both descriptions of the stream give the same bits
    obtain ⟨hreadable, pad, -, hunread⟩ := hmore.rewind
    obtain ⟨-, pad', -, hunread'⟩ := hstored.rewind
    rw [List.nil_append] at hunread
    obtain ⟨hbitsOf, -⟩ := List.append_inj (hunread.symm.trans hunread')
      (hlength.trans (length_bitsOf _ _).symm)
    rw [hbitsOf] at hunread hrestores
    obtain ⟨_, hread, -⟩ := hrestores _ _ hreadable hunread
    obtain ⟨_, hread', -⟩ := readValue_eq hdt hwidth hfits hreadable hunread
    exact Except.ok.inj (Prod.mk.inj (Option.some.inj (hread'.symm.trans hread))).1
  · exact .inl ⟨fun hfull => hfits (.inl hfull), fun h => hfits (.inr h)⟩

end RoundTrip

/-- **Numbers are restored exactly under the condition**: for every number type, number and hints
    `EmitValue` never truncates; and where the scale divides the difference to the bias, it refuses
    the number or writes bits that `ReadValue` restores it from if and only if the condition
    holds. -/
theorem emitValue_lossless_iff {dt : DataType} {bits : Nat} {fSigned : Bool} {hints : Hints}
    {u8 : UInt64} (hdt : bitsAndSign dt = some (bits, fSigned)) :
    NeverTruncated dt fSigned bits hints u8 ∧
      ((hints.scale = 0 ∨ (hints.scale : Int) ∣ difference fSigned bits hints u8) →
        (Lossless dt fSigned bits hints u8 ↔ Exact fSigned bits hints u8)) :=
  ⟨neverTruncated hdt, fun hdvd => ⟨exact_of_lossless hdt hdvd, lossless_of_exact hdt hdvd⟩⟩

/-- A number that is written in four bits, above a bias and in steps -/
theorem emitValue_lossless_steps :
    Lossless .u2 false 16 ⟨4, -10, 5, by decide, by decide, by decide⟩ 20 := by
  refine ((emitValue_lossless_iff (by rfl)).2 (.inr ⟨6, rfl⟩)).mpr ⟨⟨by decide, by decide⟩, ?_⟩
  exact .inr (.inr (.inr (.inr ⟨by decide, by decide⟩)))

/-- A zero below its bias that is not a power of two of steps away is not restored. -/
theorem zero_below_bias_is_lost :
    ((3 : Nat) : Int) ∣ difference false 64 ⟨0, 3, 3, by decide, by decide, by decide⟩ 0 ∧
    ¬Lossless .u8 false 64 ⟨0, 3, 3, by decide, by decide, by decide⟩ 0 := by
  have hdvd : ((3 : Nat) : Int) ∣ difference false 64 ⟨0, 3, 3, by decide, by decide, by decide⟩ 0 :=
    ⟨-1, rfl⟩
  refine ⟨hdvd, fun h => ?_⟩
  obtain ⟨-, hcase⟩ := exact_of_lossless rfl (.inr hdvd) h
  rcases hcase with ⟨hwidth, -⟩ | hzero | hpow | ⟨hsigned, -⟩ | ⟨hlow, -⟩
  · exact hwidth rfl
  · cases hzero
  · exact absurd hpow (by decide)
  · cases hsigned
  · exact absurd hlow (by decide)

end TinyClr.Serialization
