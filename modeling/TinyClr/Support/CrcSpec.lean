import TinyClr.Support.Crc
import TinyClr.Library.PolynomialRemainder

/-!
# The checksum is a polynomial remainder

The table of `SUPPORT_ComputeCRC` holds the remainders of the single bytes, so a step of the loop
feeds the eight bits of a byte into the shift register of the generator, and the whole loop divides
the block by it.
-/

namespace TinyClr.Support

open TinyClr.Library Polynomial

/-! ### The generator and the table -/

/-- The generator below its leading power, as the table has it at index one:
    `x^26+x^23+x^22+x^16+x^12+x^11+x^10+x^8+x^7+x^5+x^4+x^2+x+1` -/
def crcGenerator : BitVec 32 :=
  (crcTable.getD 1 0).toBitVec

/-- The bits of a block, the most significant of each byte first -/
def blockBits (rgBlock : List UInt8) : List Bool :=
  rgBlock.flatMap fun b => bitsOf 8 b.toNat

theorem length_blockBits (rgBlock : List UInt8) : (blockBits rgBlock).length = 8 * rgBlock.length := by
  induction rgBlock with
  | nil => rfl
  | cons b rgBlock ih =>
    have hcons : blockBits (b :: rgBlock) = bitsOf 8 b.toNat ++ blockBits rgBlock := rfl
    rw [hcons, List.length_append, length_bitsOf, ih, List.length_cons]
    omega

/-- Division of a block by the generator, bit by bit, from a register that holds `crc` -/
def divideBits (rgBlock : List UInt8) (crc : UInt32) : UInt32 :=
  UInt32.ofBitVec (feed crcGenerator crc.toBitVec (blockBits rgBlock))

set_option maxRecDepth 10000 in
theorem crcTable_eq : crcTable = (List.range 256).map fun i =>
    UInt32.ofBitVec (feed crcGenerator 0 (bitsOf 8 i)) := by
  rfl

theorem crcTable_getD {i : Nat} (hi : i < 256) :
    crcTable.getD i 0 = UInt32.ofBitVec (feed crcGenerator 0 (bitsOf 8 i)) := by
  rw [crcTable_eq, List.getD_eq_getElem?_getD, List.getElem?_map, List.getElem?_range hi]
  rfl

/-! ### One byte -/

theorem crcIndex (crc : UInt32) (b : UInt8) :
    (((crc >>> 24) ^^^ b.toUInt32) &&& 0xFF).toNat = crc.toNat / 2 ^ 24 ^^^ b.toNat := by
  have hcrc := crc.toNat_lt
  have hb := b.toNat_lt
  have htop : crc.toNat / 2 ^ 24 < 2 ^ 8 := by omega
  have hxor := Nat.xor_lt_two_pow htop (show b.toNat < 2 ^ 8 by omega)
  have hand : (crc.toNat / 2 ^ 24 ^^^ b.toNat) &&& 255 = crc.toNat / 2 ^ 24 ^^^ b.toNat := by
    rw [and_mask 8 (by rfl), Nat.mod_eq_of_lt hxor]
  simpa [Nat.shiftRight_eq_div_pow] using hand

theorem crcByte_eq (crc : UInt32) (b : UInt8) :
    (crcByte crc b).toBitVec = feed crcGenerator crc.toBitVec (bitsOf 8 b.toNat) := by
  have hcrc := crc.toNat_lt
  have hb := b.toNat_lt
  have hindex : crc.toNat / 2 ^ 24 ^^^ b.toNat < 256 :=
    Nat.xor_lt_two_pow (n := 8) (by omega) (by omega)
  have hshift : wordPoly 32 (crc <<< 8).toNat = wordPoly 24 crc.toNat * X ^ 8 := by
    rw [← wordPoly_shift]
    refine wordPoly_congr ?_
    simp [Nat.shiftLeft_eq]
  have hcut : wordPoly 32 crc.toNat = wordPoly 8 (crc.toNat / 2 ^ 24) * X ^ 24
      + wordPoly 24 crc.toNat := wordPoly_add 8 24 crc.toNat
  have hpoly : wordPoly 32 (crcByte crc b).toNat
      = wordPoly 32 (feed crcGenerator crc.toBitVec (bitsOf 8 b.toNat)).toNat := by
    rw [wordPoly_feed _ (by decide), crcByte, crcIndex, crcTable_getD hindex, UInt32.toNat_xor,
      wordPoly_xor]
    have hentry : wordPoly 32 (UInt32.ofBitVec (feed crcGenerator 0
        (bitsOf 8 (crc.toNat / 2 ^ 24 ^^^ b.toNat)))).toNat
        = ((wordPoly 8 (crc.toNat / 2 ^ 24) + wordPoly 8 b.toNat) * X ^ 32)
            %ₘ generator crcGenerator := by
      have hfeed := wordPoly_feed crcGenerator (by decide) 0
        (bitsOf 8 (crc.toNat / 2 ^ 24 ^^^ b.toNat))
      have hzero : wordPoly 32 (0 : BitVec 32).toNat = 0 := wordPoly_zero 32
      rw [hzero, zero_mul, zero_add, ← wordPoly, wordPoly_xor] at hfeed
      exact hfeed
    have hsum : (wordPoly 8 (crc.toNat / 2 ^ 24) + wordPoly 8 b.toNat) * X ^ 32
        + wordPoly 24 crc.toNat * X ^ 8
        = wordPoly 32 crc.toNat * X ^ 8 + wordPoly 8 b.toNat * X ^ 32 := by
      rw [hcut]
      ring
    rw [hentry, ← wordPoly_mod crcGenerator (crc <<< 8).toNat, ← add_modByMonic, hshift, hsum,
      length_bitsOf, ← wordPoly, UInt32.toNat_toBitVec]
  have hmod := wordPoly_injective hpoly
  have hlt := (feed crcGenerator crc.toBitVec (bitsOf 8 b.toNat)).isLt
  rw [Nat.mod_eq_of_lt (UInt32.toNat_lt _), Nat.mod_eq_of_lt hlt] at hmod
  exact BitVec.eq_of_toNat_eq hmod

/-! ### Whole blocks -/

theorem foldl_crcByte (rgBlock : List UInt8) (crc : UInt32) :
    rgBlock.foldl crcByte crc = divideBits rgBlock crc := by
  induction rgBlock generalizing crc with
  | nil => rfl
  | cons b rgBlock ih =>
    have hcons : blockBits (b :: rgBlock) = bitsOf 8 b.toNat ++ blockBits rgBlock := rfl
    rw [List.foldl_cons, ih, divideBits, divideBits, crcByte_eq, hcons, feed_append]

theorem computeCRC_length {rgBlock : List UInt8} (h : rgBlock.length < 2 ^ 31) (crc : UInt32) :
    computeCRC rgBlock rgBlock.length crc = rgBlock.foldl crcByte crc := by
  rw [computeCRC, int32_eq_self (by omega) (by omega), Int.toNat_natCast, List.take_length]

theorem computeCRC_eq_divideBits {rgBlock : List UInt8} (h : rgBlock.length < 2 ^ 31)
    (crc : UInt32) : computeCRC rgBlock rgBlock.length crc = divideBits rgBlock crc := by
  rw [computeCRC_length h, foldl_crcByte]

theorem computeCRC_append {a b : List UInt8} (h : (a ++ b).length < 2 ^ 31) (crc : UInt32) :
    computeCRC b b.length (computeCRC a a.length crc)
      = computeCRC (a ++ b) (a ++ b).length crc := by
  have hlen : (a ++ b).length = a.length + b.length := List.length_append
  rw [computeCRC_length h, computeCRC_length (by omega), computeCRC_length (by omega),
    List.foldl_append]

/-- The checksum as a remainder: the register put in front of the block, times the leading power -/
theorem wordPoly_divideBits (rgBlock : List UInt8) (crc : UInt32) :
    wordPoly 32 (divideBits rgBlock crc).toNat
      = (wordPoly 32 crc.toNat * X ^ (8 * rgBlock.length) + bitPoly (blockBits rgBlock) * X ^ 32)
          %ₘ generator crcGenerator := by
  have hfeed := wordPoly_feed crcGenerator (by decide) crc.toBitVec (blockBits rgBlock)
  rw [length_blockBits, UInt32.toNat_toBitVec] at hfeed
  exact hfeed

variable {s t : List UInt8}

/-- Two strings have one checksum exactly when they differ by a multiple of the generator. -/
theorem foldl_crcByte_eq_iff : s.foldl crcByte 0 = t.foldl crcByte 0 ↔
    generator crcGenerator ∣ bitPoly (blockBits s) - bitPoly (blockBits t) := by
  have hword : ∀ rgBlock : List UInt8, wordPoly 32 (divideBits rgBlock 0).toNat =
      (bitPoly (blockBits rgBlock) * X ^ 32) %ₘ generator crcGenerator := by
    intro rgBlock
    rw [wordPoly_divideBits, show (0 : UInt32).toNat = 0 from rfl, wordPoly_zero, zero_mul, zero_add]
  have hsame : wordPoly 32 (divideBits s 0).toNat = wordPoly 32 (divideBits t 0).toNat ↔
      generator crcGenerator ∣ (bitPoly (blockBits s) - bitPoly (blockBits t)) * X ^ 32 := by
    rw [hword, hword, ← sub_eq_zero, ← sub_modByMonic,
      modByMonic_eq_zero_iff_dvd (generator_monic _), sub_mul]
  rw [foldl_crcByte, foldl_crcByte]
  constructor
  · intro heq
    rw [heq] at hsame
    exact (isCoprime_generator crcGenerator (by decide) (by decide) 32).dvd_of_dvd_mul_right
      (hsame.mp rfl)
  · intro hdvd
    have hmod := wordPoly_injective (hsame.mpr (hdvd.mul_right _))
    rw [Nat.mod_eq_of_lt (UInt32.toNat_lt _), Nat.mod_eq_of_lt (UInt32.toNat_lt _)] at hmod
    exact UInt32.toNat_inj.mp hmod

/-! ### Bursts -/

theorem blockBits_injective (h : blockBits s = blockBits t) : s = t := by
  induction s generalizing t with
  | nil =>
    have hlen := congrArg List.length h
    rw [length_blockBits, length_blockBits, List.length_nil] at hlen
    exact (List.eq_nil_of_length_eq_zero (by omega)).symm
  | cons b s ih =>
    obtain _ | ⟨c, t⟩ := t
    · have hlen := congrArg List.length h
      rw [length_blockBits, length_blockBits, List.length_cons, List.length_nil] at hlen
      omega
    have hcons : bitsOf 8 b.toNat ++ blockBits s = bitsOf 8 c.toNat ++ blockBits t := h
    obtain ⟨hhead, htail⟩ := List.append_inj hcons (by simp)
    have hbyte := mod_eq_of_bitsOf hhead
    rw [Nat.mod_eq_of_lt b.toNat_lt, Nat.mod_eq_of_lt c.toNat_lt] at hbyte
    rw [UInt8.toNat_inj.mp hbyte, ih htail]

def DifferWithin (n : Nat) (s t : List UInt8) : Prop :=
  ∃ front us vs back, us.length ≤ n ∧ us.length = vs.length
    ∧ blockBits s = front ++ us ++ back ∧ blockBits t = front ++ vs ++ back

theorem DifferWithin.length_eq {n : Nat} (h : DifferWithin n s t) :
    s.length = t.length := by
  obtain ⟨front, us, vs, back, -, hlen, hs, ht⟩ := h
  have hs' := congrArg List.length hs
  have ht' := congrArg List.length ht
  rw [length_blockBits] at hs' ht'
  simp only [List.length_append] at hs' ht'
  omega

theorem divideBits_ne (hwindow : DifferWithin 32 s t) (hne : s ≠ t)
    (crc : UInt32) : divideBits s crc ≠ divideBits t crc := by
  obtain ⟨front, us, vs, back, hshort, hlen, hs, ht⟩ := hwindow
  intro heq
  have hfeed := congrArg UInt32.toBitVec heq
  rw [divideBits, divideBits, hs, ht] at hfeed
  have hus := eq_of_feed_eq crcGenerator (by decide) (by decide) hlen hshort hfeed
  exact hne (blockBits_injective (by rw [hs, ht, hus]))

/-- `SUPPORT_ComputeCRC` over every block that its `int` length can cover: it may be computed in
    pieces, it is the bit-serial division and the polynomial remainder by the generator of the
    table, and a burst of at most 32 bits always changes it. -/
theorem computeCRC_polynomial (s : List UInt8) (hs : s.length < 2 ^ 31) (c : UInt32) :
    (∀ a b, s = a ++ b →
      computeCRC b b.length (computeCRC a a.length c) = computeCRC s s.length c)
    ∧ computeCRC s s.length c = divideBits s c
    ∧ wordPoly 32 (computeCRC s s.length c).toNat
        = (wordPoly 32 c.toNat * X ^ (8 * s.length) + bitPoly (blockBits s) * X ^ 32)
            %ₘ generator crcGenerator
    ∧ ∀ t, t ≠ s → DifferWithin 32 s t →
        computeCRC t t.length c ≠ computeCRC s s.length c := by
  refine ⟨?_, computeCRC_eq_divideBits hs c, ?_, ?_⟩
  · rintro a b rfl
    exact computeCRC_append hs c
  · rw [computeCRC_eq_divideBits hs, wordPoly_divideBits]
  · intro t hne hwindow
    have hlen := hwindow.length_eq
    rw [computeCRC_eq_divideBits hs, computeCRC_eq_divideBits (by omega)]
    exact (divideBits_ne hwindow hne.symm c).symm

/-- Two one-byte blocks, which differ in two neighbouring bits -/
theorem computeCRC_one_two :
    computeCRC [1] 1 0 = divideBits [1] 0 ∧ computeCRC [2] 1 0 ≠ computeCRC [1] 1 0 :=
  ⟨(computeCRC_polynomial [1] (by decide) 0).2.1,
    (computeCRC_polynomial [1] (by decide) 0).2.2.2 [2] (by decide)
      ⟨[false, false, false, false, false, false], [false, true], [true, false], [], by decide,
        by decide, by decide, by decide⟩⟩

end TinyClr.Support
