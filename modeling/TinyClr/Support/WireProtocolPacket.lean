import TinyClr.Support.WireProtocol
import TinyClr.Library.MachineInt
import Mathlib.Tactic.Common

/-!
# Packets that pass the receiver's checks

A header read back from its bytes is the header that was written, and what `PrepareRequest` and
`PrepareReply` build passes `VerifyHeader` and, with its payload, `VerifyPayload`.
-/

namespace TinyClr.WireProtocol

open TinyClr.Library TinyClr.Support

/-! ### Reading a header back -/

theorem load_bytes16 (x : UInt16) :
    x.toUInt8.toUInt16 ||| (x >>> 8).toUInt8.toUInt16 <<< 8 = x := by
  apply UInt16.toNat_inj.mp
  have hlt := x.toNat_lt
  simp only [UInt16.toNat_or, UInt16.toNat_shiftLeft, UInt8.toNat_toUInt16, UInt16.toNat_toUInt8,
    UInt16.toNat_shiftRight, UInt16.reduceToNat, Nat.shiftRight_eq_div_pow, Nat.reduceMod]
  have hshift : (x.toNat / 2 ^ 8 % 2 ^ 8) <<< 8 % 2 ^ 16 = (x.toNat / 2 ^ 8 % 2 ^ 8) <<< 8 := by
    rw [Nat.shiftLeft_eq]
    omega
  rw [hshift, or_shift 8 (by omega)]
  omega

theorem load_bytes32 (x : UInt32) :
    x.toUInt8.toUInt32 ||| (x >>> 8).toUInt8.toUInt32 <<< 8 |||
      (x >>> 16).toUInt8.toUInt32 <<< 16 ||| (x >>> 24).toUInt8.toUInt32 <<< 24 = x := by
  apply UInt32.toNat_inj.mp
  have hlt := x.toNat_lt
  simp only [UInt32.toNat_or, UInt32.toNat_shiftLeft, UInt8.toNat_toUInt32, UInt32.toNat_toUInt8,
    UInt32.toNat_shiftRight, UInt32.reduceToNat, Nat.shiftRight_eq_div_pow, Nat.reduceMod]
  have hshift : ∀ k a : Nat, a < 2 ^ 8 → k ≤ 24 → a <<< k % 2 ^ 32 = a <<< k := by
    intro k a ha hk
    rw [Nat.shiftLeft_eq]
    refine Nat.mod_eq_of_lt ?_
    calc a * 2 ^ k < 2 ^ 8 * 2 ^ k := Nat.mul_lt_mul_of_pos_right ha (Nat.two_pow_pos k)
      _ ≤ 2 ^ 8 * 2 ^ 24 := Nat.mul_le_mul_left _ (Nat.pow_le_pow_right (by decide) hk)
  rw [hshift 8 _ (by omega) (by decide), hshift 16 _ (by omega) (by decide),
    hshift 24 _ (by omega) (by decide), or_shift 8 (by omega), or_shift 16 (by omega),
    or_shift 24 (by omega)]
  omega

theorem bytes_length {p : Packet} (h : p.signature.length = signatureSize) :
    p.bytes.length = headerSize := by
  simp only [Packet.bytes, List.length_append, h]
  rfl

theorem ofBytes_bytes {p : Packet} (h : p.signature.length = signatureSize) :
    Packet.ofBytes p.bytes = p := by
  obtain ⟨signature, crcHeader, crcData, cmd, seq, seqReply, flags, size⟩ := p
  obtain ⟨s0, s1, s2, s3, s4, s5, s6, s7, rfl⟩ :
      ∃ s0 s1 s2 s3 s4 s5 s6 s7, signature = [s0, s1, s2, s3, s4, s5, s6, s7] := by
    match signature, h with
    | [s0, s1, s2, s3, s4, s5, s6, s7], _ => exact ⟨s0, s1, s2, s3, s4, s5, s6, s7, rfl⟩
  simp only [Packet.ofBytes, Packet.bytes, load16, load32, bytes16, bytes32, List.cons_append,
    List.nil_append, List.take_succ_cons, List.take_zero, List.getD_cons_succ, List.getD_cons_zero,
    Nat.reduceAdd, load_bytes32, load_bytes16]

/-! ### Sealed packets -/

theorem signature_length (marker : Marker) : marker.signature.length = signatureSize := by
  cases marker <;> rfl

structure Packet.Sealed (p : Packet) (payload : List UInt8) : Prop where
  signature_eq : ∃ marker : Marker, p.signature = marker.signature
  crcHeader_eq : p.crcHeader = computeCRC { p with crcHeader := 0 }.bytes headerSize 0
  crcData_eq : p.crcData = computeCRC payload p.size.toNat 0

theorem prepareRequest_sealed (szMarker : Marker) (seq : UInt16) (cmd flags payloadSize : UInt32)
    (payload : List UInt8) :
    (prepareRequest szMarker seq cmd flags payloadSize payload).Sealed payload := by
  refine ⟨⟨szMarker, rfl⟩, ?_, ?_⟩ <;> simp only [prepareRequest, Packet.seal]

theorem prepareReply_sealed (szMarker : Marker) (seq : UInt16) (req : Packet)
    (flags payloadSize : UInt32) (payload : List UInt8) :
    (prepareReply szMarker seq req flags payloadSize payload).Sealed payload := by
  refine ⟨⟨szMarker, rfl⟩, ?_, ?_⟩ <;> simp only [prepareReply, Packet.seal]

variable {p : Packet} {payload : List UInt8}

theorem Packet.Sealed.signature_length (h : p.Sealed payload) :
    p.signature.length = signatureSize := by
  obtain ⟨marker, hmarker⟩ := h.signature_eq
  rw [hmarker]
  exact WireProtocol.signature_length marker

theorem Packet.Sealed.verifyHeader_bytes (h : p.Sealed payload) : verifyHeader p.bytes = true := by
  have hload : load32 p.bytes 8 = (Packet.ofBytes p.bytes).crcHeader := rfl
  have hzero : p.bytes.take 8 ++ [0, 0, 0, 0] ++ p.bytes.drop 12 =
      { p with crcHeader := 0 }.bytes := by
    have hlength : p.signature.length = 8 := h.signature_length
    simp only [Packet.bytes, List.append_assoc]
    rw [List.take_left' hlength, ← List.append_assoc p.signature (bytes32 p.crcHeader),
      List.drop_left' (by rw [List.length_append, hlength]; rfl)]
    rfl
  rw [verifyHeader, hzero, hload, ofBytes_bytes h.signature_length, h.crcHeader_eq]
  exact beq_self_eq_true _

theorem Packet.Sealed.verifyPayload_some (h : p.Sealed payload) :
    verifyPayload p (some payload) = true := by
  rw [verifyPayload, h.crcData_eq]
  exact beq_self_eq_true _

theorem Packet.Sealed.verifyPayload_none (h : p.Sealed []) (hsize : p.size = 0) :
    verifyPayload p none = true := by
  rw [verifyPayload, h.crcData_eq, hsize, beq_self_eq_true, Bool.and_true]
  exact decide_eq_true rfl

end TinyClr.WireProtocol
