import TinyClr.Library.Ring
import TinyClr.Pal.UsbStreams

/-!
# What the queues of USB packets hold

A queue holds a sequence of packets.  What is still to be read from an endpoint are the bytes of its
packets behind the offset, as long as the offset lies in the first of them; `Read` takes them from
the front.
-/

namespace TinyClr.UsbStreams

open TinyClr.Library

/-! ### Queues -/

namespace Queue

structure Holds (q : Queue) (ps : List Packet64) : Prop where
  ring : Ring q.data q.reader ps
  writer : q.writer = (q.reader + ps.length) % q.data.length
  full : q.full = true ↔ ps.length = q.data.length

variable {q q' : Queue} {p : Packet64} {ps : List Packet64} {i : Nat}

theorem clear_holds (hpos : 0 < q.data.length) : q.clear.Holds [] := by
  refine ⟨Ring.nil hpos, ?_, ?_⟩
  · exact (Nat.zero_mod _).symm
  · exact ⟨fun h => absurd h (by simp [clear]), fun h => absurd hpos (by
      have : 0 = q.data.length := h
      omega)⟩

theorem next_eq {k n : Nat} (hk : k < n) : (if k + 1 = n then 0 else k + 1) = (k + 1) % n := by
  split
  · rename_i heq
    rw [heq, Nat.mod_self]
  · rw [Nat.mod_eq_of_lt (by omega)]

theorem Holds.push_none (h : q.Holds ps) : q.push = none ↔ ps.length = q.data.length := by
  rw [← h.full]
  unfold push
  dsimp only
  cases q.full <;> simp

theorem Holds.push_some (h : q.Holds ps) (hpush : q.push = some (i, q')) :
    q'.data = q.data ∧ i < q.data.length ∧
      ∀ p, ({ q' with data := q'.data.set i p } : Queue).Holds (ps ++ [p]) := by
  have hroom : ps.length < q.data.length := by
    have hle := h.ring.length_le
    have hne : ps.length ≠ q.data.length := fun heq => by
      rw [h.push_none.mpr heq] at hpush
      exact absurd hpush (by simp)
    omega
  have hwriter : q.writer < q.data.length := by
    rw [h.writer]
    exact Nat.mod_lt _ (by omega)
  have hfull : q.full = false := by
    rw [← Bool.not_eq_true, h.full]
    omega
  rw [push, hfull, next_eq hwriter] at hpush
  obtain ⟨rfl, rfl⟩ := Prod.mk.inj (Option.some.inj hpush)
  have hnext : (q.writer + 1) % q.data.length = (q.reader + (ps.length + 1)) % q.data.length := by
    rw [h.writer, Nat.mod_add_mod, Nat.add_assoc]
  refine ⟨rfl, hwriter, fun p => ⟨?_, ?_, ?_⟩⟩
  · have hring := h.ring.push hroom p
    rwa [← h.writer] at hring
  · rw [List.length_set, List.length_append, List.length_singleton]
    exact hnext
  · rw [List.length_set, List.length_append, List.length_singleton, decide_eq_true_eq]
    show (q.writer + 1) % q.data.length = q.reader ↔ ps.length + 1 = q.data.length
    rw [hnext]
    constructor
    · intro heq
      by_contra hne
      have hlast := @Ring.position_ne q.data.length q.reader 0 (ps.length + 1) (by omega) (by omega)
      rw [Nat.add_zero, Nat.mod_eq_of_lt h.ring.head_lt] at hlast
      exact hlast heq.symm
    · intro heq
      rw [heq, Nat.add_mod_right, Nat.mod_eq_of_lt h.ring.head_lt]

theorem Holds.peek_nil (h : q.Holds []) : q.peek = none := by
  have hpos := h.ring.head_lt
  have hwriter : q.writer = q.reader := by
    rw [h.writer, List.length_nil, Nat.add_zero, Nat.mod_eq_of_lt hpos]
  have hfull : q.full = false := by
    rw [← Bool.not_eq_true, h.full, List.length_nil]
    omega
  exact if_pos ⟨hwriter, hfull⟩

theorem Holds.not_empty (h : q.Holds (p :: ps)) : ¬ (q.writer = q.reader ∧ q.full = false) := by
  rintro ⟨hwriter, hfull⟩
  have hle := h.ring.length_le
  have hne : (p :: ps).length ≠ q.data.length := fun heq => by
    rw [h.full.mpr heq] at hfull
    exact absurd hfull (by decide)
  rw [List.length_cons] at hle hne
  have hlast := @Ring.position_ne q.data.length q.reader 0 (ps.length + 1) (by omega) (by omega)
  rw [Nat.add_zero, Nat.mod_eq_of_lt h.ring.head_lt] at hlast
  rw [h.writer] at hwriter
  exact hlast hwriter.symm

theorem Holds.peek_cons (h : q.Holds (p :: ps)) : q.peek = some q.reader ∧ q.packet q.reader = p := by
  refine ⟨if_neg h.not_empty, ?_⟩
  rw [packet, List.getD_eq_getElem?_getD, h.ring.peek]
  rfl

theorem Holds.pop (h : q.Holds (p :: ps)) :
    ∃ q', q.pop = some (q.reader, q') ∧ q'.data = q.data ∧ q'.Holds ps := by
  have hle := h.ring.length_le
  rw [List.length_cons] at hle
  rw [Queue.pop, if_neg fun hempty => h.not_empty ⟨hempty.1.symm, hempty.2⟩,
    next_eq h.ring.head_lt]
  refine ⟨_, rfl, rfl, h.ring.advance, ?_, ?_⟩
  · show q.writer = ((q.reader + 1) % q.data.length + ps.length) % q.data.length
    rw [h.writer, Nat.mod_add_mod, List.length_cons, Nat.add_assoc, Nat.add_comm 1]
  · exact ⟨fun hfull => absurd hfull (by simp), fun heq => by
      have : ps.length = q.data.length := heq
      omega⟩

theorem Holds.pop_some (h : q.Holds ps) (hpop : q.pop = some (i, q')) :
    ∃ p rest, ps = p :: rest ∧ q'.Holds rest := by
  cases ps with
  | nil =>
    have hempty : q.pop = none := by
      have hpeek := h.peek_nil
      unfold peek at hpeek
      unfold Queue.pop
      by_cases hwriter : q.writer = q.reader ∧ q.full = false
      · rw [if_pos ⟨hwriter.1.symm, hwriter.2⟩]
      · rw [if_neg hwriter] at hpeek
        exact absurd hpeek (by simp)
    exact absurd (hempty.symm.trans hpop) (by simp)
  | cons p rest =>
    obtain ⟨q'', hpop', -, hholds⟩ := h.pop
    obtain ⟨-, rfl⟩ := Prod.mk.inj (Option.some.inj (hpop'.symm.trans hpop))
    exact ⟨p, rest, rfl, hholds⟩

end Queue

/-! ### Bytes to be read -/

def Packet64.bytes (p : Packet64) : List UInt8 := p.buffer.take p.size

/-- The packet's bytes lie in its buffer. -/
def Packet64.Whole (p : Packet64) : Prop :=
  p.size ≤ USB_MAX_DATA_PACKET_SIZE ∧ p.size ≤ p.buffer.length

theorem Packet64.Whole.length {p : Packet64} (h : p.Whole) : p.bytes.length = p.size := by
  rw [bytes, List.length_take, Nat.min_eq_left h.2]

/-- What is still to be read from packets, `offset` bytes of the first having been read -/
def pending (offset : Nat) (ps : List Packet64) : List UInt8 :=
  (ps.map Packet64.bytes).flatten.drop offset

/-- The packets are whole, and the offset lies in the first one. -/
structure Readable (offset : Nat) (ps : List Packet64) : Prop where
  whole : ∀ p ∈ ps, p.Whole
  offset : offset = 0 ∨ ∃ p rest, ps = p :: rest ∧ offset < p.size

theorem pending_cons {offset : Nat} {p : Packet64} {ps : List Packet64} (hp : p.Whole)
    (hoffset : offset ≤ p.size) :
    pending offset (p :: ps) = p.bytes.drop offset ++ pending 0 ps := by
  rw [pending, List.map_cons, List.flatten_cons, List.drop_append_of_le_length
    (by rw [hp.length]; exact hoffset)]
  rfl

theorem Readable.concat {offset : Nat} {p : Packet64} {ps : List Packet64} (h : Readable offset ps)
    (hp : p.Whole) : Readable offset (ps ++ [p]) ∧
      pending offset (ps ++ [p]) = pending offset ps ++ p.bytes := by
  have hoffset : offset ≤ (ps.map Packet64.bytes).flatten.length := by
    rcases h.offset with hzero | ⟨first, rest, rfl, hlt⟩
    · omega
    · rw [List.map_cons, List.flatten_cons, List.length_append,
        (h.whole first List.mem_cons_self).length]
      omega
  refine ⟨⟨?_, ?_⟩, ?_⟩
  · intro x hx
    rcases List.mem_append.mp hx with hx | hx
    · exact h.whole x hx
    · rw [List.mem_singleton.mp hx]
      exact hp
  · rcases h.offset with hzero | ⟨first, rest, rfl, hlt⟩
    · exact Or.inl hzero
    · exact Or.inr ⟨first, rest ++ [p], rfl, hlt⟩
  · rw [pending, List.map_append, List.flatten_append, List.drop_append_of_le_length hoffset,
      List.map_singleton, List.flatten_singleton]
    rfl

/-- The loop of `Read` takes bytes from the front of what is to be read, and only those. -/
theorem readLoop_spec : ∀ (ps : List Packet64) (fuel : Nat) (e : Endpoint) (q : Queue)
    (remain : Nat) (acc : List UInt8), q.Holds ps → Readable e.currentPacketOffset.toNat ps →
    remain < 2 ^ 32 → ps.length < fuel →
    ∃ e' q' ps', State.readLoop fuel e q remain acc true =
        some ({ e with queue := some q', currentPacketOffset := e' },
          acc ++ (pending e.currentPacketOffset.toNat ps).take remain, true) ∧
      q'.data.length = q.data.length ∧ q'.Holds ps' ∧ Readable e'.toNat ps' ∧
      pending e'.toNat ps' = (pending e.currentPacketOffset.toNat ps).drop remain := by
  intro ps
  induction ps with
  | nil =>
    intro fuel e q remain acc hq hreadable hremain hfuel
    have hzero : e.currentPacketOffset.toNat = 0 := by
      rcases hreadable.offset with h | ⟨p, rest, h, -⟩
      · exact h
      · exact absurd h (by simp)
    refine ⟨e.currentPacketOffset, q, [], ?_, rfl, hq, hreadable, by simp [pending]⟩
    have hempty : (pending e.currentPacketOffset.toNat []).take remain = [] := by simp [pending]
    rw [hempty, List.append_nil]
    unfold State.readLoop
    split
    · rfl
    · obtain ⟨fuel, rfl⟩ := Nat.exists_eq_succ_of_ne_zero (Nat.ne_of_gt hfuel)
      dsimp only
      rw [hq.peek_nil]
  | cons p ps ih =>
    intro fuel e q remain acc hq hreadable hremain hfuel
    obtain ⟨hwhole, hrest⟩ := List.forall_mem_cons.mp hreadable.whole
    have hoffset : e.currentPacketOffset.toNat = 0 ∨ e.currentPacketOffset.toNat < p.size := by
      rcases hreadable.offset with h | ⟨p', rest, h, hlt⟩
      · exact Or.inl h
      · obtain ⟨rfl, -⟩ := List.cons.inj h
        exact Or.inr hlt
    generalize ho : e.currentPacketOffset.toNat = o at *
    have hsize : p.size ≤ 64 := hwhole.1
    have hle : o ≤ p.size := by omega
    rw [pending_cons hwhole hle]
    by_cases hzero : remain = 0
    · subst hzero
      refine ⟨e.currentPacketOffset, q, p :: ps, ?_, rfl, hq, ho ▸ hreadable, ?_⟩
      · unfold State.readLoop
        simp
      · rw [ho, pending_cons hwhole hle]
        rfl
    · obtain ⟨fuel, rfl⟩ := Nat.exists_eq_succ_of_ne_zero (Nat.ne_of_gt (Nat.zero_lt_of_lt hfuel))
      obtain ⟨hpeek, hpacket⟩ := hq.peek_cons
      have havailable : (p.size + 2 ^ 32 - o) % 2 ^ 32 = p.size - o := by omega
      unfold State.readLoop
      rw [if_neg hzero]
      dsimp only
      rw [hpeek]
      dsimp only
      rw [hpacket, ho, havailable]
      generalize hm : (if remain < p.size - o then remain else p.size - o) = m
      have hcases : (remain < p.size - o ∧ m = remain) ∨ (p.size - o ≤ remain ∧ m = p.size - o) := by
        rw [← hm]
        split
        · rename_i hlt
          exact Or.inl ⟨hlt, rfl⟩
        · exact Or.inr ⟨by omega, rfl⟩
      have hsum : (e.currentPacketOffset + UInt8.ofNat m).toNat = o + m := by
        rw [UInt8.toNat_add, UInt8.toNat_ofNat', ho]
        omega
      have hmoved : (p.buffer.drop o).take m = (p.bytes.drop o).take m := by
        rw [Packet64.bytes, List.drop_take, List.take_take, Nat.min_eq_left (by omega)]
      have hdrop : (p.bytes.drop o).length = p.size - o := by rw [List.length_drop, hwhole.length]
      rw [hsum, hmoved, Bool.true_and, decide_eq_true (by omega : o + m ≤ p.size)]
      rcases hcases with ⟨hlt, rfl⟩ | ⟨hge, rfl⟩
      · -- the buffer is full within this packet
        refine ⟨e.currentPacketOffset + UInt8.ofNat m, q, p :: ps, ?_, rfl, hq,
          ⟨hreadable.whole, Or.inr ⟨p, ps, rfl, by rw [hsum]; omega⟩⟩, ?_⟩
        · rw [if_neg (by omega), Nat.sub_self, List.take_append_of_le_length (by omega)]
          unfold State.readLoop
          rfl
        · rw [hsum, pending_cons hwhole (by omega), List.drop_append_of_le_length (by omega),
            List.drop_drop]
      · obtain ⟨q', hpop, hdata, hq'⟩ := hq.pop
        obtain ⟨e', q'', ps', hloop, hdata', hholds, hreadable', hpending⟩ := ih fuel
          { e with currentPacketOffset := 0 } q' (remain - (p.size - o))
          (acc ++ (p.bytes.drop o).take (p.size - o)) hq' ⟨hrest, Or.inl rfl⟩ (by omega)
          (by rw [List.length_cons] at hfuel; omega)
        refine ⟨e', q'', ps', ?_, hdata'.trans (congrArg _ hdata), hholds, hreadable', ?_⟩
        · rw [if_pos (by omega), hpop]
          dsimp only
          rw [hloop, List.append_assoc, List.take_append, hdrop,
            List.take_of_length_le (by omega : (p.bytes.drop o).length ≤ p.size - o),
            List.take_of_length_le (by omega : (p.bytes.drop o).length ≤ remain)]
          rfl
        · have hrest : pending e'.toNat ps' = (pending 0 ps).drop (remain - (p.size - o)) := hpending
          have hnil : (p.bytes.drop o).drop remain = [] := List.drop_of_length_le (by omega)
          rw [hrest, List.drop_append, hdrop, hnil, List.nil_append]

end TinyClr.UsbStreams
