import TinyClr.Library.Ring
import TinyClr.Library.Runs
import TinyClr.Pal.HalQueue
import Mathlib.Tactic.Common

/-!
# The queues of the HAL are bounded FIFOs

Reader, writer and the full flag say where a run of slots is, around the end of the buffer, that
holds the elements.  Every operation is one that a bounded FIFO may do, so every sequence of
operations is.
-/

namespace TinyClr.HalQueue

open TinyClr.Library

variable {T : Type*} {b : Buffer T} {xs : List T} {t : Fifo T}

/-! ### What a queue holds -/

structure Holds (b : Buffer T) (xs : List T) : Prop where
  ring : Ring b.m_data b.queue.m_reader xs
  size : b.queue.m_size = b.m_data.length
  writer : b.queue.m_writer = (b.queue.m_reader + xs.length) % b.m_data.length
  full : b.queue.m_full = true ↔ xs.length = b.m_data.length
  /-- The slots can be told apart by an `int`. -/
  addressable : b.m_data.length ≤ 2 ^ 31

def fifoOf (b : Buffer T) (xs : List T) : Fifo T :=
  xs.mapIdx fun i x => ((b.queue.m_reader + i) % b.m_data.length, x)

def StandsFor (capacity : Nat) (b : Buffer T) (t : Fifo T) : Prop :=
  ∃ xs, Holds b xs ∧ b.m_data.length = capacity ∧ t = fifoOf b xs

namespace Holds

theorem length_le (h : Holds b xs) : xs.length ≤ b.m_data.length := h.ring.length_le

theorem reader_lt (h : Holds b xs) : b.queue.m_reader < b.m_data.length := h.ring.head_lt

theorem writer_cases (h : Holds b xs) :
    b.queue.m_reader + xs.length < b.m_data.length ∧
        b.queue.m_writer = b.queue.m_reader + xs.length ∨
      b.m_data.length ≤ b.queue.m_reader + xs.length ∧
        b.queue.m_writer = b.queue.m_reader + xs.length - b.m_data.length := by
  have hwriter := h.writer
  have hle := h.length_le
  have hlt := h.reader_lt
  rcases Nat.lt_or_ge (b.queue.m_reader + xs.length) b.m_data.length with hin | hout
  · rw [Nat.mod_eq_of_lt hin] at hwriter
    exact Or.inl ⟨hin, hwriter⟩
  · rw [Nat.mod_eq_sub_mod hout, Nat.mod_eq_of_lt (by omega)] at hwriter
    exact Or.inr ⟨hout, hwriter⟩

theorem numberOfElements (h : Holds b xs) : b.queue.numberOfElements = xs.length := by
  have hle := h.length_le
  have hlt := h.reader_lt
  have haddressable := h.addressable
  rw [Queue.numberOfElements, h.size]
  by_cases hfull : b.queue.m_full = true
  · have hlength := h.full.mp hfull
    rcases h.writer_cases with ⟨hin, hwriter⟩ | ⟨hout, hwriter⟩ <;>
      · rw [if_neg (by omega), if_pos hfull, hlength]
  · have hlength : xs.length ≠ b.m_data.length := fun heq => hfull (h.full.mpr heq)
    rw [if_neg hfull]
    rcases h.writer_cases with ⟨hin, hwriter⟩ | ⟨hout, hwriter⟩
    · rw [if_neg (by omega)]
      omega
    · rw [if_pos (by omega), uint32_eq_toNat (by omega) (by omega)]
      omega

theorem isEmpty_iff (h : Holds b xs) : b.queue.isEmpty = true ↔ xs = [] := by
  have hle := h.length_le
  have hlt := h.reader_lt
  rw [← List.length_eq_zero_iff, Queue.isEmpty, Bool.and_eq_true, decide_eq_true_iff,
    Bool.not_eq_true']
  constructor
  · rintro ⟨heq, hfull⟩
    have hlength : xs.length ≠ b.m_data.length := by
      intro hlength
      rw [h.full.mpr hlength] at hfull
      cases hfull
    rcases h.writer_cases with ⟨hin, hwriter⟩ | ⟨hout, hwriter⟩ <;> omega
  · intro hzero
    refine ⟨?_, ?_⟩
    · rcases h.writer_cases with ⟨hin, hwriter⟩ | ⟨hout, hwriter⟩ <;> omega
    · rw [← Bool.not_eq_true, h.full]
      omega

theorem ofData {data : List T} (hpos : 0 < data.length) (hle : data.length ≤ 2 ^ 31) :
    Holds (.ofData data) [] where
  ring := .nil hpos
  size := rfl
  writer := (Nat.zero_mod _).symm
  full := ⟨nofun, fun hlength => absurd hlength (Nat.ne_of_lt hpos)⟩
  addressable := hle

theorem wrap (h : Holds b xs) {index n : Nat} (hle : index + n ≤ b.m_data.length) :
    b.queue.wrap (uint32 (index + n : Nat)) = (index + n) % b.m_data.length := by
  have haddressable := h.addressable
  rw [uint32_nat (by omega), Queue.wrap, h.size]
  split
  next heq => rw [heq, Nat.mod_self]
  next hne => rw [Nat.mod_eq_of_lt (by omega)]

/-! ### The FIFO of a queue -/

theorem fifo_length : (fifoOf b xs).length = xs.length := List.length_mapIdx

theorem fifo_slots : (fifoOf b xs).slots =
    (List.range xs.length).map fun i => (b.queue.m_reader + i) % b.m_data.length := by
  apply List.ext_getElem?
  intro i
  rw [Fifo.slots, fifoOf, List.getElem?_map, List.getElem?_mapIdx, List.getElem?_map]
  rcases Nat.lt_or_ge i xs.length with hin | hout
  · rw [List.getElem?_eq_getElem hin, List.getElem?_range hin]
    rfl
  · rw [List.getElem?_eq_none hout, List.getElem?_eq_none (by rw [List.length_range]; exact hout)]
    rfl

theorem mem_fifo_slots {slot : Nat} : slot ∈ (fifoOf b xs).slots ↔
    ∃ i < xs.length, slot = (b.queue.m_reader + i) % b.m_data.length := by
  rw [fifo_slots, List.mem_map]
  constructor
  · rintro ⟨i, hi, rfl⟩
    exact ⟨i, List.mem_range.mp hi, rfl⟩
  · rintro ⟨i, hi, rfl⟩
    exact ⟨i, List.mem_range.mpr hi, rfl⟩

theorem free_range {k n : Nat} (hle : k + n ≤ b.m_data.length)
    {slot : Nat} (hslot : slot = (b.queue.m_reader + k) % b.m_data.length)
    (hend : slot + n ≤ b.m_data.length) {j : Nat} (hj : j < n) {i : Nat} (hi : i < k) :
    slot + j ≠ (b.queue.m_reader + i) % b.m_data.length := by
  intro heq
  have hpos : slot + j = (b.queue.m_reader + (k + j)) % b.m_data.length := by
    rw [← Nat.add_assoc, ← Nat.mod_add_mod, ← hslot, Nat.mod_eq_of_lt (by omega)]
  exact Ring.position_ne (show i < k + j by omega) (by omega) (heq.symm.trans hpos)

/-! ### Transfers -/

theorem filled (h : Holds b xs) {ys : List T} (hys : ys ≠ [])
    (hroom : xs.length + ys.length ≤ b.m_data.length)
    (hend : b.queue.m_writer + ys.length ≤ b.m_data.length) :
    let writer := b.queue.wrap (uint32 (b.queue.m_writer + ys.length : Nat))
    let b' : Buffer T := ⟨{ b.queue with
      m_writer := writer, m_full := decide (writer = b.queue.m_reader) },
      b.m_data.take b.queue.m_writer ++ ys ++ b.m_data.drop (b.queue.m_writer + ys.length)⟩
    Holds b' (xs ++ ys) ∧ b'.m_data.length = b.m_data.length ∧
      fifoOf b' (xs ++ ys) =
        fifoOf b xs ++ (List.range' b.queue.m_writer ys.length).zip ys ∧
      Free b.m_data.length (fifoOf b xs) (List.range' b.queue.m_writer ys.length) := by
  intro writer b'
  have hpos := List.length_pos_iff.mpr hys
  have hlt := h.reader_lt
  have hlength : b'.m_data.length = b.m_data.length := by
    rw [List.length_append, List.length_append, List.length_take, List.length_drop]
    omega
  have hwriter : writer = (b.queue.m_reader + (xs ++ ys).length) % b.m_data.length := by
    rw [List.length_append, ← Nat.add_assoc, ← Nat.mod_add_mod, ← h.writer]
    exact h.wrap hend
  have hplace : ∀ i, xs.length ≤ i → i < xs.length + ys.length →
      (b.queue.m_reader + i) % b.m_data.length = b.queue.m_writer + (i - xs.length) := by
    intro i hlow hhigh
    rw [show b.queue.m_reader + i = b.queue.m_reader + xs.length + (i - xs.length) by omega,
      ← Nat.mod_add_mod, ← h.writer, Nat.mod_eq_of_lt (by omega)]
  refine ⟨⟨h.ring.pushPiece h.writer hroom hend hys, ?_, ?_, ?_, ?_⟩, hlength, ?_, ?_, ?_, ?_⟩
  · rw [hlength]
    exact h.size
  · rw [hlength]
    exact hwriter
  · rw [hlength]
    change decide (writer = b.queue.m_reader) = true ↔ _
    rw [decide_eq_true_iff, hwriter, List.length_append]
    rcases Nat.lt_or_ge (b.queue.m_reader + (xs.length + ys.length)) b.m_data.length with hin | hout
    · rw [Nat.mod_eq_of_lt hin]
      omega
    · rw [Nat.mod_eq_sub_mod hout, Nat.mod_eq_of_lt (by omega)]
      omega
  · rw [hlength]
    exact h.addressable
  · apply List.ext_getElem?
    intro i
    rw [fifoOf, hlength, List.getElem?_mapIdx]
    change Option.map (fun x => ((b.queue.m_reader + i) % b.m_data.length, x)) _ = _
    rcases Nat.lt_or_ge i xs.length with hold | hnew
    · rw [List.getElem?_append_left hold, List.getElem?_append_left (by rw [fifo_length]; exact hold),
        fifoOf, List.getElem?_mapIdx]
    · rw [List.getElem?_append_right hnew,
        List.getElem?_append_right (by rw [fifo_length]; exact hnew), fifo_length]
      rcases Nat.lt_or_ge i (xs.length + ys.length) with hin | hout
      · have hlast : i - xs.length < ys.length := by omega
        have hslot : (List.range' b.queue.m_writer ys.length)[i - xs.length]? =
            some (b.queue.m_writer + (i - xs.length)) := by
          rw [List.getElem?_range' hlast, Nat.one_mul]
        have hzip : ((List.range' b.queue.m_writer ys.length).zip ys)[i - xs.length]? =
            some (b.queue.m_writer + (i - xs.length), ys[i - xs.length]) :=
          List.getElem?_zip_eq_some.mpr ⟨hslot, List.getElem?_eq_getElem hlast⟩
        rw [hplace i hnew hin, List.getElem?_eq_getElem hlast, hzip]
        rfl
      · rw [List.getElem?_eq_none (by omega), List.getElem?_eq_none (by
          rw [List.length_zip, List.length_range']
          omega)]
        rfl
  · intro slot hslot
    have hrange := List.mem_range'_1.mp hslot
    omega
  · intro slot hslot hmem
    have hrange := List.mem_range'_1.mp hslot
    obtain ⟨i, hi, heq⟩ := mem_fifo_slots.mp hmem
    refine free_range hroom h.writer hend (show slot - b.queue.m_writer < ys.length by omega) hi ?_
    omega
  · exact List.nodup_range'

theorem taken (h : Holds b xs) {k : Nat} (hpos : 0 < k) (hk : k ≤ xs.length)
    (hend : b.queue.m_reader + k ≤ b.m_data.length) :
    let b' : Buffer T := { b with queue := { b.queue with
      m_reader := b.queue.wrap (uint32 (b.queue.m_reader + k : Nat)), m_full := false } }
    Holds b' (xs.drop k) ∧ fifoOf b' (xs.drop k) = (fifoOf b xs).drop k ∧
      Fifo.slots ((fifoOf b xs).take k) = List.range' b.queue.m_reader k ∧
      ((fifoOf b xs).take k).map Prod.snd = (b.m_data.drop b.queue.m_reader).take k ∧
      Free b.m_data.length ((fifoOf b xs).drop k) (List.range' b.queue.m_reader k) := by
  intro b'
  have hle := h.length_le
  have hreader : b'.queue.m_reader = (b.queue.m_reader + k) % b.m_data.length := h.wrap hend
  have hfifo : fifoOf b' (xs.drop k) = (fifoOf b xs).drop k := by
    apply List.ext_getElem?
    intro i
    rw [fifoOf, hreader, List.getElem?_mapIdx, List.getElem?_drop, List.getElem?_drop, fifoOf,
      List.getElem?_mapIdx]
    change Option.map (fun x => (((b.queue.m_reader + k) % b.m_data.length + i) % b.m_data.length, x)) _
      = _
    rw [Nat.mod_add_mod, Nat.add_assoc]
  refine ⟨⟨?_, h.size, ?_, ?_, h.addressable⟩, hfifo, ?_, ?_, ?_, ?_, ?_⟩
  · rw [hreader]
    exact h.ring.drop hk
  · rw [hreader, List.length_drop]
    change b.queue.m_writer = _
    rw [h.writer, Nat.mod_add_mod,
      show b.queue.m_reader + k + (xs.length - k) = b.queue.m_reader + xs.length by omega]
  · rw [List.length_drop]
    change false = true ↔ xs.length - k = b.m_data.length
    exact ⟨nofun, fun heq => absurd heq (by omega)⟩
  · apply List.ext_getElem?
    intro i
    rw [Fifo.slots, List.getElem?_map, List.getElem?_take, fifoOf, List.getElem?_mapIdx]
    rcases Nat.lt_or_ge i k with hin | hout
    · rw [if_pos hin, List.getElem?_eq_getElem (by omega), List.getElem?_range' hin,
        Nat.mod_eq_of_lt (by omega), Nat.one_mul]
      rfl
    · rw [if_neg (by omega), List.getElem?_eq_none (by rw [List.length_range']; exact hout)]
      rfl
  · rw [h.ring.piece hk hend]
    apply List.ext_getElem?
    intro i
    rw [List.getElem?_map, List.getElem?_take, List.getElem?_take, fifoOf, List.getElem?_mapIdx]
    split
    · rw [Option.map_map]
      exact Option.map_id'
    · rfl
  · intro slot hslot
    have hrange := List.mem_range'_1.mp hslot
    omega
  · intro slot hslot hmem
    have hrange := List.mem_range'_1.mp hslot
    rw [← hfifo] at hmem
    obtain ⟨i, hi, heq⟩ := mem_fifo_slots.mp hmem
    rw [hreader, Nat.mod_add_mod, List.length_drop] at *
    have hsame : slot = (b.queue.m_reader + (slot - b.queue.m_reader)) % b.m_data.length := by
      rw [Nat.mod_eq_of_lt (by omega)]
      omega
    refine Ring.position_ne (show slot - b.queue.m_reader < k + i by omega) (by omega)
      (hsame.symm.trans (heq.trans ?_))
    rw [Nat.add_assoc]
  · exact List.nodup_range'

/-! ### Operations -/

/-- The operation is one that the FIFO may do, and the queue stands for the FIFO after it. -/
def Refines (b : Buffer T) (xs : List T) (op : Op T) : Prop :=
  ∃ b' xs' r, b.step op = some (b', r) ∧ Holds b' xs' ∧ b'.m_data.length = b.m_data.length ∧
    Fifo.Step b.m_data.length (fifoOf b xs) op (fifoOf b' xs') r

theorem fifo_nil_iff : fifoOf b xs = [] ↔ xs = [] := by
  rw [← List.length_eq_zero_iff, fifo_length, List.length_eq_zero_iff]

theorem push (h : Holds b xs) (x : T) : Refines b xs (.push x) := by
  have hle := h.length_le
  have hlt := h.reader_lt
  by_cases hfull : b.queue.m_full = true
  · refine ⟨b, xs, .pushed 0 [], ?_, h, rfl, Or.inl ⟨?_, rfl, rfl⟩⟩
    · rw [Buffer.step, Queue.push, if_pos hfull]
    · rw [fifo_length]
      exact h.full.mp hfull
  · have hroom : xs.length ≠ b.m_data.length := fun heq => hfull (h.full.mpr heq)
    have hwriter : b.queue.m_writer < b.m_data.length := by
      rw [h.writer]
      exact Nat.mod_lt _ (by omega)
    obtain ⟨hholds, hlength, hfifo, hfree⟩ := h.filled (List.cons_ne_nil x [])
      (by rw [List.length_singleton]; omega) (by rw [List.length_singleton]; omega)
    rw [List.length_singleton] at hholds hlength hfifo hfree
    refine ⟨_, _, .pushed 1 [b.queue.m_writer], ?_, hholds, hlength, Or.inr ⟨?_, _, hfree, hfifo, rfl⟩⟩
    · rw [Buffer.step, Queue.push, if_neg hfull]
      dsimp only
      rw [if_pos hwriter, List.set_eq_take_append_cons_drop, if_pos hwriter, List.append_assoc]
      rfl
    · rw [fifo_length]
      omega

theorem pop (h : Holds b xs) : Refines b xs .pop := by
  have hlt := h.reader_lt
  by_cases hempty : xs = []
  · refine ⟨b, xs, .popped 0 [] [], ?_, h, rfl,
      Or.inl ⟨fifo_nil_iff.mpr hempty, fifo_nil_iff.mpr hempty, rfl⟩⟩
    rw [Buffer.step, Queue.pop, if_pos (h.isEmpty_iff.mpr hempty)]
  · obtain ⟨x, rest, rfl⟩ := List.exists_cons_of_ne_nil hempty
    obtain ⟨hholds, hfifo, -, -, hfree⟩ := h.taken Nat.one_pos (by simp) hlt
    refine ⟨_, _, .popped 1 [b.queue.m_reader] [x], ?_, hholds, rfl,
      Or.inr ⟨b.queue.m_reader, x, ?_, ?_, rfl⟩⟩
    · rw [Buffer.step, Queue.pop, if_neg fun hzero => hempty (h.isEmpty_iff.mp hzero)]
      dsimp only
      rw [h.ring.peek]
      rfl
    · have hcons : fifoOf b (x :: rest) = (b.queue.m_reader, x) :: (fifoOf b (x :: rest)).drop 1 := by
        rw [fifoOf, List.mapIdx_cons, Nat.add_zero, Nat.mod_eq_of_lt hlt]
        rfl
      rw [hfifo]
      exact hcons
    · rw [hfifo]
      exact hfree

theorem read_at (h : Holds b xs) {i : Nat} (hi : i < xs.length) :
    b.read (some ((b.queue.m_reader + i) % b.m_data.length)) = some (fifoOf b xs)[i]? := by
  rw [Buffer.read, h.ring.get i hi, fifoOf, List.getElem?_mapIdx, List.getElem?_eq_getElem hi]
  rfl

theorem peek (h : Holds b xs) : Refines b xs .peek := by
  refine ⟨b, xs, .element (fifoOf b xs).head?, ?_, h, rfl, rfl, rfl⟩
  rw [Buffer.step, Queue.peek]
  by_cases hempty : xs = []
  · rw [if_pos (h.isEmpty_iff.mpr hempty), fifo_nil_iff.mpr hempty]
    rfl
  · have hread := h.read_at (List.length_pos_iff.mpr hempty)
    rw [Nat.add_zero, Nat.mod_eq_of_lt h.reader_lt] at hread
    rw [if_neg fun hzero => hempty (h.isEmpty_iff.mp hzero), hread, List.head?_eq_getElem?]
    rfl

theorem elementAt (h : Holds b xs) (index : Int) : Refines b xs (.elementAt index) := by
  have hle := h.length_le
  have hlt := h.reader_lt
  have haddressable := h.addressable
  have hrange := int32_range index
  refine ⟨b, xs, _, ?_, h, rfl, rfl, rfl⟩
  rw [Buffer.step, Queue.elementAt, h.numberOfElements, h.size]
  generalize int32 index = i at hrange ⊢
  by_cases hneg : i < 0
  · rw [if_pos (Or.inl hneg), if_pos hneg]
    rfl
  · obtain ⟨n, rfl⟩ := Int.eq_ofNat_of_zero_le (Int.not_lt.mp hneg)
    have hn : uint32 (n : Int) = n := uint32_nat (by omega)
    rw [if_neg hneg, hn, Int.toNat_natCast]
    by_cases hout : xs.length ≤ n
    · rw [if_pos (Or.inr hout), List.getElem?_eq_none (by rw [fifo_length]; exact hout)]
      rfl
    · have hsum : uint32 (b.queue.m_reader + (n : Int)) = b.queue.m_reader + n :=
        uint32_nat (n := b.queue.m_reader + n) (by omega)
      rw [if_neg (by omega), hsum, h.read_at (by omega)]
      rfl

theorem count (h : Holds b xs) : Refines b xs .numberOfElements := by
  refine ⟨b, xs, .count (fifoOf b xs).length, ?_, h, rfl, rfl, rfl⟩
  rw [Buffer.step, h.numberOfElements, fifo_length]

theorem pushBlock (h : Holds b xs) (ys : List T) : Refines b xs (.pushBlock ys) := by
  have hle := h.length_le
  have hlt := h.reader_lt
  by_cases hnone : b.queue.m_full = true ∨ ys.length = 0
  · refine ⟨b, xs, .pushed 0 [], ?_, h, rfl, [], ⟨nofun, nofun, List.nodup_nil⟩, Nat.zero_le _, ?_,
      fun _ => ?_, ?_, rfl⟩
    · rw [Buffer.step, Queue.pushBlock, if_pos hnone]
    · rw [fifo_length]
      exact hle
    · rw [fifo_length]
      exact hnone.symm.imp List.eq_nil_of_length_eq_zero h.full.mp
    · rw [List.zip_nil_left, List.append_nil]
  · rw [not_or] at hnone
    have hroom : xs.length ≠ b.m_data.length := fun heq => hnone.1 (h.full.mpr heq)
    -- the free slots up to the reader or up to the end
    obtain ⟨max, hmax, hpos, hfits, hend⟩ : ∃ max, (if b.queue.m_writer < b.queue.m_reader then
        b.queue.m_reader - b.queue.m_writer else b.queue.m_size - b.queue.m_writer) = max ∧ 0 < max ∧
        xs.length + max ≤ b.m_data.length ∧ b.queue.m_writer + max ≤ b.m_data.length := by
      refine ⟨_, rfl, ?_⟩
      rw [h.size]
      rcases h.writer_cases with ⟨hin, hwriter⟩ | ⟨hout, hwriter⟩
      · rw [if_neg (by omega)]
        omega
      · rw [if_pos (by omega)]
        omega
    obtain ⟨n, hn⟩ : ∃ n, (if max < ys.length then max else ys.length) = n := ⟨_, rfl⟩
    have hnle : n ≤ ys.length ∧ n ≤ max ∧ 0 < n := by
      rw [← hn]
      split <;> omega
    have htake : (ys.take n).length = n := by
      rw [List.length_take]
      omega
    obtain ⟨hholds, hlength, hfifo, hfree⟩ := @Holds.filled T b xs h (ys.take n)
      (fun hnil => by rw [hnil, List.length_nil] at htake; omega) (by omega) (by omega)
    simp only [htake] at hholds hlength hfifo hfree
    refine ⟨_, _, .pushed n (List.range' b.queue.m_writer n), ?_, hholds, hlength,
      List.range' b.queue.m_writer n, hfree, ?_, ?_, ?_, ?_, ?_⟩
    · rw [Buffer.step, Queue.pushBlock, if_neg (not_or.mpr hnone)]
      dsimp only
      rw [hmax, hn, if_pos (by omega)]
    · rw [List.length_range']
      exact hnle.1
    · rw [List.length_range', fifo_length]
      omega
    · intro hnil
      rw [← List.length_eq_zero_iff, List.length_range'] at hnil
      omega
    · rw [hfifo]
      rw [@List.zip_eq_zip_take_min _ _ (List.range' b.queue.m_writer n) ys, List.length_range', Nat.min_eq_left hnle.1,
        List.take_of_length_le (l := List.range' b.queue.m_writer n) (by rw [List.length_range'])]
    · rw [List.length_range']

theorem popBlock_eq (h : Holds b xs) (hempty : xs ≠ []) {nElements n : Nat} (hzero : nElements ≠ 0)
    (hn : n = min nElements (min xs.length (b.m_data.length - b.queue.m_reader))) :
    b.queue.popBlock nElements = (n, some b.queue.m_reader, { b.queue with
      m_reader := b.queue.wrap (uint32 (b.queue.m_reader + n : Nat)), m_full := false }) := by
  have hle := h.length_le
  have hlt := h.reader_lt
  have hpos := List.length_pos_iff.mpr hempty
  have hmax : (if b.queue.m_writer ≤ b.queue.m_reader then b.queue.m_size - b.queue.m_reader
      else b.queue.m_writer - b.queue.m_reader) =
      min xs.length (b.m_data.length - b.queue.m_reader) := by
    rw [h.size]
    rcases h.writer_cases with ⟨hin, hwriter⟩ | ⟨hout, hwriter⟩
    · rw [if_neg (by omega)]
      omega
    · rw [if_pos (by omega)]
      omega
  have hmin : (if min xs.length (b.m_data.length - b.queue.m_reader) < nElements then
      min xs.length (b.m_data.length - b.queue.m_reader) else nElements) = n := by
    rw [hn]
    split <;> omega
  rw [Queue.popBlock, if_neg hzero, if_neg fun hnil => hempty (h.isEmpty_iff.mp hnil)]
  dsimp only
  rw [hmax, hmin]

theorem popBlock_run (h : Holds b xs) (hempty : xs ≠ []) {nElements n : Nat} (hzero : nElements ≠ 0)
    (hn : n = min nElements (min xs.length (b.m_data.length - b.queue.m_reader))) :
    b.step (.popBlock nElements) = some ({ b with queue := { b.queue with
      m_reader := b.queue.wrap (uint32 (b.queue.m_reader + n : Nat)), m_full := false } },
      .popped n (List.range' b.queue.m_reader n) ((b.m_data.drop b.queue.m_reader).take n)) := by
  have hlt := h.reader_lt
  rw [Buffer.step, h.popBlock_eq hempty hzero hn]
  dsimp only
  rw [if_pos (by omega)]

theorem popBlock_empty (h : Holds b []) (nElements : Nat) : ∃ b' r,
    b.step (.popBlock nElements) = some (b', r) ∧ Holds b' [] ∧
      b'.m_data.length = b.m_data.length ∧ r = .popped 0 [] [] := by
  by_cases hzero : nElements = 0
  · refine ⟨b, _, ?_, h, rfl, rfl⟩
    rw [Buffer.step, Queue.popBlock, if_pos hzero]
  · refine ⟨⟨{ b.queue with m_reader := 0, m_writer := 0 }, b.m_data⟩, _, ?_,
      ⟨.nil (Nat.zero_lt_of_lt h.reader_lt), h.size, (Nat.zero_mod _).symm, h.full, h.addressable⟩,
      rfl, rfl⟩
    rw [Buffer.step, Queue.popBlock, if_neg hzero, if_pos (h.isEmpty_iff.mpr rfl)]

theorem popBlock (h : Holds b xs) (nElements : Nat) : Refines b xs (.popBlock nElements) := by
  have hle := h.length_le
  have hlt := h.reader_lt
  have hnone : Free b.m_data.length ([] : Fifo T) [] := ⟨nofun, nofun, List.nodup_nil⟩
  by_cases hempty : xs = []
  · subst hempty
    obtain ⟨b', r, hstep, hholds, hlength, hr⟩ := h.popBlock_empty nElements
    exact ⟨b', [], r, hstep, hholds, hlength, 0, Nat.zero_le _, Nat.zero_le _, fun _ => Or.inr rfl,
      rfl, hnone, hr⟩
  by_cases hzero : nElements = 0
  · refine ⟨b, xs, .popped 0 [] [], ?_, h, rfl, 0, Nat.zero_le _, Nat.zero_le _,
      fun _ => Or.inl hzero, rfl, ⟨nofun, nofun, List.nodup_nil⟩, rfl⟩
    rw [Buffer.step, Queue.popBlock, if_pos hzero]
  obtain ⟨n, hn⟩ : ∃ n, n = min nElements (min xs.length (b.m_data.length - b.queue.m_reader)) :=
    ⟨_, rfl⟩
  have hpos := List.length_pos_iff.mpr hempty
  obtain ⟨hholds, hfifo, hslots, helements, hfree⟩ :=
    h.taken (k := n) (by omega) (by omega) (by omega)
  refine ⟨_, _, _, h.popBlock_run hempty hzero hn, hholds, rfl, n, ?_, ?_, ?_, hfifo, ?_, ?_⟩
  · omega
  · rw [fifo_length]
    omega
  · intro heq
    omega
  · rw [hslots, hfifo]
    exact hfree
  · rw [hslots, helements]

theorem step (h : Holds b xs) (op : Op T) : Refines b xs op := by
  cases op with
  | push x => exact h.push x
  | pop => exact h.pop
  | peek => exact h.peek
  | elementAt index => exact h.elementAt index
  | numberOfElements => exact h.count
  | pushBlock ys => exact h.pushBlock ys
  | popBlock nElements => exact h.popBlock nElements

end Holds

/-! ### Runs -/

theorem Holds.popAll (h : Holds b xs) (hend : b.queue.m_reader + xs.length ≤ b.m_data.length)
    {n : Nat} (hn : xs.length ≤ n) :
    ∃ b' r, b.step (.popBlock n) = some (b', r) ∧ Holds b' [] := by
  by_cases hempty : xs = []
  · subst hempty
    obtain ⟨b', r, hstep, hholds, -, -⟩ := h.popBlock_empty n
    exact ⟨b', r, hstep, hholds⟩
  · have hpos := List.length_pos_iff.mpr hempty
    obtain ⟨hholds, -, -, -, -⟩ := h.taken hpos le_rfl hend
    rw [List.drop_length] at hholds
    exact ⟨_, _, h.popBlock_run hempty (by omega)
      (show xs.length = min n (min xs.length (b.m_data.length - b.queue.m_reader)) by omega), hholds⟩

theorem Holds.drained (h : Holds b xs) {n₁ n₂ : Nat} (h₁ : xs.length ≤ n₁) (h₂ : xs.length ≤ n₂) :
    ∃ b₁ r₁ b₂ r₂, b.step (.popBlock n₁) = some (b₁, r₁) ∧ b₁.step (.popBlock n₂) = some (b₂, r₂) ∧
      b₂.queue.isEmpty = true := by
  have hle := h.length_le
  have hlt := h.reader_lt
  rcases Nat.lt_or_ge b.m_data.length (b.queue.m_reader + xs.length) with hwrapped | hstraight
  · -- the first pop takes the elements up to the end, and the reader comes to the first slot
    have hempty : xs ≠ [] := fun hnil => by
      rw [hnil, List.length_nil] at hwrapped
      omega
    have hreader : (b.queue.m_reader + (b.m_data.length - b.queue.m_reader)) % b.m_data.length = 0 := by
      rw [Nat.add_sub_cancel' (Nat.le_of_lt hlt), Nat.mod_self]
    obtain ⟨hholds, -, -, -, -⟩ :=
      h.taken (k := b.m_data.length - b.queue.m_reader) (by omega) (by omega) (by omega)
    obtain ⟨b₂, r₂, hstep₂, hholds₂⟩ := hholds.popAll (n := n₂) (by
      simp only [h.wrap (Nat.le_of_eq (Nat.add_sub_cancel' (Nat.le_of_lt hlt))), hreader,
        List.length_drop]
      omega) (by
      rw [List.length_drop]
      omega)
    exact ⟨_, _, b₂, r₂, h.popBlock_run hempty (by omega) (show b.m_data.length - b.queue.m_reader =
      min n₁ (min xs.length (b.m_data.length - b.queue.m_reader)) by omega), hstep₂,
      hholds₂.isEmpty_iff.mpr rfl⟩
  · obtain ⟨b₁, r₁, hstep₁, hholds₁⟩ := h.popAll hstraight h₁
    obtain ⟨b₂, r₂, hstep₂, hholds₂, -, -⟩ := hholds₁.popBlock_empty n₂
    exact ⟨b₁, r₁, b₂, r₂, hstep₁, hstep₂, hholds₂.isEmpty_iff.mpr rfl⟩

/-- **The queue is a bounded FIFO**: on every buffer, every sequence of operations is one that a FIFO
    with the capacity of the buffer may do, and two block pops of all the elements empty it. -/
theorem buffer_refines_fifo (data : List T) (hpos : 0 < data.length) (hle : data.length ≤ 2 ^ 31)
    (ops : List (Op T)) :
    ∃ b rs t, run Buffer.step (Buffer.ofData data) ops = some (b, rs) ∧
      SpecRuns (Fifo.Step data.length) [] ops t rs ∧ b.queue.numberOfElements = t.length ∧
      ∀ n₁ n₂, t.length ≤ n₁ → t.length ≤ n₂ → ∃ b₁ r₁ b₂ r₂,
        b.step (.popBlock n₁) = some (b₁, r₁) ∧ b₁.step (.popBlock n₂) = some (b₂, r₂) ∧
          b₂.queue.isEmpty = true := by
  have hstep : ∀ (b : Buffer T) (t : Fifo T) (op : Op T), StandsFor data.length b t → True →
      ∃ b' r t', b.step op = some (b', r) ∧ Fifo.Step data.length t op t' r ∧
        StandsFor data.length b' t' := by
    rintro b t op ⟨xs, hholds, hlength, rfl⟩ -
    obtain ⟨b', xs', r, hstep, hholds', hlength', hspec⟩ := hholds.step op
    exact ⟨b', r, fifoOf b' xs', hstep, hlength ▸ hspec, xs', hholds', hlength'.trans hlength, rfl⟩
  obtain ⟨b, rs, t, hrun, hspec, xs, hholds, -, rfl⟩ := run_refines Buffer.step
    (Fifo.Step data.length) hstep ops (Buffer.ofData data) [] ⟨[], .ofData hpos hle, rfl, rfl⟩
    (meets_of_forall _ (fun _ _ => trivial) ops _)
  refine ⟨b, rs, _, hrun, hspec, ?_, fun n₁ n₂ h₁ h₂ => ?_⟩
  · rw [Holds.fifo_length]
    exact hholds.numberOfElements
  · rw [Holds.fifo_length] at h₁ h₂
    exact hholds.drained h₁ h₂

/-- A buffer of three slots -/
theorem buffer_refines_fifo_three :
    ∃ b rs t, run Buffer.step (Buffer.ofData [0, 0, 0]) [.pushBlock [1, 2], .pop, .pushBlock [3, 4]] =
        some (b, rs) ∧
      SpecRuns (Fifo.Step 3) [] [.pushBlock [1, 2], .pop, .pushBlock [3, 4]] t rs ∧
      b.queue.numberOfElements = t.length ∧
      ∀ n₁ n₂, t.length ≤ n₁ → t.length ≤ n₂ → ∃ b₁ r₁ b₂ r₂,
        b.step (.popBlock n₁) = some (b₁, r₁) ∧ b₁.step (.popBlock n₂) = some (b₂, r₂) ∧
          b₂.queue.isEmpty = true :=
  buffer_refines_fifo [0, 0, 0] (by decide) (by decide) _

end TinyClr.HalQueue
