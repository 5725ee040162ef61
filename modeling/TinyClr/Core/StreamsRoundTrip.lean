import TinyClr.Core.StreamsSpec

/-!
# What is written to a memory stream is read back

`unread` are the bits from where a stream stands to the end of its last buffer.  Reading takes
from their front, and fails when there are too few of them; the functions `take…` say what is read
in terms of the bits alone.
-/

namespace TinyClr.Streams

open TinyClr.Library

variable {α β : Type} {s s' : MemoryStream} {b : Buffer} {bs rest : List Bool}

/-! ### The bits that are left -/

def MemoryStream.ahead (s : MemoryStream) : List UInt8 :=
  (s.buffers.drop s.current).flatMap Buffer.bytes

/-- The bits that have not been read -/
def MemoryStream.unread (s : MemoryStream) : List Bool :=
  (byteBits s.ahead).drop (8 * (s.pos + 1) - s.avail).toNat

/-- The stream stands in a buffer, at a byte if some bits of it are left. -/
structure Readable (s : MemoryStream) : Prop where
  own : ∀ b ∈ s.buffers, b.data = none
  inside : ∃ b, s.buffers[s.current]? = some b ∧ s.pos < b.length
  low : -1 ≤ s.pos
  avail_le : s.avail ≤ 8
  avail_byte : 0 < s.avail → 0 ≤ s.pos

theorem ahead_cons (h : s.buffers[s.current]? = some b) :
    s.ahead = b.bytes ++ (s.buffers.drop (s.current + 1)).flatMap Buffer.bytes := by
  obtain ⟨hlt, hget⟩ := List.getElem?_eq_some_iff.mp h
  rw [MemoryStream.ahead, List.drop_eq_getElem_cons hlt, hget, List.flatMap_cons]

theorem unread_take (h : Readable s) {insert : Nat} (hinsert : insert ≤ s.avail) :
    { s with avail := s.avail - insert }.unread = s.unread.drop insert := by
  have hle := h.avail_le
  have hlow := h.low
  have hpos := h.avail_byte
  rw [MemoryStream.unread, MemoryStream.unread, List.drop_drop]
  congr 1
  simp only
  omega

theorem unread_byte (h : Readable s) (hb : s.buffers[s.current]? = some b)
    (hinside : s.pos < b.length) (havail : 0 < s.avail) :
    ∃ later, s.unread = bitsOf s.avail (b.payload s.pos.toNat).toNat ++ later := by
  have hle := h.avail_le
  have hpos := h.avail_byte havail
  have hlt : s.pos.toNat < b.bytes.length := by
    rw [length_bytes]
    omega
  have hget : b.bytes[s.pos.toNat] = b.payload s.pos.toNat := by
    simp only [Buffer.bytes, List.getElem_map, List.getElem_range]
  have hsplit := bitsOf_add (8 - s.avail) s.avail (b.payload s.pos.toNat).toNat
  rw [Nat.sub_add_cancel hle] at hsplit
  have hbytes : b.bytes = b.bytes.take s.pos.toNat ++ b.payload s.pos.toNat ::
      b.bytes.drop (s.pos.toNat + 1) := by
    rw [← hget, ← List.drop_eq_getElem_cons hlt, List.take_append_drop]
  rw [MemoryStream.unread, ahead_cons hb, hbytes, List.append_assoc, byteBits_append,
    List.cons_append, byteBits_cons, hsplit]
  have hfront : (8 * (s.pos + 1) - s.avail).toNat =
      (byteBits (b.bytes.take s.pos.toNat)).length + (8 - s.avail) := by
    rw [length_byteBits, List.length_take, Nat.min_eq_left (Nat.le_of_lt hlt)]
    omega
  rw [hfront, List.drop_length_add_append, List.append_assoc]
  exact ⟨_, List.drop_left' (length_bitsOf _ _)⟩

/-- `while(m_pos >= m_current->m_length)` skips buffers that have been read. -/
theorem skipBuffers_spec (hown : ∀ b ∈ s.buffers, b.data = none) : ∀ (fuel current : Nat)
    (pos : Int), s.buffers.length < fuel + current → current < s.buffers.length → 0 ≤ pos →
    (∀ b, s.buffers[current]? = some b → pos ≤ b.length) →
    ∃ hr s', skipBuffers fuel { s with current := current, pos := pos, avail := 8 } =
        some (hr, s') ∧
      (hr = .failed .outOfRange ∧
          { s with current := current, pos := pos, avail := 8 }.unread = [] ∨
        hr = .ok ∧ Readable s' ∧ 0 < s'.avail ∧
          s'.unread = { s with current := current, pos := pos, avail := 8 }.unread) := by
  intro fuel
  induction fuel with
  | zero => intro current pos hfuel hcurrent; omega
  | succ fuel ih =>
    intro current pos hfuel hcurrent hpos hend
    have hget : s.buffers[current]? = some s.buffers[current] := List.getElem?_eq_getElem hcurrent
    have hle := hend _ hget
    rw [skipBuffers]
    simp only [hget, Option.bind_eq_bind, Option.bind_some]
    by_cases hskip : pos ≥ (s.buffers[current].length : Int)
    · rw [if_pos hskip]
      -- behind the last byte of the buffer, the next buffer follows
      have hunread : { s with current := current, pos := pos, avail := 8 }.unread =
          byteBits ((s.buffers.drop (current + 1)).flatMap Buffer.bytes) := by
        rw [MemoryStream.unread, ahead_cons hget, byteBits_append]
        refine List.drop_left' ?_
        rw [length_byteBits, length_bytes]
        simp only
        omega
      by_cases hlast : current + 1 = s.buffers.length
      · rw [if_pos hlast]
        refine ⟨_, _, rfl, Or.inl ⟨rfl, ?_⟩⟩
        rw [hunread, hlast, List.drop_length]
        rfl
      · rw [if_neg hlast]
        obtain ⟨hr, s', hstep, hcase⟩ := ih (current + 1) 0 (by omega) (by omega) (Int.le_refl 0)
          (fun b _ => Int.natCast_nonneg _)
        refine ⟨hr, s', hstep, ?_⟩
        rw [hunread]
        exact hcase
    · rw [if_neg hskip]
      exact ⟨_, _, rfl, Or.inr ⟨rfl, ⟨hown, ⟨_, hget, by simp only; omega⟩,
        by simp only; omega, Nat.le_refl 8, fun _ => hpos⟩, Nat.succ_pos _, rfl⟩⟩

/-- A byte is at hand afterwards, unless everything has been read. -/
theorem fetchByte_spec (h : Readable s) :
    ∃ hr s', fetchByte s = some (hr, s') ∧
      (hr = .failed .outOfRange ∧ s.unread = [] ∨
        hr = .ok ∧ Readable s' ∧ 0 < s'.avail ∧ s'.unread = s.unread) := by
  rw [fetchByte]
  by_cases havail : s.avail = 0
  · rw [if_pos havail]
    obtain ⟨b, hget, hinside⟩ := h.inside
    have hlow := h.low
    obtain ⟨hlt, -⟩ := List.getElem?_eq_some_iff.mp hget
    obtain ⟨hr, s', hskip, hcase⟩ := skipBuffers_spec h.own (s.buffers.length + 1) s.current
      (s.pos + 1) (by omega) hlt (by omega) (fun b' hb' => by
        rw [hget] at hb'
        obtain rfl := Option.some.inj hb'
        omega)
    have hunread : { s with current := s.current, pos := s.pos + 1, avail := 8 }.unread =
        s.unread := by
      rw [MemoryStream.unread, MemoryStream.unread]
      congr 1
      simp only [havail]
      omega
    rw [hunread] at hcase
    exact ⟨hr, s', hskip, hcase⟩
  · rw [if_neg havail]
    exact ⟨_, _, rfl, Or.inr ⟨rfl, h, Nat.pos_of_ne_zero havail, rfl⟩⟩

/-! ### Reading takes from the front -/

/-- The number in the first bits, and the bits behind them -/
def takeBits (bits : Nat) (bs : List Bool) : Option (Nat × List Bool) :=
  if bits ≤ bs.length then some (ofBits (bs.take bits), bs.drop bits) else none

def takeBytes : Nat → List Bool → Option (List UInt8 × List Bool)
  | 0, bs => some ([], bs)
  | bytes + 1, bs =>
      (takeBits 8 bs).bind fun q =>
        (takeBytes bytes q.2).map fun r => (UInt8.ofNat q.1 :: r.1, r.2)

/-- A call that reads what the bits say, or fails if there are too few of them -/
def Reads (taken : Option (α × List Bool)) (call : Option (HResultOr α × MemoryStream)) : Prop :=
  match taken with
  | none => ∃ s', call = some (.error .outOfRange, s')
  | some (v, rest) => ∃ s', call = some (.ok v, s') ∧ Readable s' ∧ s'.unread = rest

theorem Reads.cases {taken : Option (α × List Bool)}
    {call : Option (HResultOr α × MemoryStream)} (h : Reads taken call) :
    (taken = none ∧ ∃ s', call = some (.error .outOfRange, s')) ∨
      ∃ v s', taken = some (v, s'.unread) ∧ call = some (.ok v, s') ∧ Readable s' := by
  cases taken with
  | none => exact Or.inl ⟨rfl, h⟩
  | some q =>
    obtain ⟨s', hcall, hreadable, hrest⟩ := h
    exact Or.inr ⟨q.1, s', by rw [hrest], hcall, hreadable⟩

theorem Reads.map {taken : Option (α × List Bool)} {call : Option (HResultOr α × MemoryStream)}
    (h : Reads taken call) (f : α → β) :
    Reads (taken.map fun q => (f q.1, q.2)) (do
      let (v, s) ← call
      some (v.map f, s)) := by
  cases taken with
  | none =>
    obtain ⟨s', rfl⟩ := h
    exact ⟨s', rfl⟩
  | some q =>
    obtain ⟨s', rfl, hreadable, hrest⟩ := h
    exact ⟨s', rfl, hreadable, hrest⟩

theorem takeBits_lt {bits : Nat} {q : Nat × List Bool} (h : q ∈ takeBits bits bs) :
    q.1 < 2 ^ bits := by
  rw [takeBits] at h
  split_ifs at h with hlen
  · have hlt := ofBits_lt (bs.take bits)
    rw [List.length_take, Nat.min_eq_left hlen] at hlt
    rw [← Option.some.inj h]
    exact hlt
  · cases h

theorem takeBits_add (a b : Nat) (bs : List Bool) :
    takeBits (a + b) bs = (takeBits a bs).bind fun q =>
      (takeBits b q.2).map fun r => (q.1 * 2 ^ b + r.1, r.2) := by
  by_cases hlen : a + b ≤ bs.length
  · have hlow : b ≤ (bs.drop a).length := by
      rw [List.length_drop]
      omega
    rw [takeBits, if_pos hlen, takeBits, if_pos (by omega), Option.bind_some, takeBits,
      if_pos hlow, List.take_add, ofBits_append, List.length_take, Nat.min_eq_left hlow,
      List.drop_drop]
    rfl
  · rw [takeBits, if_neg hlen, takeBits]
    by_cases hfirst : a ≤ bs.length
    · rw [if_pos hfirst, Option.bind_some, takeBits, if_neg (by rw [List.length_drop]; omega)]
      rfl
    · rw [if_neg hfirst]
      rfl

/-- `ReadBits` puts the bits that follow behind those it has read. -/
theorem readLoop_spec : ∀ (bits fuel : Nat) (s : MemoryStream) (x : Nat), bits < fuel →
    Readable s →
    Reads ((takeBits bits s.unread).map fun q => (x * 2 ^ bits + q.1, q.2))
      (readLoop fuel s (x * 2 ^ bits) bits bits) := by
  intro bits
  induction bits using Nat.strongRecOn with
  | ind bits ih =>
    intro fuel s x hfuel hreadable
    obtain ⟨fuel, rfl⟩ := Nat.exists_eq_succ_of_ne_zero (Nat.ne_of_gt (Nat.lt_of_le_of_lt
      (Nat.zero_le bits) hfuel))
    rw [readLoop]
    by_cases hmore : bits > 0
    · rw [if_pos hmore]
      obtain ⟨hr, s₁, hfetch, hcase⟩ := fetchByte_spec hreadable
      rw [hfetch]
      simp only [Option.bind_eq_bind, Option.bind_some]
      rcases hcase with ⟨rfl, hempty⟩ | ⟨rfl, hreadable₁, hpos, hunread⟩
      · rw [hempty, takeBits, if_neg (by simpa using Nat.ne_of_gt hmore)]
        exact ⟨_, rfl⟩
      · simp only
        generalize hinsert : (if bits < s₁.avail then bits else s₁.avail) = insert
        have hbounds : 0 < insert ∧ insert ≤ bits ∧ insert ≤ s₁.avail := by
          rw [← hinsert]
          split_ifs <;> omega
        obtain ⟨hinsertPos, hinsertBits, hinsertAvail⟩ := hbounds
        obtain ⟨b, hget, hinside⟩ := hreadable₁.inside
        rw [hget]
        simp only [Option.bind_some]
        obtain ⟨later, hbyte⟩ := unread_byte hreadable₁ hget hinside hpos
        have hpayload : b.read s₁.pos.toNat = b.payload s₁.pos.toNat := by
          rw [Buffer.read, hreadable₁.own b (List.mem_of_getElem? hget)]
          rfl
        have hmask : 1 <<< insert - 1 = 2 ^ insert - 1 := by rw [Nat.shiftLeft_eq, Nat.one_mul]
        rw [hpayload, and_mask insert hmask, Nat.shiftRight_eq_div_pow]
        -- what is taken from the byte are the first bits that are left
        have htake : takeBits insert s₁.unread = some
            ((b.payload s₁.pos.toNat).toNat / 2 ^ (s₁.avail - insert) % 2 ^ insert,
              s₁.unread.drop insert) := by
          have hsplit := bitsOf_add insert (s₁.avail - insert) (b.payload s₁.pos.toNat).toNat
          rw [Nat.add_sub_cancel' hinsertAvail] at hsplit
          rw [takeBits, if_pos (by rw [hbyte, List.length_append, length_bitsOf]; omega), hbyte,
            hsplit, List.append_assoc, List.take_left' (length_bitsOf _ _), ofBits_bitsOf]
        generalize (b.payload s₁.pos.toNat).toNat / 2 ^ (s₁.avail - insert) = field at htake ⊢
        have hval := or_field insert (bits - insert) x
          (Nat.mod_lt field (Nat.two_pow_pos insert))
        rw [Nat.add_sub_cancel' hinsertBits] at hval
        have hadd := takeBits_add insert (bits - insert) s₁.unread
        rw [Nat.add_sub_cancel' hinsertBits, htake, Option.bind_some] at hadd
        have hreadable₂ : Readable { s₁ with avail := s₁.avail - insert } :=
          ⟨hreadable₁.own, ⟨b, hget, hinside⟩, hreadable₁.low,
            Nat.le_trans (Nat.sub_le _ _) hreadable₁.avail_le, fun _ => hreadable₁.avail_byte hpos⟩
        have hstep := ih (bits - insert) (by omega) fuel _ (x * 2 ^ insert + field % 2 ^ insert)
          (by omega) hreadable₂
        rw [unread_take hreadable₁ hinsertAvail] at hstep
        rw [← hunread, hadd, Option.map_map, hval]
        have hsum : ∀ v, x * 2 ^ bits + (field % 2 ^ insert * 2 ^ (bits - insert) + v) =
            (x * 2 ^ insert + field % 2 ^ insert) * 2 ^ (bits - insert) + v := by
          intro v
          rw [← Nat.add_assoc, Nat.add_mul, Nat.mul_assoc, ← Nat.pow_add,
            Nat.add_sub_cancel' hinsertBits]
        simp only [Function.comp_def, hsum]
        exact hstep
    · rw [if_neg hmore]
      obtain rfl : bits = 0 := by omega
      refine ⟨s, ?_, hreadable, rfl⟩
      simp [ofBits]

theorem readBits32_spec (h : Readable s) (bits : Nat) :
    Reads (takeBits bits s.unread) (readBits32 s bits) := by
  have hloop := readLoop_spec bits (bits + 1) s 0 (Nat.lt_succ_self bits) h
  simp only [Nat.zero_mul, Nat.zero_add] at hloop
  rw [Option.map_id'] at hloop
  exact hloop

theorem readBits64_spec (h : Readable s) (bits : Nat) :
    Reads (takeBits bits s.unread) (readBits64 s bits) := by
  rw [readBits64]
  by_cases hwide : bits > 32
  · rw [if_pos hwide]
    have hadd := takeBits_add (bits - 32) 32 s.unread
    rw [Nat.sub_add_cancel (Nat.le_of_lt hwide)] at hadd
    rw [hadd]
    rcases (readBits32_spec h (bits - 32)).cases with
      ⟨htaken, s', hcall⟩ | ⟨high, s', htaken, hcall, hreadable⟩
    · rw [htaken, hcall]
      exact ⟨s', rfl⟩
    · rw [htaken, hcall]
      have hlow := (readBits32_spec hreadable 32).map fun low => high <<< 32 ||| low
      rw [Option.map_congr fun q hq => by rw [shift_or 32 high (takeBits_lt hq)]] at hlow
      exact hlow
  · rw [if_neg hwide]
    exact readBits32_spec h bits

theorem readArray_spec : ∀ (bytes : Nat) (s : MemoryStream), Readable s →
    Reads (takeBytes bytes s.unread) (readArray s bytes) := by
  intro bytes
  induction bytes with
  | zero => exact fun s h => ⟨s, rfl, h, rfl⟩
  | succ bytes ih =>
    intro s h
    rw [takeBytes, readArray]
    rcases (readBits32_spec h 8).cases with
      ⟨htaken, s', hcall⟩ | ⟨data, s', htaken, hcall, hreadable⟩
    · rw [htaken, hcall]
      exact ⟨s', rfl⟩
    · rw [htaken, hcall]
      exact (ih s' hreadable).map fun rest => UInt8.ofNat data :: rest

/-- The bits behind the first byte of a compressed integer -/
def extraBits (val : Nat) : Nat :=
  if val &&& 0xC0 = 0x80 then 8 else if val &&& 0xC0 = 0xC0 then 24 else 0

def takeCompressed (bs : List Bool) : Option (Nat × List Bool) :=
  (takeBits 8 bs).bind fun q =>
    if q.1 = 0xFF then some (0xFFFFFFFF, q.2)
    else if extraBits q.1 ≠ 0 then
      (takeBits (extraBits q.1) q.2).map fun r =>
        ((q.1 &&& 0xFFFFFF3F) <<< extraBits q.1 ||| r.1, r.2)
    else some q

theorem readCompressedUnsigned_spec (h : Readable s) :
    Reads (takeCompressed s.unread) (readCompressedUnsigned s) := by
  rw [takeCompressed, readCompressedUnsigned]
  rcases (readBits32_spec h 8).cases with
    ⟨htaken, s', hcall⟩ | ⟨val, s', htaken, hcall, hreadable⟩
  · rw [htaken, hcall]
    exact ⟨s', rfl⟩
  · rw [htaken, hcall]
    simp only [Option.bind_eq_bind, Option.bind_some]
    by_cases hall : val = 0xFF
    · rw [if_pos hall, if_pos hall]
      exact ⟨s', rfl, hreadable, rfl⟩
    · rw [if_neg hall, if_neg hall, ← extraBits]
      by_cases hextra : extraBits val ≠ 0
      · rw [if_pos hextra, if_pos hextra]
        exact (readBits32_spec hreadable (extraBits val)).map fun extra =>
          (val &&& 0xFFFFFF3F) <<< extraBits val ||| extra
      · rw [if_neg hextra, if_neg hextra]
        exact ⟨s', rfl, hreadable, rfl⟩

/-! ### What has been written is taken -/

theorem takeBits_bitsOf (w v : Nat) (rest : List Bool) :
    takeBits w (bitsOf w v ++ rest) = some (v % 2 ^ w, rest) := by
  rw [takeBits, if_pos (by rw [List.length_append, length_bitsOf]; omega),
    List.take_left' (length_bitsOf w v), List.drop_left' (length_bitsOf w v), ofBits_bitsOf]

theorem takeBytes_byteBits (bytes : List UInt8) (rest : List Bool) :
    takeBytes bytes.length (byteBits bytes ++ rest) = some (bytes, rest) := by
  induction bytes with
  | nil => rfl
  | cons byte bytes ih =>
    rw [List.length_cons, takeBytes, byteBits_cons, List.append_assoc, takeBits_bitsOf,
      Option.bind_some, ih, Nat.mod_eq_of_lt byte.toNat_lt]
    simp

theorem or_tag (val tag : UInt32) (k t : Nat) (htag : tag.toNat = t * 2 ^ k)
    (hval : val.toNat < 2 ^ k) : (val ||| tag).toNat = t * 2 ^ k + val.toNat := by
  rw [UInt32.toNat_or, htag, ← Nat.shiftLeft_eq, or_shift k hval, Nat.shiftLeft_eq, Nat.add_comm]

theorem tag_bits : ∀ x < 64,
    (0x80 + x ≠ 0xFF ∧ extraBits (0x80 + x) = 8 ∧ (0x80 + x) &&& 0xFFFFFF3F = x) ∧
      (extraBits (0xC0 + x) = 24 ∧ (0xC0 + x) &&& 0xFFFFFF3F = x) := by
  decide

theorem untagged_bits : ∀ x < 0x80, extraBits x = 0 := by
  decide

theorem takeCompressed_tagged {extra tag val : Nat} (hmore : extra ≠ 0) (v : Nat)
    (rest : List Bool) (hhigh : v / 2 ^ extra % 2 ^ 8 = tag) (hall : tag ≠ 0xFF) (hextra : extraBits tag = extra)
    (hsix : tag &&& 0xFFFFFF3F = val / 2 ^ extra) (hlow : v % 2 ^ extra = val % 2 ^ extra) :
    takeCompressed (bitsOf (8 + extra) v ++ rest) = some (val, rest) := by
  rw [takeCompressed, bitsOf_add, List.append_assoc, takeBits_bitsOf, Option.bind_some, hhigh,
    if_neg hall, hextra, if_pos hmore, takeBits_bitsOf, Option.map_some, hsix, hlow,
    shift_or _ _ (Nat.mod_lt _ (Nat.two_pow_pos _)), Nat.div_add_mod']

theorem takeCompressed_compress {val : UInt32} {v bits : Nat} (h : compress val = .ok (v, bits))
    (rest : List Bool) : takeCompressed (bitsOf bits v ++ rest) = some (val.toNat, rest) := by
  rw [compress] at h
  rw [takeCompressed]
  split_ifs at h with hall hbyte hword hdword
  · obtain ⟨rfl, rfl⟩ := Prod.mk.inj (Except.ok.inj h)
    rw [takeBits_bitsOf, hall]
    rfl
  · obtain ⟨rfl, rfl⟩ := Prod.mk.inj (Except.ok.inj h)
    have hlt : val.toNat < 0x80 := UInt32.lt_iff_toNat_lt.mp hbyte
    rw [takeBits_bitsOf, Nat.mod_eq_of_lt (by omega), Option.bind_some, if_neg (by simp only; omega),
      if_neg (by simp [untagged_bits _ hlt])]
  · obtain ⟨rfl, rfl⟩ := Prod.mk.inj (Except.ok.inj h)
    have hlt : val.toNat < 0x3F00 := UInt32.lt_iff_toNat_lt.mp hword
    have hv := or_tag val 0x8000 14 2 rfl (by omega)
    have hhigh : (val ||| 0x8000).toNat / 2 ^ 8 % 2 ^ 8 = 0x80 + val.toNat / 2 ^ 8 := by omega
    have hlow : (val ||| 0x8000).toNat % 2 ^ 8 = val.toNat % 2 ^ 8 := by omega
    obtain ⟨⟨hall, hextra, hsix⟩, -⟩ := tag_bits (val.toNat / 2 ^ 8) (by omega)
    exact takeCompressed_tagged (by decide) _ rest hhigh hall hextra hsix hlow
  · obtain ⟨rfl, rfl⟩ := Prod.mk.inj (Except.ok.inj h)
    have hlt : val.toNat < 0x3F000000 := UInt32.lt_iff_toNat_lt.mp hdword
    have hv := or_tag val 0xC0000000 30 3 rfl (by omega)
    have hhigh : (val ||| 0xC0000000).toNat / 2 ^ 24 % 2 ^ 8 = 0xC0 + val.toNat / 2 ^ 24 := by
      omega
    have hlow : (val ||| 0xC0000000).toNat % 2 ^ 24 = val.toNat % 2 ^ 24 := by omega
    obtain ⟨-, hextra, hsix⟩ := tag_bits (val.toNat / 2 ^ 24) (by omega)
    exact takeCompressed_tagged (by decide) _ rest hhigh (by omega) hextra hsix hlow

/-! ### Sequences of calls -/

/-- A call that writes to a stream -/
inductive Item where
  | bits32 (val : UInt32) (bits : Nat) (fits : bits ≤ 32)
  | bits64 (res : UInt64) (bits : Nat) (fits : bits ≤ 64)
  | array (buf : List UInt8)
  | compressed (val : UInt32) (accepted : val = 0xFFFFFFFF ∨ val < 0x3F000000)

/-- A call that reads from a stream -/
inductive Request where
  | bits32 (bits : Nat) (fits : bits ≤ 32)
  | bits64 (bits : Nat) (fits : bits ≤ 64)
  | array (bytes : Nat)
  | compressed

inductive Value where
  | number (n : Nat)
  | bytes (buf : List UInt8)
deriving DecidableEq

def Item.write (s : MemoryStream) (heap : Allocator) :
    Item → Option (HResult × MemoryStream × Allocator)
  | .bits32 val bits _ => writeBits32 s heap val.toNat bits
  | .bits64 res bits _ => writeBits64 s heap res.toNat bits
  | .array buf => writeArray s heap buf
  | .compressed val _ => writeCompressedUnsigned s heap val

def Request.read (s : MemoryStream) : Request → Option (HResultOr Value × MemoryStream)
  | .bits32 bits _ => do
      let (res, s) ← readBits32 s bits
      some (res.map .number, s)
  | .bits64 bits _ => do
      let (res, s) ← readBits64 s bits
      some (res.map .number, s)
  | .array bytes => do
      let (buf, s) ← readArray s bytes
      some (buf.map .bytes, s)
  | .compressed => do
      let (val, s) ← readCompressedUnsigned s
      some (val.map .number, s)

/-- Calls that write, up to the first that fails -/
def writeAll : MemoryStream → Allocator → List Item → Option (HResult × MemoryStream × Allocator)
  | s, heap, [] => some (.ok, s, heap)
  | s, heap, item :: items => do
      let (hr, s, heap) ← item.write s heap
      match hr with
      | .failed code => some (.failed code, s, heap)
      | .ok => writeAll s heap items

/-- Calls that read, up to the first that fails -/
def readAll : MemoryStream → List Request → Option (HResultOr (List Value) × MemoryStream)
  | s, [] => some (.ok [], s)
  | s, request :: requests => do
      let (v, s) ← request.read s
      match v with
      | .error code => some (.error code, s)
      | .ok v => do
          let (vs, s) ← readAll s requests
          some (vs.map fun vs => v :: vs, s)

/-- The call that reads what an item wrote -/
def Item.request : Item → Request
  | .bits32 _ bits fits => .bits32 bits fits
  | .bits64 _ bits fits => .bits64 bits fits
  | .array buf => .array buf.length
  | .compressed _ _ => .compressed

/-- The value that is written, truncated to its width -/
def Item.value : Item → Value
  | .bits32 val bits _ => .number (val.toNat % 2 ^ bits)
  | .bits64 res bits _ => .number (res.toNat % 2 ^ bits)
  | .array buf => .bytes buf
  | .compressed val _ => .number val.toNat

def Item.width : Item → Nat
  | .bits32 _ bits _ => bits
  | .bits64 _ bits _ => bits
  | .array buf => 8 * buf.length
  | .compressed val _ => match compress val with
    | .ok q => q.2
    | .error _ => 0

def Item.bits : Item → List Bool
  | .bits32 val bits _ => bitsOf bits val.toNat
  | .bits64 res bits _ => bitsOf bits res.toNat
  | .array buf => byteBits buf
  | .compressed val _ => match compress val with
    | .ok q => bitsOf q.2 q.1
    | .error _ => []

def Request.take (bs : List Bool) : Request → Option (Value × List Bool)
  | .bits32 bits _ => (takeBits bits bs).map fun q => (.number q.1, q.2)
  | .bits64 bits _ => (takeBits bits bs).map fun q => (.number q.1, q.2)
  | .array bytes => (takeBytes bytes bs).map fun q => (.bytes q.1, q.2)
  | .compressed => (takeCompressed bs).map fun q => (.number q.1, q.2)

/-- What a sequence of calls reads from bits: nothing if there are too few of them. -/
def takeAll : List Bool → List Request → Option (List Value × List Bool)
  | bs, [] => some ([], bs)
  | bs, request :: requests =>
      (request.take bs).bind fun q => (takeAll q.2 requests).map fun r => (q.1 :: r.1, r.2)

theorem Item.length_bits (item : Item) : item.bits.length = item.width := by
  cases item with
  | bits32 val bits fits => exact length_bitsOf _ _
  | bits64 res bits fits => exact length_bitsOf _ _
  | array buf => exact length_byteBits buf
  | compressed val accepted =>
    rw [Item.bits, Item.width]
    cases compress val with
    | error code => rfl
    | ok q => exact length_bitsOf _ _

theorem compress_accepts (val : UInt32) :
    (val = 0xFFFFFFFF ∨ val < 0x3F000000) ↔ ∃ q, compress val = .ok q := by
  have hbyte : val < 0x80 → val < 0x3F000000 := fun h => UInt32.lt_trans h (by decide)
  have hword : val < 0x3F00 → val < 0x3F000000 := fun h => UInt32.lt_trans h (by decide)
  rw [compress]
  split_ifs with h₁ h₂ h₃ h₄ <;> simp [*]

theorem Item.write_spec (h : Stored s bs) (heap : Allocator) (item : Item) :
    Appends (s.capacity heap) bs item.bits (item.write s heap) := by
  cases item with
  | bits32 val bits fits => exact writeBits32_spec h heap _ _
  | bits64 res bits fits => exact writeBits64_spec h heap _ _
  | array buf => exact writeArray_spec buf s bs heap h
  | compressed val accepted =>
    obtain ⟨q, hq⟩ := (compress_accepts val).mp accepted
    rw [Item.bits, Item.write, writeCompressedUnsigned, hq]
    exact writeBits32_spec h heap _ _

theorem Request.read_spec (h : Readable s) (request : Request) :
    Reads (request.take s.unread) (request.read s) := by
  cases request with
  | bits32 bits fits => exact (readBits32_spec h bits).map Value.number
  | bits64 bits fits => exact (readBits64_spec h bits).map Value.number
  | array bytes => exact (readArray_spec bytes s h).map Value.bytes
  | compressed => exact (readCompressedUnsigned_spec h).map Value.number

theorem Item.take_bits (item : Item) (rest : List Bool) :
    item.request.take (item.bits ++ rest) = some (item.value, rest) := by
  cases item with
  | bits32 val bits fits => rw [Item.request, Item.bits, Request.take, takeBits_bitsOf]; rfl
  | bits64 res bits fits => rw [Item.request, Item.bits, Request.take, takeBits_bitsOf]; rfl
  | array buf => rw [Item.request, Item.bits, Request.take, takeBytes_byteBits]; rfl
  | compressed val accepted =>
    obtain ⟨⟨v, bits⟩, hq⟩ := (compress_accepts val).mp accepted
    rw [Item.request, Item.bits, Request.take, hq, takeCompressed_compress hq]
    rfl

theorem writeAll_spec : ∀ (items : List Item) (s : MemoryStream) (bs : List Bool)
    (heap : Allocator), Stored s bs →
    Appends (s.capacity heap) bs (items.flatMap Item.bits) (writeAll s heap items) := by
  intro items
  induction items with
  | nil => exact fun s bs heap h => Appends.nil h heap
  | cons item items ih =>
    intro s bs heap h
    exact (item.write_spec h heap).andThen fun s' heap' hstored => ih s' _ heap' hstored

theorem readAll_spec : ∀ (requests : List Request) (s : MemoryStream), Readable s →
    Reads (takeAll s.unread requests) (readAll s requests) := by
  intro requests
  induction requests with
  | nil => exact fun s h => ⟨s, rfl, h, rfl⟩
  | cons request requests ih =>
    intro s h
    rw [takeAll, readAll]
    rcases (request.read_spec h).cases with
      ⟨htaken, s', hcall⟩ | ⟨v, s', htaken, hcall, hreadable⟩
    · rw [htaken, hcall]
      exact ⟨s', rfl⟩
    · rw [htaken, hcall]
      exact (ih s' hreadable).map fun vs => v :: vs

theorem takeAll_bits (items : List Item) (rest : List Bool) :
    takeAll (items.flatMap Item.bits ++ rest) (items.map Item.request) =
      some (items.map Item.value, rest) := by
  induction items with
  | nil => rfl
  | cons item items ih =>
    rw [List.flatMap_cons, List.map_cons, takeAll, List.append_assoc, item.take_bits,
      Option.bind_some, ih]
    rfl

/-! ### The counters -/

theorem length_flatMap_bytes (bs : List Buffer) :
    ((bs.map fun b => (8 * b.length : Int)).sum) = (byteBits (bs.flatMap Buffer.bytes)).length := by
  induction bs with
  | nil => rfl
  | cons b bs ih =>
    have hb := length_bytes b
    rw [List.map_cons, List.sum_cons, ih, List.flatMap_cons, byteBits_append, List.length_append,
      length_byteBits b.bytes]
    omega

theorem Stored.bitsWritten (h : Stored s bs) : s.bitsWritten = int32 bs.length := by
  obtain ⟨-, full, last, hwritten⟩ := h
  have hlen := congrArg List.length hwritten.bits_eq
  rw [byteBits_append, List.length_append, List.length_append, length_byteBits last.bytes,
    length_bytes, List.length_replicate] at hlen
  rw [MemoryStream.bitsWritten, hwritten.buffers_eq, hwritten.current_eq, List.take_left',
    length_flatMap_bytes, hwritten.pos_eq]
  · congr 1
    omega
  · rfl

theorem Stored.bitsAvailable (h : Stored s bs) :
    s.rewind.bitsAvailable = int32 (8 * ((bs.length + 7) / 8) : Nat) := by
  obtain ⟨havail, full, last, hwritten⟩ := h
  have hlen := congrArg List.length hwritten.bits_eq
  rw [length_byteBits, List.length_append, List.length_append, List.length_replicate] at hlen
  rw [MemoryStream.bitsAvailable, MemoryStream.rewind]
  simp only [List.drop_zero]
  rw [length_flatMap_bytes, hwritten.buffers_eq, List.flatMap_append, List.flatMap_singleton,
    length_byteBits, List.length_append]
  congr 1
  omega

/-- After the rewind everything is there to read, and the places of the last byte that were not
    filled. -/
theorem Stored.rewind (h : Stored s bs) :
    Readable s.rewind ∧ ∃ pad < 8, s.rewind.unread = bs ++ List.replicate pad false := by
  obtain ⟨havail, full, last, hwritten⟩ := h
  refine ⟨⟨hwritten.own, ?_, by simp [MemoryStream.rewind], Nat.zero_le _, fun hpos => ?_⟩,
    s.avail, havail, ?_⟩
  · obtain ⟨b, hb⟩ : ∃ b, s.buffers[0]? = some b := by
      rw [hwritten.buffers_eq]
      cases full with
      | nil => exact ⟨last, rfl⟩
      | cons b bs => exact ⟨b, rfl⟩
    refine ⟨b, hb, ?_⟩
    simp only [MemoryStream.rewind]
    omega
  · exact absurd hpos (Nat.lt_irrefl 0)
  · rw [← hwritten.bits_eq, MemoryStream.unread, MemoryStream.ahead]
    simp only [MemoryStream.rewind, List.drop_zero]
    rw [hwritten.buffers_eq, List.flatMap_append, List.flatMap_singleton]
    rfl

/-! ### Write, rewind and read -/

/-- The bits of the bytes that the items fill, the last one up with zeros -/
def content (items : List Item) : List Bool :=
  let bits := items.flatMap Item.bits
  bits ++ List.replicate (8 * ((bits.length + 7) / 8) - bits.length) false

theorem length_items (items : List Item) :
    (items.flatMap Item.bits).length = (items.map Item.width).sum := by
  induction items with
  | nil => rfl
  | cons item items ih =>
    rw [List.flatMap_cons, List.length_append, item.length_bits, ih, List.map_cons, List.sum_cons]

theorem createInstance_stored {heap heap' : Allocator}
    (h : createInstance none 0 heap = (.ok s, heap')) :
    Stored s [] ∧ s.capacity heap' = 8 * c_PayloadSize * heap.buffers := by
  match heap with
  | [] => cases h
  | none :: heap => cases h
  | some memory :: heap =>
    obtain ⟨hs, rfl⟩ := Prod.mk.inj h
    obtain rfl := Except.ok.inj hs
    exact ⟨⟨Nat.succ_pos 7, [], { data := none, length := 0, payload := memory }, rfl, rfl, by simp,
      by simp, Nat.zero_le _, rfl, Nat.zero_le _, fun hpos => absurd hpos (Nat.lt_irrefl 0), rfl⟩,
      congrArg (8 * c_PayloadSize * ·) (Nat.add_comm 1 _)⟩

theorem Stored.unread_content {items : List Item} (h : Stored s (items.flatMap Item.bits)) :
    Readable s.rewind ∧ s.rewind.unread = content items := by
  obtain ⟨hreadable, pad, hpad, hunread⟩ := h.rewind
  refine ⟨hreadable, ?_⟩
  -- the bits of whole bytes: there is one number of places to fill
  have hlen := congrArg List.length hunread
  have hpos : (8 * (s.rewind.pos + 1) - s.rewind.avail).toNat = 0 := rfl
  rw [MemoryStream.unread, hpos, List.drop_zero, length_byteBits, List.length_append,
    List.length_replicate] at hlen
  rw [hunread, content]
  congr 2
  omega

/-- Whatever is written to a new stream is read back after a rewind.  The counters are the number
    of bits that were written and that number rounded up to whole bytes, as `int`s; any other calls
    read what the bits say, and the first one that asks for more than is left fails. -/
theorem round_trip {heap heap' : Allocator} (h : createInstance none 0 heap = (.ok s, heap'))
    (items : List Item) :
    ∃ hr s' heap'', writeAll s heap' items = some (hr, s', heap'') ∧
      (hr = .failed .outOfMemory ∧
          8 * c_PayloadSize * heap.buffers < (items.map Item.width).sum ∨
        hr = .ok ∧
          s'.bitsWritten = int32 (items.map Item.width).sum ∧
          s'.rewind.bitsAvailable = int32 (8 * (((items.map Item.width).sum + 7) / 8) : Nat) ∧
          (∃ s'', readAll s'.rewind (items.map Item.request) =
            some (.ok (items.map Item.value), s'')) ∧
          ∀ requests, ∃ s'', readAll s'.rewind requests =
            some (match takeAll (content items) requests with
              | some q => .ok q.1
              | none => .error .outOfRange, s'')) := by
  obtain ⟨hempty, hcapacity⟩ := createInstance_stored h
  obtain ⟨hr, s', heap'', hwrite, hcase⟩ := writeAll_spec items s [] heap' hempty
  rw [List.nil_append, length_items, hcapacity] at hcase
  refine ⟨hr, s', heap'', hwrite, hcase.imp_right ?_⟩
  rintro ⟨rfl, -, hstored⟩
  obtain ⟨hreadable, hunread⟩ := hstored.unread_content
  have hwritten := hstored.bitsWritten
  have havailable := hstored.bitsAvailable
  rw [length_items] at hwritten havailable
  refine ⟨rfl, hwritten, havailable, ?_, fun requests => ?_⟩
  · have hread := readAll_spec (items.map Item.request) _ hreadable
    rw [hunread, content, takeAll_bits] at hread
    obtain ⟨s'', hread, -⟩ := hread
    exact ⟨s'', hread⟩
  · have hread := readAll_spec requests _ hreadable
    rw [hunread] at hread
    rcases hread.cases with ⟨htake, s'', hcall⟩ | ⟨vs, s'', htake, hcall, -⟩
    · exact ⟨s'', by rw [hcall, htake]⟩
    · exact ⟨s'', by rw [hcall, htake]⟩

/-- Three bits, a byte and a two-byte integer -/
theorem round_trip_three_items :
    ∃ s, createInstance none 0 (List.replicate 28 (some fun _ => 0)) =
        (.ok s, List.replicate 27 (some fun _ => 0)) ∧
      ∃ s' heap'', writeAll s (List.replicate 27 (some fun _ => 0))
          [.bits32 5 3 (by decide), .array [7], .compressed 300 (by decide)] =
            some (.ok, s', heap'') ∧
        s'.bitsWritten = 27 ∧ s'.rewind.bitsAvailable = 32 ∧
        (∃ s'', readAll s'.rewind [.bits32 3 (by decide), .array 1, .compressed] =
          some (.ok [.number 5, .bytes [7], .number 300], s'')) ∧
        ∃ s'', readAll s'.rewind [.array 4, .bits64 33 (by decide)] =
          some (.error .outOfRange, s'') := by
  have hwidth : ([Item.bits32 5 3 (by decide), .array [7], .compressed 300 (by decide)].map
      Item.width).sum = 27 := by decide
  have htake : takeAll (content [.bits32 5 3 (by decide), .array [7], .compressed 300 (by decide)])
      [.array 4, .bits64 33 (by decide)] = none := by decide
  obtain ⟨s, hcreate⟩ : ∃ s, createInstance none 0 (List.replicate 28 (some fun _ => 0)) =
      (.ok s, List.replicate 27 (some fun _ => 0)) := ⟨_, rfl⟩
  obtain ⟨hr, s', heap'', hwrite, hcase⟩ := round_trip hcreate
    [.bits32 5 3 (by decide), .array [7], .compressed 300 (by decide)]
  rw [hwidth] at hcase
  rcases hcase with ⟨-, hfew⟩ | ⟨rfl, hwritten, havailable, hread, hreads⟩
  · exact absurd hfew (by decide)
  · obtain ⟨s'', hpast⟩ := hreads [.array 4, .bits64 33 (by decide)]
    rw [htake] at hpast
    exact ⟨s, hcreate, s', heap'', hwrite, hwritten, havailable, hread, s'', hpast⟩

theorem buffers_replicate (n : Nat) (memory : Nat → UInt8) :
    Allocator.buffers (List.replicate n (some memory)) = n := by
  induction n with
  | zero => rfl
  | succ n ih => rw [List.replicate_succ, Allocator.buffers, ih]

theorem bitsWritten_zeros (n : Nat) :
    ∃ s s' heap'', createInstance none 0 (List.replicate (8 * n + 1) (some fun _ => 0)) =
        (.ok s, List.replicate (8 * n) (some fun _ => 0)) ∧
      writeAll s (List.replicate (8 * n) (some fun _ => 0)) [.array (List.replicate n 0)] =
        some (.ok, s', heap'') ∧
      s'.bitsWritten = int32 (8 * n : Nat) := by
  have hcreate : ∃ s, createInstance none 0 (List.replicate (8 * n + 1) (some fun _ => 0)) =
      (.ok s, List.replicate (8 * n) (some fun _ => 0)) := by
    rw [List.replicate_succ]
    exact ⟨_, rfl⟩
  obtain ⟨s, hcreate⟩ := hcreate
  obtain ⟨hempty, hcapacity⟩ := createInstance_stored hcreate
  obtain ⟨hr, s', heap'', hwrite, hcase⟩ := writeAll_spec [.array (List.replicate n 0)] s []
    (List.replicate (8 * n) (some fun _ => 0)) hempty
  rw [List.nil_append, length_items, hcapacity, buffers_replicate] at hcase
  have hwidth : ([Item.array (List.replicate n 0)].map Item.width).sum = 8 * n := by
    simp [Item.width]
  rw [hwidth] at hcase
  rcases hcase with ⟨-, hfew⟩ | ⟨rfl, -, hstored⟩
  · rw [c_PayloadSize] at hfew
    omega
  · have hwritten := hstored.bitsWritten
    rw [length_items, hwidth] at hwritten
    exact ⟨s, s', heap'', hcreate, hwrite, hwritten⟩

/-- After 2²⁸ bytes the counter is negative. -/
theorem bitsWritten_wraps :
    ∃ s s' heap'', createInstance none 0 (List.replicate (2 ^ 31 + 1) (some fun _ => 0)) =
        (.ok s, List.replicate (2 ^ 31) (some fun _ => 0)) ∧
      writeAll s (List.replicate (2 ^ 31) (some fun _ => 0)) [.array (List.replicate (2 ^ 28) 0)] =
        some (.ok, s', heap'') ∧
      s'.bitsWritten = -2 ^ 31 := by
  have h := bitsWritten_zeros (2 ^ 28)
  rw [show 8 * 2 ^ 28 = 2 ^ 31 by norm_num] at h
  obtain ⟨s, s', heap'', hcreate, hwrite, hwritten⟩ := h
  refine ⟨s, s', heap'', hcreate, hwrite, ?_⟩
  rw [hwritten]
  decide

end TinyClr.Streams
