import TinyClr.Core.Streams
import TinyClr.Library.BitString
import TinyClr.Library.Runs

/-!
# Memory streams hold bit strings

`Written` ties a stream that is being written to the bits that have been written: they are the
bits of the bytes of its buffers, but for the last ones of the last byte, which are 0.  `unread`
are the bits that reading finds from where a stream stands.  Writing appends to the one, reading
takes from the front of the other.
-/

namespace TinyClr.Streams

open TinyClr.Library

variable {s s' : MemoryStream} {full : List Buffer} {last : Buffer} {bs : List Bool}
  {heap : Allocator}

/-! ### Bits of bytes -/

def Buffer.bytes (b : Buffer) : List UInt8 := (List.range b.length).map b.payload

def byteBits (bytes : List UInt8) : List Bool := bytes.flatMap fun x => bitsOf 8 x.toNat

theorem byteBits_append (xs ys : List UInt8) :
    byteBits (xs ++ ys) = byteBits xs ++ byteBits ys := List.flatMap_append

theorem byteBits_cons (x : UInt8) (xs : List UInt8) :
    byteBits (x :: xs) = bitsOf 8 x.toNat ++ byteBits xs := rfl

@[simp] theorem length_byteBits (bytes : List UInt8) :
    (byteBits bytes).length = 8 * bytes.length := by
  induction bytes with
  | nil => rfl
  | cons x xs ih =>
    rw [byteBits_cons, List.length_append, length_bitsOf, ih, List.length_cons]
    omega

@[simp] theorem length_bytes (b : Buffer) : b.bytes.length = b.length := by
  rw [Buffer.bytes, List.length_map, List.length_range]

theorem bitsOf_insert (value : Nat) {x : UInt8} {avail insert mask : Nat} (havail : avail ≤ 8)
    (hinsert : insert ≤ avail) (hx : x.toNat % 2 ^ avail = 0) (hmask : mask = 2 ^ insert - 1) :
    bitsOf 8 (x ||| UInt8.ofNat ((value &&& mask) <<< (avail - insert))).toNat =
      bitsOf (8 - avail) (x.toNat / 2 ^ avail) ++
        (bitsOf insert value ++ List.replicate (avail - insert) false) := by
  have hlow : value % 2 ^ insert < 2 ^ insert := Nat.mod_lt _ (Nat.two_pow_pos insert)
  have hpow : 2 ^ insert * 2 ^ (avail - insert) = 2 ^ avail := by
    rw [← Nat.pow_add, Nat.add_sub_cancel' hinsert]
  have hfield : value % 2 ^ insert * 2 ^ (avail - insert) < 2 ^ avail := by
    rw [← hpow]
    exact (Nat.mul_lt_mul_right (Nat.two_pow_pos _)).mpr hlow
  have hbyte : 2 ^ avail ≤ 2 ^ 8 := Nat.pow_le_pow_right Nat.two_pos havail
  have hvalue : (x ||| UInt8.ofNat ((value &&& mask) <<< (avail - insert))).toNat =
      x.toNat / 2 ^ avail * 2 ^ avail + value % 2 ^ insert * 2 ^ (avail - insert) := by
    have hofNat : (UInt8.ofNat (value % 2 ^ insert * 2 ^ (avail - insert))).toNat =
        value % 2 ^ insert * 2 ^ (avail - insert) := by
      rw [UInt8.toNat_ofNat']
      exact Nat.mod_eq_of_lt (Nat.lt_of_lt_of_le hfield hbyte)
    have hx' : x.toNat / 2 ^ avail * 2 ^ avail = x.toNat :=
      Nat.div_mul_cancel (Nat.dvd_of_mod_eq_zero hx)
    rw [UInt8.toNat_or, and_mask insert hmask, Nat.shiftLeft_eq, hofNat]
    have hor := shift_or avail (x.toNat / 2 ^ avail) hfield
    rw [Nat.shiftLeft_eq, hx'] at hor
    rw [hor, hx']
  have hsplit : 8 = 8 - avail + avail := (Nat.sub_add_cancel havail).symm
  calc bitsOf 8 (x ||| UInt8.ofNat ((value &&& mask) <<< (avail - insert))).toNat
      = bitsOf (8 - avail + avail) (x.toNat / 2 ^ avail * 2 ^ avail +
          value % 2 ^ insert * 2 ^ (avail - insert)) := by rw [hvalue, ← hsplit]
    _ = bitsOf (8 - avail) (x.toNat / 2 ^ avail) ++
          bitsOf avail (value % 2 ^ insert * 2 ^ (avail - insert)) := bitsOf_join _ _ _ hfield
    _ = bitsOf (8 - avail) (x.toNat / 2 ^ avail) ++
          bitsOf (insert + (avail - insert)) (value % 2 ^ insert * 2 ^ (avail - insert) + 0) := by
        rw [Nat.add_sub_cancel' hinsert, Nat.add_zero]
    _ = _ := by
        rw [bitsOf_join _ _ _ (Nat.two_pow_pos _), bitsOf_zero_right,
          bitsOf_congr (Nat.mod_mod value (2 ^ insert))]

/-! ### The stream that is written -/

/-- The bits `bs` have been written to the stream, the last ones to the buffer `last`. -/
structure Written (s : MemoryStream) (full : List Buffer) (last : Buffer) (bs : List Bool) :
    Prop where
  buffers_eq : s.buffers = full ++ [last]
  current_eq : s.current = full.length
  own : ∀ b ∈ s.buffers, b.data = none
  full_length : ∀ b ∈ full, b.length = c_PayloadSize
  last_le : last.length ≤ c_PayloadSize
  pos_eq : s.pos = last.length - 1
  avail_le : s.avail ≤ 8
  avail_byte : 0 < s.avail → 0 < last.length
  bits_eq : byteBits (full.flatMap Buffer.bytes ++ last.bytes) =
    bs ++ List.replicate s.avail false

theorem bytes_split (b : Buffer) (h : 0 < b.length) :
    b.bytes = (List.range (b.length - 1)).map b.payload ++ [b.payload (b.length - 1)] := by
  rw [Buffer.bytes]
  conv_lhs => rw [show b.length = b.length - 1 + 1 by omega]
  rw [List.range_succ, List.map_append, List.map_singleton]

theorem Written.current (h : Written s full last bs) : s.buffers[s.current]? = some last := by
  rw [h.buffers_eq, h.current_eq, List.getElem?_append_right (Nat.le_refl _), Nat.sub_self,
    List.getElem?_cons_zero]

theorem Written.set_current (h : Written s full last bs) (b : Buffer) :
    s.buffers.set s.current b = full ++ [b] := by
  rw [h.buffers_eq, h.current_eq, List.set_append_right _ _ (Nat.le_refl _), Nat.sub_self,
    List.set_cons_zero]

theorem Written.own_set (h : Written s full last bs) {b : Buffer} (hb : b.data = none) :
    ∀ x ∈ full ++ [b], x.data = none := by
  intro x hx
  rcases List.mem_append.mp hx with hx | hx
  · exact h.own x (by rw [h.buffers_eq]; exact List.mem_append_left _ hx)
  · rw [List.mem_singleton.mp hx]
    exact hb

theorem Written.last_own (h : Written s full last bs) : last.data = none :=
  h.own last (by rw [h.buffers_eq]; exact List.mem_append_right _ (List.mem_singleton_self last))

theorem Written.byte (h : Written s full last bs) (havail : 0 < s.avail) :
    (last.payload (last.length - 1)).toNat % 2 ^ s.avail = 0 ∧
      bs = byteBits (full.flatMap Buffer.bytes ++
          (List.range (last.length - 1)).map last.payload) ++
        bitsOf (8 - s.avail) ((last.payload (last.length - 1)).toNat / 2 ^ s.avail) := by
  have hsplit := bitsOf_add (8 - s.avail) s.avail (last.payload (last.length - 1)).toNat
  rw [Nat.sub_add_cancel h.avail_le] at hsplit
  have hnil : byteBits [] = [] := rfl
  have hbits := h.bits_eq
  rw [bytes_split last (h.avail_byte havail), ← List.append_assoc, byteBits_append, byteBits_cons,
    hsplit, hnil, List.append_nil, ← List.append_assoc] at hbits
  obtain ⟨hfront, hback⟩ := List.append_inj' hbits (by simp)
  rw [← bitsOf_zero_right] at hback
  have hmod := mod_eq_of_bitsOf hback
  rw [Nat.zero_mod] at hmod
  exact ⟨hmod, hfront.symm⟩

theorem Written.put (h : Written s full last bs) (havail : 0 < s.avail) (value : Nat)
    {insert : Nat} (hinsert : insert ≤ s.avail) :
    ∃ last', Written
      { s with
        buffers := s.buffers.set s.current { last with
          payload := fun i =>
            if (i : Int) = s.pos then
              last.payload i ||| UInt8.ofNat ((value &&& (1 <<< insert - 1)) <<< (s.avail - insert))
            else last.payload i }
        avail := s.avail - insert }
      full last' (bs ++ bitsOf insert value) := by
  obtain ⟨hmod, hbs⟩ := h.byte havail
  have hpos := h.avail_byte havail
  have hmask : 1 <<< insert - 1 = 2 ^ insert - 1 := by rw [Nat.shiftLeft_eq, Nat.one_mul]
  have hbyte := bitsOf_insert value h.avail_le hinsert hmod hmask
  have hlast : ((last.length - 1 : Nat) : Int) = s.pos := by
    rw [h.pos_eq]
    omega
  have hfront : ∀ i ∈ List.range (last.length - 1), ¬ (i : Int) = s.pos := by
    intro i hi
    have hlt := List.mem_range.mp hi
    omega
  refine ⟨_, h.set_current _, h.current_eq, ?_, h.full_length, h.last_le, h.pos_eq,
    Nat.le_trans (Nat.sub_le _ _) h.avail_le, fun _ => hpos, ?_⟩
  · rw [h.set_current]
    exact h.own_set h.last_own
  · rw [bytes_split]
    on_goal 2 => exact hpos
    simp only [hlast, if_true]
    rw [List.map_congr_left fun i hi => if_neg (hfront i hi), ← List.append_assoc,
      byteBits_append, byteBits_cons, hbyte]
    conv_rhs => rw [hbs]
    simp [byteBits]

theorem Written.begin_here (h : Written s full last bs) (havail : s.avail = 0)
    (hroom : last.length < c_PayloadSize) :
    ∃ last', Written
      { s with
        buffers := s.buffers.set s.current { last with
          length := last.length + 1
          payload := fun i => if (i : Int) = s.pos + 1 then 0 else last.payload i }
        pos := s.pos + 1
        avail := 8 } full last' bs := by
  have hpos := h.pos_eq
  have hfront : ∀ i ∈ List.range last.length, ¬ (i : Int) = s.pos + 1 := by
    intro i hi
    have hlt := List.mem_range.mp hi
    omega
  have hbits := h.bits_eq
  rw [havail, List.replicate_zero, List.append_nil] at hbits
  refine ⟨_, h.set_current _, h.current_eq, ?_, h.full_length, hroom, ?_, Nat.le_refl 8,
    fun _ => Nat.succ_pos _, ?_⟩
  · rw [h.set_current]
    exact h.own_set h.last_own
  · simp only [hpos]
    omega
  · rw [bytes_split]
    on_goal 2 => exact Nat.succ_pos _
    simp only [Nat.add_sub_cancel]
    rw [List.map_congr_left fun i hi => if_neg (hfront i hi), if_pos (by omega),
      ← List.append_assoc, byteBits_append]
    change byteBits (full.flatMap Buffer.bytes ++ last.bytes) ++ _ = _
    rw [hbits]
    rfl

theorem Written.begin_buffer (h : Written s full last bs) (havail : s.avail = 0)
    (hfull : last.length = c_PayloadSize) (memory : Nat → UInt8) (heap : Allocator) (pos : Int) :
    Written ({ s with pos := pos }.newBuffer (some memory :: heap)).1 (full ++ [last])
      { data := none, length := 0, payload := memory } bs := by
  have hbits := h.bits_eq
  rw [havail, List.replicate_zero, List.append_nil] at hbits
  refine ⟨?_, ?_, ?_, ?_, Nat.zero_le _, rfl, Nat.zero_le _,
    fun hpos => absurd hpos (Nat.lt_irrefl 0), ?_⟩
  · rw [← h.buffers_eq]
    rfl
  · rw [← h.buffers_eq]
    rfl
  · intro b hb
    rcases List.mem_append.mp hb with hb | hb
    · exact h.own b hb
    · rw [List.mem_singleton.mp hb]
  · intro b hb
    rcases List.mem_append.mp hb with hb | hb
    · exact h.full_length b hb
    · rw [List.mem_singleton.mp hb]
      exact hfull
  · rw [List.flatMap_append, List.flatMap_singleton, hbits.symm]
    simp [Buffer.bytes, MemoryStream.newBuffer]

theorem beginByte_here (h : Written s full last bs) (havail : s.avail = 0)
    (hroom : last.length < c_PayloadSize) (fuel : Nat) (heap : Allocator) :
    ∃ s', beginByte (fuel + 1) s heap = some (.ok, s', heap) ∧ 0 < s'.avail ∧
      ∃ last', Written s' full last' bs := by
  have hpos := h.pos_eq
  obtain ⟨last', hwritten⟩ := h.begin_here havail hroom
  refine ⟨_, ?_, Nat.succ_pos _, last', hwritten⟩
  rw [beginByte, if_pos havail]
  simp only
  rw [if_pos (by omega), h.current]
  rfl

def Allocator.buffers : Allocator → Nat
  | some _ :: heap => Allocator.buffers heap + 1
  | _ => 0

/-- The bits that fit in the buffers of a stream and those it can get -/
def MemoryStream.capacity (s : MemoryStream) (heap : Allocator) : Nat :=
  8 * c_PayloadSize * (s.buffers.length + heap.buffers)

theorem Written.capacity_eq (h : Written s full last bs) (heap : Allocator) :
    s.capacity heap = 8 * c_PayloadSize * (full.length + 1 + heap.buffers) := by
  rw [MemoryStream.capacity, h.buffers_eq, List.length_append, List.length_singleton]

theorem Written.length_full (h : Written s full last bs) (havail : s.avail = 0)
    (hlast : last.length = c_PayloadSize) : bs.length = 8 * c_PayloadSize * (full.length + 1) := by
  have hfull : ∀ xs : List Buffer, (∀ b ∈ xs, b.length = c_PayloadSize) →
      (xs.flatMap Buffer.bytes).length = c_PayloadSize * xs.length := by
    intro xs
    induction xs with
    | nil => exact fun _ => rfl
    | cons b xs ih =>
      intro hxs
      rw [List.flatMap_cons, List.length_append, length_bytes, hxs b List.mem_cons_self,
        ih fun x hx => hxs x (List.mem_cons_of_mem b hx), List.length_cons, Nat.mul_succ,
        Nat.add_comm]
  have hlength := congrArg List.length h.bits_eq
  rw [length_byteBits, List.length_append, hfull full h.full_length, length_bytes, hlast, havail,
    List.replicate_zero, List.append_nil] at hlength
  rw [← hlength, Nat.mul_assoc, Nat.mul_succ]

/-- A byte is begun, unless there is no memory for its buffer. -/
theorem beginByte_spec (h : Written s full last bs) (heap : Allocator) :
    ∃ hr s' heap', beginByte 2 s heap = some (hr, s', heap') ∧
      (hr = .failed .outOfMemory ∧ s.capacity heap = bs.length ∨
        hr = .ok ∧ s'.capacity heap' = s.capacity heap ∧ 0 < s'.avail ∧
          ∃ full' last', Written s' full' last' bs) := by
  by_cases havail : s.avail = 0
  · have hpos := h.pos_eq
    have hle := h.last_le
    by_cases hroom : last.length < c_PayloadSize
    · obtain ⟨s', hbegin, havail', last', hwritten⟩ := beginByte_here h havail hroom 1 heap
      refine ⟨_, s', heap, hbegin, Or.inr ⟨rfl, ?_, havail', full, last', hwritten⟩⟩
      rw [hwritten.capacity_eq, h.capacity_eq]
    · rw [beginByte, if_pos havail]
      simp only
      rw [if_neg (by omega)]
      have hfull : last.length = c_PayloadSize := by omega
      have hlength := h.length_full havail hfull
      match heap with
      | [] => exact ⟨_, _, _, rfl, Or.inl ⟨rfl, (h.capacity_eq _).trans hlength.symm⟩⟩
      | none :: heap => exact ⟨_, _, _, rfl, Or.inl ⟨rfl, (h.capacity_eq _).trans hlength.symm⟩⟩
      | some memory :: heap =>
        have hnew := h.begin_buffer havail hfull memory heap (s.pos + 1)
        obtain ⟨s', hbegin, havail', last', hwritten⟩ :=
          beginByte_here hnew rfl (show 0 < c_PayloadSize by decide) 0 heap
        refine ⟨_, s', heap, hbegin, Or.inr ⟨rfl, ?_, havail', _, last', hwritten⟩⟩
        rw [hwritten.capacity_eq, h.capacity_eq, List.length_append, List.length_singleton,
          Allocator.buffers]
        congr 1
        omega
  · rw [beginByte, if_neg havail]
    exact ⟨_, _, _, rfl, Or.inr ⟨rfl, rfl, Nat.pos_of_ne_zero havail, full, last, h⟩⟩

/-! ### Writing appends -/

/-- The stream stands behind the bits `bs`, less than a byte of it begun and not filled. -/
def Stored (s : MemoryStream) (bs : List Bool) : Prop :=
  s.avail < 8 ∧ ∃ full last, Written s full last bs

/-- A call that writes the bits `more` behind `bs`, unless they are more than fit. -/
def Appends (capacity : Nat) (bs more : List Bool)
    (call : Option (HResult × MemoryStream × Allocator)) : Prop :=
  ∃ hr s' heap', call = some (hr, s', heap') ∧
    (hr = .failed .outOfMemory ∧ capacity < (bs ++ more).length ∨
      hr = .ok ∧ s'.capacity heap' = capacity ∧ Stored s' (bs ++ more))

theorem Appends.nil (h : Stored s bs) (heap : Allocator) :
    Appends (s.capacity heap) bs [] (some (.ok, s, heap)) := by
  refine ⟨.ok, s, heap, rfl, Or.inr ⟨rfl, rfl, ?_⟩⟩
  rw [List.append_nil]
  exact h

theorem Appends.andThen {capacity : Nat} {more rest : List Bool}
    {call : Option (HResult × MemoryStream × Allocator)}
    {next : MemoryStream → Allocator → Option (HResult × MemoryStream × Allocator)}
    (h : Appends capacity bs more call)
    (hnext : ∀ s' heap', Stored s' (bs ++ more) →
      Appends (s'.capacity heap') (bs ++ more) rest (next s' heap')) :
    Appends capacity bs (more ++ rest) (call.bind fun q =>
      match q.1 with
      | .failed code => some (.failed code, q.2.1, q.2.2)
      | .ok => next q.2.1 q.2.2) := by
  obtain ⟨hr, s₁, heap₁, rfl, ⟨rfl, hfew⟩ | ⟨rfl, rfl, hstored⟩⟩ := h
  · refine ⟨_, _, _, rfl, Or.inl ⟨rfl, ?_⟩⟩
    rw [← List.append_assoc, List.length_append]
    exact Nat.lt_add_right _ hfew
  · rw [Appends, ← List.append_assoc]
    exact hnext s₁ heap₁ hstored

/-- `WriteBits` appends the low bits of the value. -/
theorem writeLoop_spec (val : Nat) : ∀ (bits fuel : Nat) (s : MemoryStream) (heap : Allocator)
    (bs : List Bool), bits < fuel → Stored s bs →
    Appends (s.capacity heap) bs (bitsOf bits val) (writeLoop fuel s heap val bits bits) := by
  intro bits
  induction bits using Nat.strongRecOn with
  | ind bits ih =>
    intro fuel s heap bs hfuel hstored
    obtain ⟨havail, full, last, hwritten⟩ := hstored
    obtain ⟨fuel, rfl⟩ := Nat.exists_eq_succ_of_ne_zero (Nat.ne_of_gt (Nat.lt_of_le_of_lt
      (Nat.zero_le bits) hfuel))
    rw [writeLoop]
    by_cases hmore : bits > 0
    · rw [if_pos hmore]
      obtain ⟨hr, s₁, heap₁, hbegin, hcase⟩ := beginByte_spec hwritten heap
      rw [hbegin]
      simp only [Option.bind_eq_bind, Option.bind_some]
      rcases hcase with ⟨rfl, hfull⟩ | ⟨rfl, hcapacity, hpos, full₁, last₁, hwritten₁⟩
      · refine ⟨_, _, _, rfl, Or.inl ⟨rfl, ?_⟩⟩
        rw [hfull, List.length_append, length_bitsOf]
        exact Nat.lt_add_of_pos_right hmore
      · simp only
        generalize hinsert : (if bits < s₁.avail then bits else s₁.avail) = insert
        have hbounds : 0 < insert ∧ insert ≤ bits ∧ insert ≤ s₁.avail := by
          rw [← hinsert]
          split_ifs <;> omega
        obtain ⟨hinsertPos, hinsertBits, hinsertAvail⟩ := hbounds
        rw [hwritten₁.current]
        simp only [Option.bind_some]
        obtain ⟨last₂, hwritten₂⟩ :=
          hwritten₁.put hpos (val >>> (bits - insert)) hinsertAvail
        have hle := hwritten₁.avail_le
        obtain ⟨hr, s', heap', hloop, hcase⟩ := ih (bits - insert) (by omega) fuel _ heap₁ _
          (by omega) ⟨by simp only; omega, full₁, last₂, hwritten₂⟩
        -- the bits put in and those that follow are the bits of the value
        have hbits := bitsOf_add insert (bits - insert) val
        rw [Nat.add_sub_cancel' hinsertBits, ← Nat.shiftRight_eq_div_pow] at hbits
        refine ⟨hr, s', heap', hloop, ?_⟩
        rw [hbits, ← List.append_assoc, ← hcapacity, hwritten₁.capacity_eq,
          ← hwritten₂.capacity_eq]
        exact hcase
    · rw [if_neg hmore]
      obtain rfl : bits = 0 := by omega
      exact Appends.nil ⟨havail, full, last, hwritten⟩ heap

theorem writeBits32_spec (h : Stored s bs) (heap : Allocator) (val bits : Nat) :
    Appends (s.capacity heap) bs (bitsOf bits val) (writeBits32 s heap val bits) :=
  writeLoop_spec val bits (bits + 1) s heap bs (Nat.lt_succ_self bits) h

/-- The two halves of a wide value -/
theorem writeBits64_spec (h : Stored s bs) (heap : Allocator) (res bits : Nat) :
    Appends (s.capacity heap) bs (bitsOf bits res) (writeBits64 s heap res bits) := by
  have hlow : ∀ w ≤ 32, bitsOf w (res % 2 ^ 32) = bitsOf w res := fun w hw =>
    bitsOf_congr (Nat.mod_mod_of_dvd res (Nat.pow_dvd_pow 2 hw))
  rw [writeBits64]
  by_cases hwide : bits > 32
  · rw [if_pos hwide]
    have hsplit := bitsOf_add (bits - 32) 32 res
    rw [Nat.sub_add_cancel (Nat.le_of_lt hwide), ← Nat.shiftRight_eq_div_pow,
      ← hlow 32 (Nat.le_refl 32)] at hsplit
    rw [hsplit]
    exact (writeBits32_spec h heap _ _).andThen fun s' heap' hstored =>
      writeBits32_spec hstored heap' _ _
  · rw [if_neg hwide, ← hlow bits (by omega)]
    exact writeBits32_spec h heap _ _

theorem writeArray_spec : ∀ (bytes : List UInt8) (s : MemoryStream) (bs : List Bool)
    (heap : Allocator), Stored s bs →
    Appends (s.capacity heap) bs (byteBits bytes) (writeArray s heap bytes) := by
  intro bytes
  induction bytes with
  | nil => exact fun s bs heap h => Appends.nil h heap
  | cons byte bytes ih =>
    intro s bs heap h
    exact (writeBits32_spec h heap _ _).andThen fun s' heap' hstored => ih s' _ heap' hstored

end TinyClr.Streams
