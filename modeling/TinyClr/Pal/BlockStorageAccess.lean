import TinyClr.Pal.BlockStorageSeek

/-!
# Reads and writes of a stream

`Write` and `Read` go on from range to range, so that they act on the bytes of the sequence from the
position on.
-/

namespace TinyClr.BlockStorage

open TinyClr.Library

/-! ### Bytes of a device -/

@[simp] theorem length_places (d address n : Nat) : (places d address n).length = n := by
  rw [places, List.length_map, List.length_range]

theorem places_append (d address m n : Nat) :
    places d address (m + n) = places d address m ++ places d (address + m) n := by
  rw [places, List.range_add, List.map_append, List.map_map]
  congr 1
  refine List.map_congr_left fun i _ => ?_
  rw [Function.comp_apply, Nat.add_assoc]

variable {m n : Nat}

theorem take_places (d address : Nat) (h : m ≤ n) :
    (places d address n).take m = places d address m := by
  obtain ⟨k, rfl⟩ := Nat.exists_eq_add_of_le h
  rw [places_append, List.take_left' (length_places d address m)]

theorem drop_places (d address : Nat) (h : m ≤ n) :
    (places d address n).drop m = places d (address + m) (n - m) := by
  obtain ⟨k, rfl⟩ := Nat.exists_eq_add_of_le h
  rw [places_append, List.drop_left' (length_places d address m), Nat.add_sub_cancel_left]

theorem mem_places {d address : Nat} {p : Place} :
    p ∈ places d address n ↔ p.device = d ∧ address ≤ p.address ∧ p.address < address + n := by
  simp only [places, List.mem_map, List.mem_range]
  constructor
  · rintro ⟨i, hi, rfl⟩
    exact ⟨rfl, Nat.le_add_right _ _, Nat.add_lt_add_left hi _⟩
  · rintro ⟨rfl, hle, hlt⟩
    refine ⟨p.address - address, by omega, ?_⟩
    rw [Nat.add_sub_cancel' hle]

theorem programAll_append (devices : Devices) (rmw : Bool) (mem : Memory)
    (bs bs' : List (Place × UInt8)) :
    devices.programAll rmw mem (bs ++ bs') =
      devices.programAll rmw (devices.programAll rmw mem bs) bs' := List.foldl_append

theorem zip_take_add {α β : Type*} {xs : List α} (ys : List β) (n : Nat)
    (hm : m ≤ xs.length) (hm' : m ≤ ys.length) :
    xs.zip (ys.take (m + n)) =
      (xs.take m).zip (ys.take m) ++ (xs.drop m).zip ((ys.drop m).take n) := by
  conv_lhs => rw [← List.take_append_drop m xs]
  rw [List.take_add, List.zip_append]
  rw [List.length_take, List.length_take, Nat.min_eq_left hm, Nat.min_eq_left hm']

/-! ### What is left of the sequence -/

def Stream.rest (devices : Devices) (s : Stream) : List Place :=
  (bytes devices s.usage).drop (s.position devices)

section Access

variable {devices : Devices} {s : Stream} {slot : Slot} {dev : BlockStorageDevice}
  {g : BlockRegionInfo} {x : BlockRange}

theorem rest_eq (hs : Stands devices s dev g x) :
    s.rest devices = places s.slot.device s.currentAddress (s.slot.length - s.currentIndex) ++
      (slotsAfter devices s.usage s.slot).flatMap Slot.places := by
  have hplaces : s.slot.places.length = s.slot.length := length_places _ _ _
  rw [Stream.rest, bytes, hs.tables.slots_eq, List.flatMap_append, List.flatMap_cons,
    Stream.position, Stream.start, ← length_flatMap_places, List.drop_append,
    List.drop_eq_nil_of_le (Nat.le_add_right _ _), Nat.add_sub_cancel_left, List.nil_append,
    List.drop_append_of_le_length (by rw [hplaces]; exact hs.index), Slot.places,
    drop_places _ _ hs.index]
  rfl

variable {s' : Stream}

theorem rest_of_position (husage : s'.usage = s.usage)
    (hpos : s'.position devices = s.position devices + n) :
    s'.rest devices = (s.rest devices).drop n := by
  rw [Stream.rest, Stream.rest, husage, hpos, List.drop_drop]

theorem advance_position (n : Nat) :
    (s.advance n).position devices = s.position devices + n := Nat.add_assoc _ _ _ |>.symm

/-- The range a stream is used in -/
theorem ready_spec (hs : Stands devices s dev g x) :
    (s.ready devices = none ∧ s.rest devices = [] ∧ s.currentIndex = s.slot.length) ∨
    ∃ s' dev' g' x', s.ready devices = some s' ∧ Stands devices s' dev' g' x' ∧
      Moved devices s s' ∧ s'.position devices = s.position devices ∧
      s'.currentIndex < s'.slot.length ∧ (s'.currentIndex = 0 ∨ s' = s) := by
  unfold Stream.ready
  by_cases hend : s.currentIndex = s.slot.length
  · rw [if_pos hend]
    rcases hnext : s.nextStream devices with _ | s'
    · refine Or.inl ⟨rfl, ?_, hend⟩
      rw [rest_eq hs, nextStream_none hs hnext, hend, Nat.sub_self]
      rfl
    · obtain ⟨slot, dev', g', x', rfl, htables, -, hbefore⟩ := nextStream_some hs hnext
      refine Or.inr ⟨_, dev', g', x', rfl, .enter htables, moved_enter htables, ?_,
        htables.length_pos, Or.inl rfl⟩
      show lengthOf (slotsBefore devices s.usage slot) + 0 = _
      rw [hbefore, lengthOf_append, lengthOf_cons, lengthOf_nil, Stream.position, hend]
      rfl
  · rw [if_neg hend]
    exact Or.inr ⟨s, dev, g, x, rfl, hs, hs.moved, rfl, lt_of_le_of_ne hs.index hend, Or.inr rfl⟩

/-- The sum of the index and the length does not leave 32 bits. -/
def Fits (s : Stream) (length : Nat) : Prop :=
  length < 2 ^ 32 ∧ (s.currentIndex = s.slot.length ∨ s.currentIndex + length < 2 ^ 32)

theorem chunk_eq (h : s.currentIndex + n < 2 ^ 32) (hindex : s.currentIndex ≤ s.slot.length) :
    s.chunk n = min n (s.slot.length - s.currentIndex) := by
  rw [Stream.chunk, Nat.mod_eq_of_lt h]
  split <;> omega

/-- One run through the loops of `Write` and `Read`: the piece of the sequence in the range -/
theorem piece_spec {dev' : BlockStorageDevice} {g' : BlockRegionInfo}
    {x' : BlockRange} (hs' : Stands devices s' dev' g' x') (hn : 0 < n)
    (hfits : s'.currentIndex + n < 2 ^ 32) (hindex : s'.currentIndex < s'.slot.length) :
    0 < s'.chunk n ∧ s'.chunk n ≤ n ∧ s'.chunk n ≤ (s'.rest devices).length ∧
      places s'.slot.device s'.currentAddress (s'.chunk n) = (s'.rest devices).take (s'.chunk n) ∧
      Stands devices (s'.advance (s'.chunk n)) dev' g' x' ∧
      Fits (s'.advance (s'.chunk n)) (n - s'.chunk n) := by
  rw [chunk_eq hfits hs'.index]
  have hle : min n (s'.slot.length - s'.currentIndex) ≤ s'.slot.length - s'.currentIndex :=
    Nat.min_le_right _ _
  refine ⟨by omega, Nat.min_le_left _ _, ?_, ?_, ⟨hs'.tables, ?_, hs'.xip⟩, by omega, ?_⟩
  · rw [rest_eq hs', List.length_append, length_places]
    omega
  · rw [rest_eq hs', List.take_append_of_le_length (by rw [length_places]; exact hle),
      take_places _ _ hle]
  · show s'.currentIndex + _ ≤ s'.slot.length
    omega
  · show s'.currentIndex + _ = s'.slot.length ∨ s'.currentIndex + _ + _ < 2 ^ 32
    omega

theorem fits_ready (hfits : Fits s n) (hindex : s'.currentIndex < s'.slot.length)
    (hcases : s'.currentIndex = 0 ∨ s' = s) : s'.currentIndex + n < 2 ^ 32 := by
  obtain ⟨hn, hsum⟩ := hfits
  rcases hcases with hzero | rfl
  · omega
  · omega

variable {answers : List Bool}

theorem false_notMem_tail (h : false ∉ answers) : false ∉ answers.tail :=
  fun hmem => h (List.mem_of_mem_tail hmem)

theorem headD_of_notMem (h : false ∉ answers) : answers.headD true = true := by
  cases answers with
  | nil => rfl
  | cons answer answers =>
    cases answer with
    | true => rfl
    | false => exact absurd List.mem_cons_self h

/-! ### `Write` -/

/-- **`Write` writes the bytes of the sequence from the position on.** -/
theorem writeLoop_spec (fuel : Nat) :
    ∀ (s : Stream) (mem : Memory) (data : List UInt8) (answers : List Bool),
      (∃ dev g x, Stands devices s dev g x) → data.length ≤ fuel → Fits s data.length →
      ∃ s' n ok, s.writeLoop devices fuel mem data answers = some (s',
          devices.programAll s.readModWrite mem ((s.rest devices).zip (data.take n)), ok) ∧
        Moved devices s s' ∧ s'.position devices = s.position devices + n ∧ n ≤ data.length ∧
        n ≤ (s.rest devices).length ∧ (ok = true ↔ n = data.length) ∧
        (false ∉ answers → ok = false → n = (s.rest devices).length) := by
  induction fuel with
  | zero =>
    rintro s mem data answers ⟨dev, g, x, hs⟩ hfuel hfits
    obtain rfl := List.length_eq_zero_iff.mp (Nat.le_zero.mp hfuel)
    refine ⟨s, 0, true, ?_, hs.moved, rfl, Nat.le_refl 0, Nat.zero_le _, by simp, by simp⟩
    simp only [Stream.writeLoop, List.length_nil, if_true, List.take_nil, List.zip_nil_right]
    rfl
  | succ fuel ih =>
    rintro s mem data answers ⟨dev, g, x, hs⟩ hfuel hfits
    unfold Stream.writeLoop
    by_cases hempty : data.length = 0
    · rw [if_pos hempty]
      obtain rfl := List.length_eq_zero_iff.mp hempty
      exact ⟨s, 0, true, by rw [List.take_nil, List.zip_nil_right]; rfl, hs.moved, rfl, Nat.le_refl 0,
        Nat.zero_le _, by simp, by simp⟩
    rw [if_neg hempty]
    dsimp only
    have hnothing : devices.programAll s.readModWrite mem ((s.rest devices).zip (data.take 0)) =
        mem := by
      rw [List.take_zero, List.zip_nil_right]
      rfl
    rcases ready_spec hs with ⟨hready, hrest, -⟩ |
      ⟨s₁, dev₁, g₁, x₁, hready, hs₁, hmoved₁, hpos₁, hindex₁, hcases₁⟩
    · rw [hready]
      refine ⟨s, 0, false, by rw [hnothing], hs.moved, rfl, Nat.zero_le _, Nat.zero_le _, ?_, ?_⟩
      · exact ⟨fun h => absurd h (by decide), fun h => absurd h.symm hempty⟩
      · intro _ _
        rw [hrest]
        rfl
    · rw [hready]
      dsimp only
      obtain ⟨hpos, hle, hle', hplaces, hs₂, hfits₂⟩ := piece_spec hs₁
        (Nat.pos_of_ne_zero hempty) (fits_ready hfits hindex₁ hcases₁) hindex₁
      have hrest₁ : s₁.rest devices = s.rest devices := by
        rw [rest_of_position hmoved₁.usage (n := 0) hpos₁, List.drop_zero]
      generalize s₁.chunk data.length = m at *
      by_cases hanswer : answers.headD true = true
      · rw [if_pos hanswer]
        obtain ⟨s', n, ok, heq, hmoved, hposition, hn, hn', hok, hfails⟩ := ih (s₁.advance m)
          (devices.write s₁.slot.device s₁.readModWrite mem s₁.currentAddress (data.take m))
          (data.drop m) answers.tail ⟨dev₁, g₁, x₁, hs₂⟩
          (by rw [List.length_drop]; omega) (by rw [List.length_drop]; exact hfits₂)
        have hrest₂ : (s₁.advance m).rest devices = (s.rest devices).drop m := by
          rw [← hrest₁]
          exact rest_of_position rfl (advance_position m)
        rw [hrest₂, List.length_drop] at hn' hfails
        rw [hrest₁] at hle' hplaces
        rw [List.length_drop] at hn hok
        refine ⟨s', m + n, ok, ?_, hmoved₁.trans ⟨hmoved.usage, hmoved.readModWrite, hmoved.stands⟩,
          ?_, by omega, by omega, ?_, fun hanswers hfalse => ?_⟩
        · rw [heq, hrest₂, zip_take_add data n hle' hle, programAll_append, ← hplaces, Devices.write,
            List.length_take, Nat.min_eq_left hle]
          show some (_, devices.programAll s₁.readModWrite _ _, _) = _
          rw [hmoved₁.readModWrite]
        · rw [hposition, advance_position, hpos₁, Nat.add_assoc]
        · rw [hok]
          omega
        · have htail := hfails (fun hmem => hanswers (List.mem_of_mem_tail hmem)) hfalse
          omega
      · rw [if_neg hanswer]
        refine ⟨s₁, 0, false, ?_, hmoved₁, hpos₁, Nat.zero_le _, Nat.zero_le _, ?_, ?_⟩
        · rw [hnothing]
        · exact ⟨fun h => absurd h (by decide), fun h => absurd h.symm hempty⟩
        · exact fun hanswers _ => absurd (headD_of_notMem hanswers) hanswer

/-! ### `Read` -/

/-- What a loop of `Read` leaves that has passed `n` bytes of the sequence -/
structure HasRead (devices : Devices) (xip : Bool) (mem : Memory) (r r' : Reading) (n : Nat) :
    Prop where
  moved : Moved devices r.stream r'.stream
  position : r'.stream.position devices = r.stream.position devices + n
  le : n ≤ (r.stream.rest devices).length
  buffer : xip = false → r'.buffer = r.buffer ++ ((r.stream.rest devices).take n).map mem

/-- **`Read` passes the bytes of the sequence from the position on.** -/
theorem readLoop_spec (xip : Bool) (mem : Memory) (fuel : Nat) :
    ∀ (r : Reading) (length : Nat), (∃ dev g x, Stands devices r.stream dev g x) →
      length ≤ fuel → Fits r.stream length →
      ∃ r' n ok, Stream.readLoop devices xip mem fuel r length = some (r', ok) ∧
        HasRead devices xip mem r r' n ∧ n ≤ length ∧ (ok = true ↔ n = length) ∧
        (false ∉ r.answers → ok = false → n = (r.stream.rest devices).length) := by
  induction fuel with
  | zero =>
    rintro r length ⟨dev, g, x, hs⟩ hfuel hfits
    obtain rfl := Nat.le_zero.mp hfuel
    unfold Stream.readLoop
    exact ⟨r, 0, true, if_pos rfl, ⟨hs.moved, rfl, Nat.zero_le _, by simp⟩, Nat.le_refl 0, by simp,
      by simp⟩
  | succ fuel ih =>
    rintro r length ⟨dev, g, x, hs⟩ hfuel hfits
    unfold Stream.readLoop
    by_cases hempty : length = 0
    · rw [if_pos hempty]
      exact ⟨r, 0, true, rfl, ⟨hs.moved, rfl, Nat.zero_le _, by simp⟩, Nat.zero_le _,
        ⟨fun _ => hempty.symm, fun _ => rfl⟩, by simp⟩
    rw [if_neg hempty]
    dsimp only
    rcases ready_spec hs with ⟨hready, hrest, -⟩ |
      ⟨s₁, dev₁, g₁, x₁, hready, hs₁, hmoved₁, hpos₁, hindex₁, hcases₁⟩
    · rw [hready]
      refine ⟨r, 0, false, rfl, ⟨hs.moved, rfl, Nat.zero_le _, by simp⟩, Nat.zero_le _,
        ⟨fun h => absurd h (by decide), fun h => absurd h.symm hempty⟩, fun _ _ => ?_⟩
      rw [hrest]
      rfl
    · rw [hready]
      dsimp only
      obtain ⟨hpos, hle, hle', hplaces, hs₂, hfits₂⟩ := piece_spec hs₁
        (Nat.pos_of_ne_zero hempty) (fits_ready hfits hindex₁ hcases₁) hindex₁
      have hrest₁ : s₁.rest devices = r.stream.rest devices := by
        rw [rest_of_position hmoved₁.usage (n := 0) hpos₁, List.drop_zero]
      generalize s₁.chunk length = m at *
      have hrest₂ : (s₁.advance m).rest devices = (r.stream.rest devices).drop m := by
        rw [← hrest₁]
        exact rest_of_position rfl (advance_position m)
      rw [hrest₁] at hle' hplaces
      -- the rest of the loop, from the reading after this piece on
      have hgo : ∀ r₂ : Reading, r₂.stream = s₁.advance m → (xip = false →
            r₂.buffer = r.buffer ++ ((r.stream.rest devices).take m).map mem) →
          (false ∉ r.answers → false ∉ r₂.answers) →
          ∃ r' n ok, Stream.readLoop devices xip mem fuel r₂ (length - m) = some (r', ok) ∧
            HasRead devices xip mem r r' n ∧ n ≤ length ∧ (ok = true ↔ n = length) ∧
            (false ∉ r.answers → ok = false → n = (r.stream.rest devices).length) := by
        intro r₂ hstream hbuffer hanswers
        obtain ⟨r', n, ok, heq, hread, hn, hok, hfails⟩ := ih r₂ (length - m)
          (by rw [hstream]; exact ⟨dev₁, g₁, x₁, hs₂⟩) (by omega) (by rw [hstream]; exact hfits₂)
        obtain ⟨hmoved, hposition, hn', hread⟩ := hread
        rw [hstream] at hmoved hposition
        rw [hstream, hrest₂] at hn' hread hfails
        rw [List.length_drop] at hn' hfails
        refine ⟨r', m + n, ok, heq, ⟨hmoved₁.trans ⟨hmoved.usage, hmoved.readModWrite,
          hmoved.stands⟩, ?_, by omega, fun hxip => ?_⟩, by omega, by rw [hok]; omega,
          fun hall hfalse => ?_⟩
        · rw [hposition, advance_position, hpos₁, Nat.add_assoc]
        · rw [hread hxip, hbuffer hxip, List.take_add, List.map_append, List.append_assoc]
        · have htail := hfails (hanswers hall) hfalse
          omega
      by_cases hxip : xip = true
      · rw [if_pos hxip]
        exact hgo _ rfl (fun hfalse => absurd (hxip.symm.trans hfalse) (by decide)) id
      rw [if_neg hxip]
      by_cases hanswer : r.answers.headD true = true
      · rw [if_pos hanswer]
        refine hgo _ rfl (fun _ => ?_) false_notMem_tail
        show r.buffer ++ (places _ _ m).map mem = _
        rw [hplaces]
      · rw [if_neg hanswer]
        exact ⟨_, 0, false, rfl, ⟨hmoved₁, hpos₁, Nat.zero_le _, by simp⟩, Nat.zero_le _,
          ⟨fun h => absurd h (by decide), fun h => absurd h.symm hempty⟩,
          fun hall _ => absurd (headD_of_notMem hall) hanswer⟩

theorem readIntoBuffer_spec (hs : Stands devices s dev g x) (mem : Memory) {length : Nat}
    (answers : List Bool) (hfits : Fits s length) :
    ∃ r n ok, s.readIntoBuffer devices mem length answers = some (r, ok) ∧
      HasRead devices s.xip mem ⟨s, [], none, answers⟩ r n ∧ n ≤ length ∧
      (ok = true ↔ n = length) ∧
      (false ∉ answers → ok = false → n = (s.rest devices).length) := by
  obtain ⟨r, n, ok, heq, hread, hn, hok, hfails⟩ := readLoop_spec dev.supportsXIP mem length
    ⟨s, [], none, answers⟩ length ⟨dev, g, x, hs⟩ (Nat.le_refl _) hfits
  unfold Stream.readIntoBuffer Stream.read
  rw [hs.tables.device]
  dsimp only
  rw [heq]
  dsimp only
  by_cases hxip : s.xip = true
  · rw [if_pos hxip]
    exact ⟨_, n, ok, rfl, ⟨hread.moved, hread.position, hread.le,
      fun hfalse => absurd (hxip.symm.trans hfalse) (by decide)⟩, hn, hok, hfails⟩
  · rw [if_neg hxip]
    exact ⟨r, n, ok, rfl, hs.xip ▸ hread, hn, hok, hfails⟩

theorem readIntoBuffer_inside (hs : Stands devices s dev g x) (hsize : Addressable devices)
    (mem : Memory) (hn : 0 < n)
    (hinside : s.currentIndex + n ≤ s.slot.length) (hanswers : s.xip = true ∨ false ∉ answers) :
    ∃ r, s.readIntoBuffer devices mem n answers = some (r, true) ∧ r.stream = s.advance n ∧
      r.buffer = mem.read s.slot.device s.currentAddress n ∧
      (s.xip = true ∨ false ∉ r.answers) := by
  have hlength := hs.tables.length_lt hsize
  obtain ⟨fuel, rfl⟩ := Nat.exists_eq_succ_of_ne_zero (Nat.ne_of_gt hn)
  have hready : s.ready devices = some s := if_neg (by omega)
  have hchunk : s.chunk (fuel + 1) = fuel + 1 := by
    rw [chunk_eq (by omega) hs.index]
    omega
  have hend : ∀ r : Reading, Stream.readLoop devices dev.supportsXIP mem fuel r 0 = some (r, true) := by
    intro r
    unfold Stream.readLoop
    exact if_pos rfl
  unfold Stream.readIntoBuffer Stream.read
  rw [hs.tables.device]
  dsimp only
  unfold Stream.readLoop
  rw [if_neg (by omega)]
  dsimp only
  rw [hready]
  dsimp only
  rw [hchunk, Nat.sub_self]
  by_cases hxip : s.xip = true
  · rw [if_pos (hs.xip ▸ hxip), hend]
    dsimp only
    rw [if_pos hxip]
    exact ⟨_, rfl, rfl, rfl, Or.inl hxip⟩
  · have hall := hanswers.resolve_left hxip
    rw [if_neg (hs.xip ▸ hxip), if_pos (headD_of_notMem hall), hend]
    dsimp only
    rw [if_neg hxip]
    exact ⟨_, rfl, rfl, rfl, Or.inr (false_notMem_tail hall)⟩

end Access

end TinyClr.BlockStorage
