import TinyClr.Pal.BlockStorageTables

/-!
# Positions of a stream

A stream is at one position of the byte sequence that the ranges of its usage form.  `Seek` finds a
position inside the sequence wherever it lies, and otherwise fails; it stays where it is then as
long as the first step out of its range fails already.
-/

namespace TinyClr.BlockStorage

open TinyClr.Library

/-! ### The sequence -/

def lengthOf (ss : List Slot) : Nat := (ss.map Slot.length).sum

/-- The bytes of the ranges of a usage in the order of the tables -/
def bytes (devices : Devices) (usage : Nat) : List Place :=
  (slots devices usage).flatMap Slot.places

def total (devices : Devices) (usage : Nat) : Nat := lengthOf (slots devices usage)

/-- Where the range of a stream begins in the sequence -/
def Stream.start (devices : Devices) (s : Stream) : Nat :=
  lengthOf (slotsBefore devices s.usage s.slot)

/-- Where a stream is in the sequence -/
def Stream.position (devices : Devices) (s : Stream) : Nat := s.start devices + s.currentIndex

/-- All ranges are shorter than 2 GiB. -/
def Addressable (devices : Devices) : Prop :=
  ∀ dev ∈ devices, ∀ g ∈ dev.regions, ∀ x ∈ g.blockRanges,
    x.getBlockCount * g.bytesPerBlock < 2 ^ 31

@[simp] theorem lengthOf_nil : lengthOf [] = 0 := rfl

@[simp] theorem lengthOf_cons (slot : Slot) (ss : List Slot) :
    lengthOf (slot :: ss) = slot.length + lengthOf ss := List.sum_cons

@[simp] theorem lengthOf_append (ss ss' : List Slot) :
    lengthOf (ss ++ ss') = lengthOf ss + lengthOf ss' := by
  rw [lengthOf, List.map_append, List.sum_append]
  rfl

theorem length_flatMap_places (ss : List Slot) :
    (ss.flatMap Slot.places).length = lengthOf ss := by
  induction ss with
  | nil => rfl
  | cons slot ss ih =>
    rw [List.flatMap_cons, List.length_append, ih, lengthOf_cons, Slot.places, places,
      List.length_map, List.length_range]

theorem reduceOption_indexed {α β : Type*} (f : Nat → α → List (Option β)) (l : List α) (n : Nat) :
    (indexed f l n).reduceOption = indexed (fun n x => (f n x).reduceOption) l n := by
  induction l generalizing n with
  | nil => rfl
  | cons x xs ih => rw [indexed, List.reduceOption_append, ih, indexed]

theorem length_rangeSlots (usage d r : Nat) (g : BlockRegionInfo) :
    (indexed (rangeEntries usage d r g) g.blockRanges 0).reduceOption.length ≤
      g.blockRanges.length := by
  have hone : ∀ k x, ((rangeEntries usage d r g k x).reduceOption).length ≤ 1 := by
    intro k x
    unfold rangeEntries
    split <;> exact Nat.le_of_ble_eq_true rfl
  have hle := length_indexed_le _ (fun _ => 1) hone g.blockRanges 0
  rw [← reduceOption_indexed] at hle
  simpa using hle

theorem length_slots (devices : Devices) (usage : Nat) :
    (slots devices usage).length ≤ Stream.rangeCount devices := by
  rw [slots, entries, reduceOption_indexed]
  refine length_indexed_le _ _ (fun d dev => ?_) devices 0
  rw [reduceOption_deviceEntries, reduceOption_indexed]
  refine length_indexed_le _ _ (fun r g => ?_) dev.regions 0
  rw [reduceOption_regionEntries]
  exact length_rangeSlots usage d r g

section Seek

variable {devices : Devices} {s : Stream} {slot : Slot} {usage : Nat} {dev : BlockStorageDevice}
  {g : BlockRegionInfo} {x : BlockRange}

theorem InTables.length_eq (h : InTables devices usage slot dev g x) :
    slot.length = x.getBlockCount * g.bytesPerBlock := by
  rw [h.slot]
  rfl

theorem InTables.blockLength_eq (h : InTables devices usage slot dev g x) :
    slot.blockLength = g.bytesPerBlock := by
  rw [h.slot]
  rfl

theorem InTables.length_pos (h : InTables devices usage slot dev g x) : 0 < slot.length := by
  rw [h.length_eq]
  exact Nat.mul_pos (Nat.succ_pos _) g.pos

theorem InTables.blockLength_pos (h : InTables devices usage slot dev g x) :
    0 < slot.blockLength := by
  rw [h.blockLength_eq]
  exact g.pos

theorem InTables.blockLength_dvd (h : InTables devices usage slot dev g x) :
    slot.blockLength ∣ slot.length := by
  rw [h.blockLength_eq, h.length_eq]
  exact Nat.dvd_mul_left _ _

theorem InTables.length_lt (h : InTables devices usage slot dev g x) (hsize : Addressable devices) :
    slot.length < 2 ^ 31 := by
  rw [h.length_eq]
  exact hsize dev (List.mem_of_getElem? h.device) g (List.mem_of_getElem? h.region) x
    (List.mem_of_getElem? h.range)

theorem InTables.blockLength_le (h : InTables devices usage slot dev g x) :
    slot.blockLength ≤ slot.length := Nat.le_of_dvd h.length_pos h.blockLength_dvd

theorem total_eq (h : InTables devices s.usage s.slot dev g x) :
    total devices s.usage =
      s.start devices + s.slot.length + lengthOf (slotsAfter devices s.usage s.slot) := by
  rw [total, h.slots_eq, lengthOf_append, lengthOf_cons, Nat.add_assoc]
  rfl

theorem count_eq (h : InTables devices s.usage s.slot dev g x) :
    (slots devices s.usage).length = (slotsBefore devices s.usage s.slot).length + 1 +
      (slotsAfter devices s.usage s.slot).length := by
  rw [h.slots_eq, List.length_append, List.length_cons]
  omega

structure Moved (devices : Devices) (s s' : Stream) : Prop where
  usage : s'.usage = s.usage
  readModWrite : s'.readModWrite = s.readModWrite
  stands : ∃ dev g x, Stands devices s' dev g x

theorem Moved.trans {s₁ s₂ s₃ : Stream} (h : Moved devices s₁ s₂) (h' : Moved devices s₂ s₃) :
    Moved devices s₁ s₃ :=
  ⟨h'.usage.trans h.usage, h'.readModWrite.trans h.readModWrite, h'.stands⟩

theorem moved_enter (h : InTables devices s.usage slot dev g x) :
    Moved devices s (s.enter slot dev.supportsXIP) := ⟨rfl, rfl, dev, g, x, Stands.enter h⟩

theorem Stands.moved (hs : Stands devices s dev g x) : Moved devices s s :=
  ⟨rfl, rfl, dev, g, x, hs⟩

/-- The range that the position lies in, from a range before it or from that range itself -/
theorem seekForward_spec (hsize : Addressable devices) (after : List Slot) :
    ∀ (fuel : Nat) (s : Stream) (i : Int), (∃ dev g x, Stands devices s dev g x) →
      slotsAfter devices s.usage s.slot = after → after.length < fuel → 0 ≤ i → i < 2 ^ 31 →
      s.start devices + i < total devices s.usage →
      ∃ s' j, s.seekForward devices fuel i = some (s', j, true) ∧ Moved devices s s' ∧ 0 ≤ j ∧
        j < s'.slot.length ∧ s'.start devices + j = s.start devices + i := by
  induction after with
  | nil =>
    rintro fuel s i ⟨dev, g, x, hs⟩ hafter hfuel hi hi' htotal
    rw [total_eq hs.tables, hafter, lengthOf_nil] at htotal
    have hlength := hs.tables.length_lt hsize
    refine ⟨s, i, ?_, hs.moved, hi, by omega, rfl⟩
    unfold Stream.seekForward
    rw [int32_eq_self (by omega) (by omega), if_neg (by omega)]
  | cons slot after ih =>
    rintro fuel s i ⟨dev, g, x, hs⟩ hafter hfuel hi hi' htotal
    have hlength := hs.tables.length_lt hsize
    unfold Stream.seekForward
    rw [int32_eq_self (by omega) (by omega)]
    by_cases hinside : i ≥ s.slot.length
    · obtain ⟨fuel, rfl⟩ := Nat.exists_eq_succ_of_ne_zero (Nat.ne_of_gt (Nat.zero_lt_of_lt hfuel))
      rw [if_pos hinside]
      dsimp only
      rw [int32_eq_self (by omega) (by omega)]
      rcases hnext : s.nextStream devices with _ | s₁
      · have hend := nextStream_none hs hnext
        rw [hafter] at hend
        exact absurd hend (by simp)
      · obtain ⟨slot', dev', g', x', rfl, htables, hafter', hbefore⟩ := nextStream_some hs hnext
        rw [hafter] at hafter'
        obtain ⟨rfl, rfl⟩ := List.cons.inj hafter'
        have hstart : (s.enter slot dev'.supportsXIP).start devices =
            s.start devices + s.slot.length := by
          show lengthOf (slotsBefore devices s.usage slot) = _
          rw [hbefore, lengthOf_append, lengthOf_cons, lengthOf_nil, Nat.add_zero]
          rfl
        obtain ⟨s', j, heq, hmoved, hj, hj', hpos⟩ := ih fuel (s.enter slot dev'.supportsXIP)
          (i - s.slot.length) ⟨dev', g', x', .enter htables⟩ rfl (Nat.lt_of_succ_lt_succ hfuel)
          (by omega) (by omega) (by rw [hstart]; show _ < (total devices s.usage : Int); omega)
        exact ⟨s', j, heq, (moved_enter htables).trans hmoved, hj, hj', by omega⟩
    · rw [if_neg hinside]
      exact ⟨s, i, rfl, hs.moved, hi, by omega, rfl⟩

variable {i : Int}

theorem seekForward_last (hsize : Addressable devices) (hs : Stands devices s dev g x) {fuel : Nat}
    (hfuel : 0 < fuel) (hlast : s.start devices + s.slot.length = total devices s.usage)
    (hi : s.slot.length ≤ i) :
    ∃ j, s.seekForward devices fuel i = some (s, j, false) := by
  obtain ⟨fuel, rfl⟩ := Nat.exists_eq_succ_of_ne_zero (Nat.ne_of_gt hfuel)
  have hlength := hs.tables.length_lt hsize
  unfold Stream.seekForward
  rw [int32_eq_self (by omega) (by omega), if_pos hi]
  dsimp only
  rcases hnext : s.nextStream devices with _ | s₁
  · exact ⟨_, rfl⟩
  · obtain ⟨slot', dev', g', x', -, htables, hafter, -⟩ := nextStream_some hs hnext
    have htotal := total_eq hs.tables
    have hpos := htables.length_pos
    rw [hafter, lengthOf_cons] at htotal
    omega

/-- No empty table lies before a range and behind the position. -/
def NoHole (devices : Devices) (usage : Nat) (slot : Slot) (target : Int) : Prop :=
  ∀ es es', entriesBefore devices usage slot = es ++ none :: es' →
    (lengthOf es.reduceOption : Int) ≤ target

/-- The ranges before a range that do not end before the position carry the usage itself, which is
    not `ANY`. -/
def SameUsage (devices : Devices) (usage : Nat) (slot : Slot) (target : Int) : Prop :=
  ∀ es slot' es', entriesBefore devices usage slot = es ++ some slot' :: es' →
    target < lengthOf es.reduceOption + slot'.length → slot'.usage = usage

theorem seekBackward_spec (hsize : Addressable devices) (n : Nat) :
    ∀ (fuel : Nat) (s : Stream) (i : Int), (∃ dev g x, Stands devices s dev g x) →
      (entriesBefore devices s.usage s.slot).length = n →
      (slotsBefore devices s.usage s.slot).length < fuel → i < s.slot.length → -2 ^ 31 ≤ i →
      NoHole devices s.usage s.slot (s.start devices + i) →
      SameUsage devices s.usage s.slot (s.start devices + i) → 0 ≤ s.start devices + i →
      ∃ s' j, s.seekBackward devices fuel i = some (s', j, true) ∧ Moved devices s s' ∧ 0 ≤ j ∧
        j < s'.slot.length ∧ s'.start devices + j = s.start devices + i := by
  induction n with
  | zero =>
    rintro fuel s i ⟨dev, g, x, hs⟩ hlength hfuel hi hi' - - htarget
    have hstart : s.start devices = 0 := by
      rw [Stream.start, slotsBefore, List.length_eq_zero_iff.mp hlength]
      rfl
    unfold Stream.seekBackward
    rw [if_neg (by omega)]
    exact ⟨s, i, rfl, hs.moved, by omega, hi, rfl⟩
  | succ n ih =>
    rintro fuel s i ⟨dev, g, x, hs⟩ hlength hfuel hi hi' hhole husage htarget
    unfold Stream.seekBackward
    by_cases hneg : i < 0
    · obtain ⟨fuel, rfl⟩ := Nat.exists_eq_succ_of_ne_zero (Nat.ne_of_gt (Nat.zero_lt_of_lt hfuel))
      rw [if_pos hneg]
      dsimp only
      rcases List.eq_nil_or_concat (entriesBefore devices s.usage s.slot) with
        hnil | ⟨es, last, hconcat⟩
      · rw [hnil] at hlength
        exact absurd hlength (by simp)
      rw [List.concat_eq_append] at hconcat
      have hstart : s.start devices = lengthOf (es ++ [last]).reduceOption := by
        rw [← hconcat]
        rfl
      rw [List.reduceOption_append, lengthOf_append] at hstart
      cases last with
      | none =>
        -- the position lies behind the empty table, so the range holds it
        have hle := hhole es [] hconcat
        have hzero : lengthOf [(none : Option Slot)].reduceOption = 0 := rfl
        omega
      | some slot =>
        have hone : lengthOf [some slot].reduceOption = slot.length := Nat.add_zero _
        rw [hone] at hstart
        obtain ⟨dev', g', x', hprev, htables, hbefore⟩ := (prevStream_spec hs).2 es slot hconcat
          (husage es slot [] hconcat (by omega))
        have hstart' : (s.enter slot dev'.supportsXIP).start devices = lengthOf es.reduceOption := by
          show lengthOf (entriesBefore devices s.usage slot).reduceOption = _
          rw [hbefore]
        have hslot := htables.length_lt hsize
        have hsum : (s.enter slot dev'.supportsXIP).start devices + (i + slot.length) =
            s.start devices + i := by
          rw [hstart', hstart]
          omega
        have hlength' : (entriesBefore devices s.usage slot).length = n := by
          rw [hconcat, List.length_append] at hlength
          rw [hbefore]
          exact Nat.succ.inj hlength
        have hfuel' : (slotsBefore devices s.usage slot).length < fuel := by
          rw [slotsBefore, hconcat, List.reduceOption_append, List.length_append] at hfuel
          rw [slotsBefore, hbefore]
          exact Nat.lt_of_succ_lt_succ hfuel
        have hhole' : NoHole devices s.usage slot (s.start devices + i) := by
          intro es₁ es₂ hsplit
          have hes : es = es₁ ++ none :: es₂ := hbefore.symm.trans hsplit
          refine hhole es₁ (es₂ ++ [some slot]) ?_
          rw [hconcat, hes, List.append_assoc, List.cons_append]
        have husage' : SameUsage devices s.usage slot (s.start devices + i) := by
          intro es₁ slot' es₂ hsplit hlt
          have hes : es = es₁ ++ some slot' :: es₂ := hbefore.symm.trans hsplit
          refine husage es₁ slot' (es₂ ++ [some slot]) ?_ hlt
          rw [hconcat, hes, List.append_assoc, List.cons_append]
        obtain ⟨s', j, heq, hmoved, hj, hj', hpos⟩ := ih fuel (s.enter slot dev'.supportsXIP)
          (i + slot.length) ⟨dev', g', x', .enter htables⟩ hlength' hfuel'
          (by show _ < (slot.length : Int); omega) (by omega) (by rw [hsum]; exact hhole')
          (by rw [hsum]; exact husage') (by rw [hsum]; exact htarget)
        have hstep : int32 (i + slot.length) = i + slot.length :=
          int32_eq_self (by omega) (by omega)
        rw [hprev]
        refine ⟨s', j, ?_, (moved_enter htables).trans hmoved, hj, hj', hpos.trans hsum⟩
        exact (congrArg (Stream.seekBackward devices fuel _) hstep).trans heq
    · rw [if_neg hneg]
      exact ⟨s, i, rfl, hs.moved, by omega, hi, rfl⟩

theorem seekForward_end (hsize : Addressable devices) (hs : Stands devices s dev g x) (fuel : Nat) :
    s.seekForward devices (fuel + 1) (s.slot.length : Nat) =
      match s.nextStream devices with
      | none => some (s, 0, false)
      | some s => s.seekForward devices fuel 0 := by
  have hlength := hs.tables.length_lt hsize
  conv_lhs => unfold Stream.seekForward
  rw [int32_eq_self (by omega) (by omega), if_pos (Int.le_refl _), Int.sub_self]
  rfl

theorem seekBackward_first (hs : Stands devices s dev g x) {fuel : Nat} (hfuel : 0 < fuel)
    (hi : i < 0) (hfirst : s.start devices = 0)
    (hhole : NoHole devices s.usage s.slot (s.start devices + i))
    (husage : SameUsage devices s.usage s.slot (s.start devices + i)) :
    s.seekBackward devices fuel i = some (s, i, false) := by
  obtain ⟨fuel, rfl⟩ := Nat.exists_eq_succ_of_ne_zero (Nat.ne_of_gt hfuel)
  have hnil : entriesBefore devices s.usage s.slot = [] := by
    rcases List.eq_nil_or_concat (entriesBefore devices s.usage s.slot) with
      hnil | ⟨es, last, hconcat⟩
    · exact hnil
    rw [List.concat_eq_append] at hconcat
    cases last with
    | none =>
      have hle := hhole es [] hconcat
      omega
    | some slot =>
      obtain ⟨dev', g', x', -, htables, -⟩ := (prevStream_spec hs).2 es slot hconcat
        (husage es slot [] hconcat (by omega))
      have hpos := htables.length_pos
      rw [Stream.start, slotsBefore, hconcat, List.reduceOption_append, lengthOf_append,
        List.reduceOption_cons_of_some, lengthOf_cons] at hfirst
      omega
  unfold Stream.seekBackward
  rw [if_pos hi, (prevStream_spec hs).1 hnil]

/-! ### `Seek` -/

/-- The index that `Seek` is asked for, counted from the beginning of the range -/
def Stream.seekIndex (s : Stream) (offset : Int32) (origin : SeekOrigin) : Int :=
  s.seekFrom origin + s.seekOffset offset origin

/-- The position that `Seek` is asked for -/
def Stream.target (devices : Devices) (s : Stream) (offset : Int32) (origin : SeekOrigin) : Int :=
  s.start devices + s.seekIndex offset origin

/-- The index is one of 32 bits.  Behind its range a stream looks for a position inside the sequence
    only, unless it stands in the last range; before its range for one that is inside, unless it
    stands in the first range, and it comes across neither an empty table nor a range that it covers
    but whose usage is not its own. -/
structure SeekProper (devices : Devices) (s : Stream) (offset : Int32) (origin : SeekOrigin) :
    Prop where
  low : -2 ^ 31 ≤ s.seekIndex offset origin
  high : s.seekIndex offset origin < 2 ^ 31
  forward : s.slot.length ≤ s.seekIndex offset origin →
    s.target devices offset origin < total devices s.usage ∨
      s.start devices + s.slot.length = total devices s.usage
  backward : s.seekIndex offset origin < 0 →
    (0 ≤ s.target devices offset origin ∨ s.start devices = 0) ∧
      NoHole devices s.usage s.slot (s.target devices offset origin) ∧
      SameUsage devices s.usage s.slot (s.target devices offset origin)

theorem Stands.setIndex {j : Nat} (hs : Stands devices s dev g x) (hj : j ≤ s.slot.length) :
    Stands devices { s with currentIndex := j } dev g x := ⟨hs.tables, hj, hs.xip⟩

theorem Moved.setIndex {s' : Stream} {j : Int} (h : Moved devices s s') (hj : 0 ≤ j)
    (hj' : j < s'.slot.length) (hsize : Addressable devices) :
    Moved devices s { s' with currentIndex := uint32 j } ∧
      (Stream.position devices { s' with currentIndex := uint32 j } : Int) =
        s'.start devices + j := by
  obtain ⟨dev, g, x, hs⟩ := h.stands
  have hlength := hs.tables.length_lt hsize
  rw [uint32_eq_toNat hj (by omega)]
  refine ⟨⟨h.usage, h.readModWrite, dev, g, x, hs.setIndex (by omega)⟩, ?_⟩
  show ((s'.start devices + j.toNat : Nat) : Int) = _
  omega

theorem seekBackward_nonneg (fuel : Nat) (hi : 0 ≤ i) :
    s.seekBackward devices fuel i = some (s, i, true) := by
  unfold Stream.seekBackward
  exact if_neg (by omega)

theorem seekForward_below (hsize : Addressable devices) (hs : Stands devices s dev g x) (fuel : Nat)
    (hi : i < s.slot.length) : s.seekForward devices fuel i = some (s, i, true) := by
  have hlength := hs.tables.length_lt hsize
  unfold Stream.seekForward
  rw [int32_eq_self (by omega) (by omega)]
  exact if_neg (by omega)

theorem int32_add {a b : Int} (ha : 0 ≤ a) (ha' : a < 2 ^ 31) (hlow : -2 ^ 31 ≤ a + b)
    (hhigh : a + b < 2 ^ 31) : int32 (int32 a + b) = a + b := by
  rw [int32_eq_self (x := a) (by omega) ha']
  exact int32_eq_self hlow hhigh

/-- **`Seek` goes to a position inside the sequence, and stays where it is for one outside.** -/
theorem seek_spec (hsize : Addressable devices) (hs : Stands devices s dev g x) {offset : Int32}
    {origin : SeekOrigin} (h : SeekProper devices s offset origin) :
    (0 ≤ s.target devices offset origin → s.target devices offset origin < total devices s.usage →
      ∃ s', s.seek devices offset origin = some (s', true) ∧ Moved devices s s' ∧
        (s'.position devices : Int) = s.target devices offset origin) ∧
    (¬ (0 ≤ s.target devices offset origin ∧
        s.target devices offset origin < total devices s.usage) →
      s.seek devices offset origin = some (s, false)) := by
  have hlength := hs.tables.length_lt hsize
  have hindex := hs.index
  have hcount := count_eq hs.tables
  have hfuel := length_slots devices s.usage
  have htotal := total_eq hs.tables
  have hfrom : s.seekFrom origin ≤ s.slot.length := by
    cases origin <;> simp only [Stream.seekFrom] <;> omega
  have hlow := h.low
  have hhigh := h.high
  have hstart : int32 (int32 (s.seekFrom origin) + s.seekOffset offset origin) =
      s.seekIndex offset origin :=
    int32_add (Int.natCast_nonneg _) (by omega) h.low h.high
  have htarget : s.target devices offset origin = s.start devices + s.seekIndex offset origin := rfl
  have hseek : s.seek devices offset origin = s.seekTo devices (s.seekIndex offset origin) :=
    congrArg (s.seekTo devices) hstart
  rw [hseek]
  have hbackward := h.backward
  have hforward := h.forward
  rw [htarget] at hbackward hforward ⊢
  generalize s.seekIndex offset origin = i at *
  clear hstart htarget hseek
  unfold Stream.seekTo
  by_cases hend : s.slot.length ≤ i
  · by_cases hinside : s.start devices + i < total devices s.usage
    · obtain ⟨s', j, heq, hmoved, hj, hj', hpos⟩ := seekForward_spec hsize _
        (Stream.rangeCount devices + 1) s i ⟨dev, g, x, hs⟩ rfl (by omega) (by omega) hhigh hinside
      refine ⟨fun _ _ => ?_, fun hout => absurd ⟨by omega, hinside⟩ hout⟩
      obtain ⟨hmoved', hpos'⟩ := hmoved.setIndex hj hj' hsize
      rw [heq]
      dsimp only
      rw [seekBackward_nonneg _ hj]
      exact ⟨_, rfl, hmoved', hpos'.trans hpos⟩
    · obtain ⟨j, heq⟩ := seekForward_last hsize hs (Nat.succ_pos (Stream.rangeCount devices))
        ((hforward hend).resolve_left hinside) hend
      refine ⟨fun _ hin => absurd hin hinside, fun _ => ?_⟩
      rw [heq]
  · rw [seekForward_below hsize hs _ (Int.not_le.mp hend)]
    dsimp only
    by_cases hneg : i < 0
    · obtain ⟨hedge, hhole, husage⟩ := hbackward hneg
      by_cases hinside : 0 ≤ s.start devices + i
      · obtain ⟨s', j, heq, hmoved, hj, hj', hpos⟩ := seekBackward_spec hsize _
          (Stream.rangeCount devices + 1) s i ⟨dev, g, x, hs⟩ rfl (by omega) (by omega) hlow hhole
          husage hinside
        refine ⟨fun _ _ => ?_, fun hout => absurd ⟨hinside, by omega⟩ hout⟩
        obtain ⟨hmoved', hpos'⟩ := hmoved.setIndex hj hj' hsize
        rw [heq]
        exact ⟨_, rfl, hmoved', hpos'.trans hpos⟩
      · refine ⟨fun hin => absurd hin hinside, fun _ => ?_⟩
        rw [seekBackward_first hs (Nat.succ_pos _) hneg (hedge.resolve_left hinside) hhole husage]
    · obtain ⟨hmoved', hpos'⟩ := hs.moved.setIndex (j := i) (by omega) (by omega) hsize
      rw [seekBackward_nonneg _ (by omega)]
      refine ⟨fun _ _ => ⟨_, rfl, hmoved', hpos'⟩, fun hout => absurd ⟨by omega, by omega⟩ hout⟩

end Seek

end TinyClr.BlockStorage
