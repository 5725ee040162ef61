import Mathlib.Data.List.Pairwise
import TinyClr.Pal.BlockStorageAccess

/-!
# `Erase` and `IsErased` of a stream

`Erase` goes from block to block of the sequence and returns to where the stream was.  `IsErased`
looks at the bytes from the position on, as long as they lie in the range of the stream.
-/

namespace TinyClr.BlockStorage

open TinyClr.Library

/-! ### Blocks of the sequence -/

def Devices.erasedAt (devices : Devices) (p : Place) : UInt8 :=
  match devices[p.device]? with
  | none => 0xFF
  | some dev => dev.erasedValue

def Devices.eraseAll (devices : Devices) (mem : Memory) (ps : List Place) : Memory := fun p =>
  if p ∈ ps then devices.erasedAt p else mem p

def IsBlock (devices : Devices) (b : List Place) : Prop :=
  ∃ d dev g n, devices[d]? = some dev ∧ g ∈ dev.regions ∧ n < g.numBlocks ∧
    b = places d (g.blockAddress n) g.bytesPerBlock

/-- As many of the blocks as it takes to cover a length -/
def covering : Nat → List (List Place) → List (List Place)
  | _, [] => []
  | 0, _ => []
  | len + 1, b :: bs => b :: covering (len + 1 - b.length) bs

def blockAt (slot : Slot) (k : Nat) : List Place :=
  places slot.device (slot.baseAddress + k * slot.blockLength) slot.blockLength

def slotBlocks (slot : Slot) (k : Nat) : List (List Place) :=
  (List.range (slot.length / slot.blockLength - k)).map fun i => blockAt slot (k + i)

def Stream.blocks (devices : Devices) (s : Stream) : List (List Place) :=
  slotBlocks s.slot (s.currentIndex / s.slot.blockLength) ++
    (slotsAfter devices s.usage s.slot).flatMap fun slot => slotBlocks slot 0

theorem eraseAll_append (devices : Devices) (mem : Memory) (ps qs : List Place) :
    devices.eraseAll (devices.eraseAll mem ps) qs = devices.eraseAll mem (ps ++ qs) := by
  funext p
  simp only [Devices.eraseAll, List.mem_append]
  by_cases hq : p ∈ qs
  · rw [if_pos hq, if_pos (Or.inr hq)]
  · rw [if_neg hq]
    by_cases hp : p ∈ ps
    · rw [if_pos hp, if_pos (Or.inl hp)]
    · rw [if_neg hp, if_neg (not_or.mpr ⟨hp, hq⟩)]

theorem eraseAll_nil (devices : Devices) (mem : Memory) : devices.eraseAll mem [] = mem := by
  funext p
  exact if_neg List.not_mem_nil

theorem covering_zero (bs : List (List Place)) : covering 0 bs = [] := by
  cases bs <;> rfl

theorem covering_cons {len : Nat} (hlen : 0 < len) (b : List Place) (bs : List (List Place)) :
    covering len (b :: bs) = b :: covering (len - b.length) bs := by
  obtain ⟨len, rfl⟩ := Nat.exists_eq_succ_of_ne_zero (Nat.ne_of_gt hlen)
  rfl

variable {k : Nat}

theorem slotBlocks_cons {slot : Slot} (hk : k < slot.length / slot.blockLength) :
    slotBlocks slot k = blockAt slot k :: slotBlocks slot (k + 1) := by
  obtain ⟨n, hn⟩ := Nat.exists_eq_add_of_lt hk
  have hcount : slot.length / slot.blockLength - k = n + 1 := by omega
  have hcount' : slot.length / slot.blockLength - (k + 1) = n := by omega
  rw [slotBlocks, slotBlocks, hcount, hcount', List.range_succ_eq_map, List.map_cons, List.map_map]
  congr 1
  refine List.map_congr_left fun i _ => ?_
  rw [Function.comp_apply, Nat.succ_eq_add_one, Nat.add_assoc, Nat.add_comm 1 i]

theorem slotBlocks_nil {slot : Slot} (hk : slot.length / slot.blockLength ≤ k) :
    slotBlocks slot k = [] := by
  rw [slotBlocks, Nat.sub_eq_zero_of_le hk]
  rfl

theorem flatten_blocks (d address n m : Nat) :
    ((List.range n).map fun i => places d (address + i * m) m).flatten =
      places d address (n * m) := by
  induction n with
  | zero => simp [places]
  | succ n ih =>
    rw [List.range_succ, List.map_append, List.flatten_append, ih, Nat.succ_mul, places_append]
    simp

theorem flatten_slotBlocks {slot : Slot} (hdvd : slot.blockLength ∣ slot.length) (k : Nat) :
    (slotBlocks slot k).flatten = slot.places.drop (k * slot.blockLength) := by
  have hlength : slot.length / slot.blockLength * slot.blockLength = slot.length :=
    Nat.div_mul_cancel hdvd
  have hmap : slotBlocks slot k = (List.range (slot.length / slot.blockLength - k)).map fun i =>
      places slot.device (slot.baseAddress + k * slot.blockLength + i * slot.blockLength)
        slot.blockLength := by
    refine List.map_congr_left fun i _ => ?_
    rw [blockAt, Nat.add_mul, Nat.add_assoc]
  rw [hmap, flatten_blocks, Nat.sub_mul, hlength]
  by_cases hk : k * slot.blockLength ≤ slot.length
  · exact (drop_places _ _ hk).symm
  · rw [Nat.sub_eq_zero_of_le (by omega), List.drop_eq_nil_of_le]
    · rfl
    · rw [Slot.places, length_places]
      omega

section Erase

variable {devices : Devices} {s : Stream} {slot : Slot} {usage : Nat} {dev : BlockStorageDevice}
  {g : BlockRegionInfo} {x : BlockRange}

theorem InTables.baseAddress_eq (h : InTables devices usage slot dev g x) :
    slot.baseAddress = g.start + x.startBlock * g.bytesPerBlock := by
  rw [h.slot]
  rfl

theorem InTables.isBlock (h : InTables devices usage slot dev g x)
    (hk : k < slot.length / slot.blockLength) : IsBlock devices (blockAt slot k) := by
  have hinside := g.inside x (List.mem_of_getElem? h.range)
  have hcount : slot.length / slot.blockLength = x.getBlockCount := by
    rw [h.length_eq, h.blockLength_eq]
    exact Nat.mul_div_cancel _ g.pos
  have hle := x.le
  rw [hcount, BlockRange.getBlockCount] at hk
  refine ⟨slot.device, dev, g, x.startBlock + k, h.device, List.mem_of_getElem? h.region, by omega, ?_⟩
  rw [blockAt, h.baseAddress_eq, h.blockLength_eq, BlockRegionInfo.blockAddress, Nat.add_mul,
    Nat.add_assoc]

theorem InTables.after (h : InTables devices usage slot dev g x) {slot' : Slot}
    (hmem : slot' ∈ slotsAfter devices usage slot) :
    ∃ dev' g' x', InTables devices usage slot' dev' g' x' := by
  refine inTables_of_mem ?_
  rw [h.slots_eq]
  exact List.mem_append_right _ (List.mem_cons_of_mem _ hmem)

theorem blockIndex_lt (hs : Stands devices s dev g x) (hindex : s.currentIndex < s.slot.length) :
    s.currentIndex / s.slot.blockLength < s.slot.length / s.slot.blockLength :=
  Nat.div_lt_div_of_lt_of_dvd hs.tables.blockLength_dvd hindex

theorem isBlock_of_mem (hs : Stands devices s dev g x) {b : List Place}
    (hb : b ∈ s.blocks devices) : IsBlock devices b := by
  have hslot : ∀ {slot dev g x k}, InTables devices s.usage slot dev g x → b ∈ slotBlocks slot k →
      IsBlock devices b := by
    intro slot dev g x k htables hb
    obtain ⟨i, hi, rfl⟩ := List.mem_map.mp hb
    exact htables.isBlock (by have := List.mem_range.mp hi; omega)
  rcases List.mem_append.mp hb with hb | hb
  · exact hslot hs.tables hb
  · obtain ⟨slot', hmem, hb⟩ := List.mem_flatMap.mp hb
    obtain ⟨dev', g', x', htables⟩ := hs.tables.after hmem
    exact hslot htables hb

/-- **The blocks are the sequence** from the beginning of the block on in which the stream is. -/
theorem flatten_streamBlocks (hs : Stands devices s dev g x) :
    (s.blocks devices).flatten = (bytes devices s.usage).drop
      (s.position devices - s.currentIndex % s.slot.blockLength) := by
  have hafter : ((slotsAfter devices s.usage s.slot).flatMap fun slot =>
      slotBlocks slot 0).flatten =
      (slotsAfter devices s.usage s.slot).flatMap Slot.places := by
    rw [List.flatMap_def, List.flatMap_def, List.flatten_flatten, List.map_map]
    congr 1
    refine List.map_congr_left fun slot' hmem => ?_
    obtain ⟨dev', g', x', htables⟩ := hs.tables.after hmem
    rw [Function.comp_apply, flatten_slotBlocks htables.blockLength_dvd, Nat.zero_mul,
      List.drop_zero]
  have hround : s.currentIndex / s.slot.blockLength * s.slot.blockLength =
      s.currentIndex - s.currentIndex % s.slot.blockLength := by
    have hdiv := Nat.div_add_mod s.currentIndex s.slot.blockLength
    rw [Nat.mul_comm] at hdiv
    omega
  have hle : s.currentIndex - s.currentIndex % s.slot.blockLength ≤ s.slot.places.length := by
    rw [Slot.places, length_places]
    exact Nat.le_trans (Nat.sub_le _ _) hs.index
  have hmod := Nat.mod_le s.currentIndex s.slot.blockLength
  rw [Stream.blocks, List.flatten_append, hafter, flatten_slotBlocks hs.tables.blockLength_dvd,
    hround, bytes, hs.tables.slots_eq, List.flatMap_append, List.flatMap_cons, Stream.position,
    Stream.start, Nat.add_sub_assoc hmod, ← length_flatMap_places, List.drop_append,
    List.drop_eq_nil_of_le (Nat.le_add_right _ _), Nat.add_sub_cancel_left, List.nil_append,
    List.drop_append_of_le_length hle]

/-! ### The block of an address -/

theorem findBlock_eq {a : Nat} (hg : g ∈ dev.regions) (hlow : g.start ≤ a)
    (hhigh : a < g.start + g.size) :
    dev.findBlock a = some (g.blockAddress (g.blockIndexFromAddress a), g.bytesPerBlock) := by
  have hholds : (g.start ≤ a && a < g.start + g.size) = true := by
    simp [hlow, hhigh]
  have hsome : (dev.regions.find? fun g => g.start ≤ a && a < g.start + g.size).isSome = true :=
    List.find?_isSome.mpr ⟨g, hg, hholds⟩
  obtain ⟨g', hfind⟩ := Option.isSome_iff_exists.mp hsome
  have hholds' := List.find?_some hfind
  simp only [Bool.and_eq_true, decide_eq_true_eq] at hholds'
  have hsame : g' = g := by
    by_contra hne
    have : Std.Symm BlockRegionInfo.Apart := ⟨fun _ _ => Or.symm⟩
    have hapart := dev.apart.forall (List.mem_of_find?_eq_some hfind) hg hne
    rcases hapart with h | h <;> omega
  rw [BlockStorageDevice.findBlock, hfind, hsame]
  rfl

theorem eraseBlock_eq (hs : Stands devices s dev g x) (hindex : s.currentIndex < s.slot.length)
    (mem : Memory) :
    devices.eraseBlock s.slot.device mem s.currentAddress =
      devices.eraseAll mem (blockAt s.slot (s.currentIndex / s.slot.blockLength)) := by
  have hbase := hs.tables.baseAddress_eq
  have hblockLength := hs.tables.blockLength_eq
  have hlength := hs.tables.length_eq
  have hinside := g.inside x (List.mem_of_getElem? hs.tables.range)
  have hle := x.le
  have hsum : x.startBlock * g.bytesPerBlock + x.getBlockCount * g.bytesPerBlock ≤ g.size := by
    rw [← Nat.add_mul, BlockRegionInfo.size]
    exact Nat.mul_le_mul_right _ (by rw [BlockRange.getBlockCount]; omega)
  have hfind := findBlock_eq (a := s.currentAddress) (List.mem_of_getElem? hs.tables.region)
    (by rw [Stream.currentAddress]; omega) (by rw [Stream.currentAddress]; omega)
  have haddress : g.blockAddress (g.blockIndexFromAddress s.currentAddress) =
      s.slot.baseAddress + s.currentIndex / s.slot.blockLength * s.slot.blockLength := by
    have hoffset : s.currentAddress - g.start = s.currentIndex + x.startBlock * g.bytesPerBlock := by
      rw [Stream.currentAddress]
      omega
    rw [BlockRegionInfo.blockAddress, BlockRegionInfo.blockIndexFromAddress, hoffset,
      Nat.add_mul_div_right _ _ g.pos, Nat.add_mul, hbase, hblockLength]
    omega
  funext p
  unfold Devices.eraseBlock Devices.eraseAll
  rw [hs.tables.device]
  dsimp only
  rw [hfind]
  dsimp only
  rw [haddress, ← hblockLength]
  by_cases hp : p ∈ blockAt s.slot (s.currentIndex / s.slot.blockLength)
  · have hdevice : devices[p.device]? = some dev := by
      rw [(mem_places.mp hp).1]
      exact hs.tables.device
    rw [if_pos hp, if_pos (mem_places.mp hp), Devices.erasedAt, hdevice]
  · rw [if_neg hp, if_neg fun h => hp (mem_places.mpr h)]

/-! ### `Erase` -/

theorem seek_nextBlock (hsize : Addressable devices) (hs : Stands devices s dev g x)
    (hindex : s.currentIndex < s.slot.length) :
    (∃ s' dev' g' x', s.seek devices Stream.STREAM_SEEK_NEXT_BLOCK .seekCurrent = some (s', true) ∧
      Stands devices s' dev' g' x' ∧ s'.currentIndex < s'.slot.length ∧
      s.blocks devices = blockAt s.slot (s.currentIndex / s.slot.blockLength) :: s'.blocks devices) ∨
    (s.seek devices Stream.STREAM_SEEK_NEXT_BLOCK .seekCurrent = some (s, false) ∧
      s.nextStream devices = none ∧
      s.blocks devices = [blockAt s.slot (s.currentIndex / s.slot.blockLength)]) := by
  have hlength := hs.tables.length_lt hsize
  have hpos := hs.tables.blockLength_pos
  have hblock := blockIndex_lt hs hindex
  have hmod := Nat.mod_lt s.currentIndex hpos
  have hdiv := Nat.div_add_mod s.currentIndex s.slot.blockLength
  have hnext : s.slot.blockLength * (s.currentIndex / s.slot.blockLength + 1) ≤ s.slot.length := by
    have hle := Nat.mul_le_mul_left s.slot.blockLength hblock
    rwa [Nat.mul_div_cancel' hs.tables.blockLength_dvd] at hle
  rw [Nat.mul_add, Nat.mul_one] at hnext
  have hoffset : s.seekOffset Stream.STREAM_SEEK_NEXT_BLOCK .seekCurrent =
      (s.slot.blockLength : Int) - (s.currentIndex % s.slot.blockLength : Nat) := by
    have hle := hs.tables.blockLength_le
    rw [Stream.seekOffset, if_pos (Or.inl rfl)]
    dsimp only [Stream.seekFrom]
    rw [if_pos rfl, int32_eq_self (by omega) (by omega)]
  have hseek : s.seek devices Stream.STREAM_SEEK_NEXT_BLOCK .seekCurrent = s.seekTo devices
      (s.slot.blockLength * (s.currentIndex / s.slot.blockLength) + s.slot.blockLength : Nat) := by
    have hsum : int32 (int32 (s.currentIndex : Int) +
        s.seekOffset Stream.STREAM_SEEK_NEXT_BLOCK .seekCurrent) =
        (s.slot.blockLength * (s.currentIndex / s.slot.blockLength) + s.slot.blockLength : Nat) := by
      rw [hoffset, int32_add (Int.natCast_nonneg _) (by omega) (by omega) (by omega)]
      omega
    exact congrArg (s.seekTo devices) hsum
  have hquotient : (s.slot.blockLength * (s.currentIndex / s.slot.blockLength) +
      s.slot.blockLength) / s.slot.blockLength = s.currentIndex / s.slot.blockLength + 1 := by
    rw [Nat.add_div_right _ hpos, Nat.mul_div_cancel_left _ hpos]
  have hblocks : s.blocks devices = blockAt s.slot (s.currentIndex / s.slot.blockLength) ::
      (slotBlocks s.slot (s.currentIndex / s.slot.blockLength + 1) ++
        (slotsAfter devices s.usage s.slot).flatMap fun slot => slotBlocks slot 0) := by
    rw [Stream.blocks, slotBlocks_cons hblock]
    rfl
  rw [hseek, hblocks]
  clear hseek hoffset hblocks
  rw [← hquotient]
  generalize s.slot.blockLength * (s.currentIndex / s.slot.blockLength) + s.slot.blockLength = j at *
  rw [Stream.seekTo]
  rcases Nat.lt_or_eq_of_le hnext with hlt | rfl
  · -- the next block lies in the range
    rw [seekForward_below hsize hs _ (by omega)]
    dsimp only
    rw [seekBackward_nonneg _ (by omega)]
    dsimp only
    rw [uint32_eq_toNat (by omega) (by omega), Int.toNat_natCast]
    exact Or.inl ⟨{ s with currentIndex := j }, dev, g, x, rfl, hs.setIndex hnext, hlt, rfl⟩
  · -- the range ends with this block
    rw [seekForward_end hsize hs, slotBlocks_nil (Nat.le_refl _), List.nil_append]
    rcases hafter : s.nextStream devices with _ | s₁
    · refine Or.inr ⟨rfl, rfl, ?_⟩
      rw [nextStream_none hs hafter]
      rfl
    · obtain ⟨slot, dev', g', x', rfl, htables, hslots, -⟩ := nextStream_some hs hafter
      have hpos' := htables.length_pos
      refine Or.inl ⟨s.enter slot dev'.supportsXIP, dev', g', x', ?_, .enter htables,
        htables.length_pos, ?_⟩
      · dsimp only
        rw [seekForward_below hsize (.enter htables) _ (by show (0 : Int) < slot.length; omega)]
        dsimp only
        rw [seekBackward_nonneg _ (Int.le_refl 0)]
        rfl
      · rw [hslots, List.flatMap_cons, Stream.blocks]
        show _ = _ :: (slotBlocks slot (0 / slot.blockLength) ++ _)
        rw [Nat.zero_div]
        rfl

theorem length_blockAt (slot : Slot) (k : Nat) : (blockAt slot k).length = slot.blockLength :=
  length_places _ _ _

theorem nextBlock_some {s' : Stream}
    (h : s.seek devices Stream.STREAM_SEEK_NEXT_BLOCK .seekCurrent = some (s', true)) :
    s.nextBlock devices = some (some s') := by
  rw [Stream.nextBlock, h]
  rfl

theorem nextBlock_none
    (h : s.seek devices Stream.STREAM_SEEK_NEXT_BLOCK .seekCurrent = some (s, false))
    (hnext : s.nextStream devices = none) : s.nextBlock devices = some none := by
  rw [Stream.nextBlock, h, Option.map_some]
  exact congrArg some hnext

section Loop

variable {next : Stream → Option (Option Stream)} (fuel : Nat) (mem : Memory) {len : Int}
  {answers : List Bool}

theorem eraseLoop_more (hanswer : answers.headD true = true) (hlen : len > 0)
    (hmore : int32 (len - s.slot.blockLength) > 0) :
    s.eraseLoop devices next (fuel + 1) mem len answers =
      match next s with
      | none => none
      | some none => some (none, devices.eraseBlock s.slot.device mem s.currentAddress, false)
      | some (some s') => s'.eraseLoop devices next fuel
          (devices.eraseBlock s.slot.device mem s.currentAddress)
          (int32 (len - s.slot.blockLength)) answers.tail := by
  conv_lhs => unfold Stream.eraseLoop
  rw [if_pos hlen]
  dsimp only
  refine (if_pos hanswer).trans ((if_pos hmore).trans ?_)
  rcases next s with _ | _ | s' <;> rfl

theorem eraseLoop_last (hanswer : answers.headD true = true) (hlen : len > 0)
    (hlast : ¬ int32 (len - s.slot.blockLength) > 0) :
    s.eraseLoop devices next (fuel + 1) mem len answers =
      some (none, devices.eraseBlock s.slot.device mem s.currentAddress, true) := by
  unfold Stream.eraseLoop
  rw [if_pos hlen]
  dsimp only
  rw [if_pos hanswer, if_neg hlast]

theorem eraseLoop_fails (hanswer : ¬ answers.headD true = true) (hlen : len > 0) :
    s.eraseLoop devices next (fuel + 1) mem len answers = some (some s, mem, false) := by
  unfold Stream.eraseLoop
  rw [if_pos hlen]
  exact if_neg hanswer

end Loop

/-- **The loop of `Erase` erases as many blocks as it takes to cover the length.** -/
theorem eraseLoop_spec (hsize : Addressable devices) (fuel : Nat) :
    ∀ (s : Stream) (mem : Memory) (len : Nat) (answers : List Bool),
      (∃ dev g x, Stands devices s dev g x) → s.currentIndex < s.slot.length → 0 < len →
      len ≤ fuel → len < 2 ^ 31 → false ∉ answers →
      s.eraseLoop devices (Stream.nextBlock devices) fuel mem len answers =
        some (none, devices.eraseAll mem (covering len (s.blocks devices)).flatten,
          decide (len ≤ (s.blocks devices).flatten.length)) := by
  induction fuel with
  | zero => exact fun s mem len answers _ _ hlen hfuel => absurd hlen (by omega)
  | succ fuel ih =>
    rintro s mem len answers ⟨dev, g, x, hs⟩ hindex hlen hfuel hlen' hanswers
    have hpos := hs.tables.blockLength_pos
    have hle := hs.tables.blockLength_le
    have hlength := hs.tables.length_lt hsize
    have hint : int32 ((len : Int) - s.slot.blockLength) = (len : Int) - s.slot.blockLength :=
      int32_eq_self (by omega) (by omega)
    by_cases hmore : s.slot.blockLength < len
    · have hrest : int32 ((len : Int) - s.slot.blockLength) = (len - s.slot.blockLength : Nat) := by
        omega
      rw [eraseLoop_more fuel mem (headD_of_notMem hanswers) (by omega) (by omega), hrest,
        eraseBlock_eq hs hindex]
      rcases seek_nextBlock hsize hs hindex with
        ⟨s', dev', g', x', hseek, hs', hindex', hblocks⟩ | ⟨hseek, hnext, hblocks⟩
      · rw [nextBlock_some hseek, hblocks]
        dsimp only
        have hle' : len - s.slot.blockLength ≤ (s'.blocks devices).flatten.length ↔
            len ≤ s.slot.blockLength + (s'.blocks devices).flatten.length := by omega
        rw [ih s' _ (len - s.slot.blockLength) answers.tail ⟨dev', g', x', hs'⟩ hindex' (by omega)
          (by omega) (by omega) (false_notMem_tail hanswers), eraseAll_append, covering_cons hlen,
          length_blockAt, List.flatten_cons, List.flatten_cons, List.length_append, length_blockAt,
          decide_eq_decide.mpr hle']
      · rw [nextBlock_none hseek hnext, hblocks, covering_cons hlen]
        simp only [covering, List.flatten_cons, List.flatten_nil, List.append_nil, length_blockAt]
        rw [decide_eq_false (by omega)]
    · rw [eraseLoop_last fuel mem (headD_of_notMem hanswers) (by omega) (by omega),
        eraseBlock_eq hs hindex]
      obtain ⟨bs, hblocks⟩ : ∃ bs, s.blocks devices =
          blockAt s.slot (s.currentIndex / s.slot.blockLength) :: bs := by
        rw [Stream.blocks, slotBlocks_cons (blockIndex_lt hs hindex)]
        exact ⟨_, rfl⟩
      rw [hblocks, covering_cons hlen, length_blockAt, Nat.sub_eq_zero_of_le (by omega),
        covering_zero, List.flatten_cons, List.flatten_nil, List.append_nil, List.flatten_cons,
        List.length_append, length_blockAt, decide_eq_true (by omega)]

/-- What `Erase` does: the blocks it takes to cover the length, from the one of the position on, are
    erased, or a first call that fails has erased nothing. -/
def Erased (devices : Devices) (s : Stream) (len : Nat) (answers : List Bool) (mem mem' : Memory)
    (ok : Bool) : Prop :=
  ∃ blocks : List (List Place),
    blocks.flatten = (bytes devices s.usage).drop
      (s.position devices - s.currentIndex % s.slot.blockLength) ∧
    (∀ b ∈ blocks, IsBlock devices b) ∧
    ((mem' = devices.eraseAll mem (covering len blocks).flatten ∧
        (0 < len → (ok = true ↔ len ≤ blocks.flatten.length))) ∨
      (false ∈ answers ∧ ok = false ∧ mem' = mem))

theorem erase_spec (hsize : Addressable devices) (hs : Stands devices s dev g x) (mem : Memory)
    {length : UInt32} {answers : List Bool} (hlength : length.toNat < 2 ^ 31)
    (hanswers : false ∉ answers ∨ (answers.head? = some false ∧ s.currentIndex ≠ s.slot.length)) :
    ∃ mem' ok, s.erase devices mem length answers = some (s, mem', ok) ∧
      Erased devices s length.toNat answers mem mem' ok := by
  have hint : int32 length.toNat = length.toNat := int32_eq_self (by omega) (by omega)
  unfold Stream.erase
  rw [hint]
  rcases ready_spec hs with ⟨hready, hrest, hend⟩ |
    ⟨s', dev', g', x', hready, hs', hmoved, hpos, hindex, hcases⟩
  · rw [hready]
    have hmod : s.currentIndex % s.slot.blockLength = 0 := by
      rw [hend]
      exact Nat.mod_eq_zero_of_dvd hs.tables.blockLength_dvd
    refine ⟨mem, false, rfl, [], ?_, by simp, Or.inl ⟨?_, fun hlen => by simp; omega⟩⟩
    · rw [hmod]
      exact hrest.symm
    · cases length.toNat <;> exact (eraseAll_nil devices mem).symm
  · rw [hready]
    dsimp only
    have hflatten : (s'.blocks devices).flatten = (bytes devices s.usage).drop
        (s.position devices - s.currentIndex % s.slot.blockLength) := by
      rw [flatten_streamBlocks hs', hmoved.usage, hpos]
      rcases hcases with hzero | rfl
      · -- the stream has gone to the next range, or stands at the beginning of its own
        rw [hzero, Nat.zero_mod, Nat.sub_zero]
        by_cases hend : s.currentIndex = s.slot.length
        · rw [hend, Nat.mod_eq_zero_of_dvd hs.tables.blockLength_dvd, Nat.sub_zero]
        · have hsame : s' = s := by
            rw [Stream.ready, if_neg hend] at hready
            exact (Option.some.inj hready).symm
          rw [← hsame, hzero, Nat.zero_mod, Nat.sub_zero]
      · rfl
    by_cases hzero : length.toNat = 0
    · have hloop : s'.eraseLoop devices (Stream.nextBlock devices) 0 mem (0 : Nat) answers = some (none, mem, true) := rfl
      rw [hzero, hloop]
      refine ⟨mem, true, rfl, s'.blocks devices, hflatten, fun b hb => isBlock_of_mem hs' hb,
        Or.inl ⟨?_, fun hlen => absurd hlen (Nat.lt_irrefl 0)⟩⟩
      rw [covering_zero]
      exact (eraseAll_nil devices mem).symm
    · rcases hanswers with hall | ⟨hhead, hend⟩
      · rw [eraseLoop_spec hsize length.toNat s' mem length.toNat answers ⟨dev', g', x', hs'⟩ hindex
          (Nat.pos_of_ne_zero hzero) (Nat.le_refl _) hlength hall]
        exact ⟨_, _, rfl, s'.blocks devices, hflatten, fun b hb => isBlock_of_mem hs' hb,
          Or.inl ⟨rfl, fun _ => decide_eq_true_iff⟩⟩
      · -- the first call fails, and the stream has not been moved
        have hsame : s' = s := by
          rw [Stream.ready, if_neg hend] at hready
          exact (Option.some.inj hready).symm
        subst hsame
        obtain ⟨rest, rfl⟩ : ∃ rest, answers = false :: rest := by
          cases answers with
          | nil => exact absurd hhead (by simp)
          | cons answer rest =>
            obtain rfl := Option.some.inj hhead
            exact ⟨rest, rfl⟩
        obtain ⟨fuel, hfuel⟩ := Nat.exists_eq_succ_of_ne_zero hzero
        have hloop : s'.eraseLoop devices (Stream.nextBlock devices) length.toNat mem length.toNat
            (false :: rest) = some (some s', mem, false) := by
          rw [hfuel]
          exact eraseLoop_fails fuel mem (by simp) (by omega)
        rw [hloop]
        exact ⟨mem, false, rfl, s'.blocks devices, hflatten, fun b hb => isBlock_of_mem hs' hb,
          Or.inr ⟨List.mem_cons_self, rfl, rfl⟩⟩

/-! ### `IsErased` -/

/-- Bytes from the position on that have a value -/
def AllAre (mem : Memory) (v : UInt8) (s : Stream) (n : Nat) : Prop :=
  ∀ p ∈ places s.slot.device s.currentAddress n, mem p = v

variable {v : UInt8} {n : Nat}

theorem AllAre.mono {mem : Memory} {m : Nat} (h : AllAre mem v s n) (hle : m ≤ n) :
    AllAre mem v s m := by
  intro p hp
  rw [← take_places _ _ hle] at hp
  exact h p (List.mem_of_mem_take hp)

theorem AllAre.advance {mem : Memory} {m : Nat} (h : AllAre mem v s n) (hle : m ≤ n) :
    AllAre mem v (s.advance m) (n - m) := by
  intro p hp
  refine h p (List.mem_of_mem_drop (i := m) ?_)
  rw [drop_places _ _ hle, Stream.currentAddress, Nat.add_assoc]
  exact hp

theorem all_read {mem : Memory} :
    (mem.read s.slot.device s.currentAddress n).all (· == v) = true ↔ AllAre mem v s n := by
  simp [Memory.read, AllAre]

theorem isBlockErased_iff (hs : Stands devices s dev g x) {mem : Memory} :
    devices.isBlockErased s.slot.device mem s.currentAddress n = true ↔
      AllAre mem dev.erasedValue s n := by
  rw [Devices.isBlockErased, hs.tables.device]
  exact all_read

theorem Stands.advance (hs : Stands devices s dev g x)
    (hn : s.currentIndex + n ≤ s.slot.length) : Stands devices (s.advance n) dev g x :=
  ⟨hs.tables, hn, hs.xip⟩

theorem advance_advance (m n : Nat) : (s.advance m).advance n = s.advance (m + n) := by
  rw [Stream.advance, Stream.advance, Stream.advance, Nat.add_assoc]

/-- Erased bytes of the range are read 512 at a time. -/
theorem readErased_spec (hsize : Addressable devices) (mem : Memory) (fuel : Nat) :
    ∀ (s : Stream) (rem : Nat) (answers : List Bool), Stands devices s dev g x →
      s.currentIndex + rem ≤ s.slot.length → rem ≤ fuel → (s.xip = true ∨ false ∉ answers) →
      AllAre mem dev.erasedValue s rem →
      ∃ answers', Stream.readErased devices mem dev.erasedValue fuel s rem answers =
          some (s.advance rem, answers', true) ∧ (s.xip = true ∨ false ∉ answers') := by
  induction fuel with
  | zero =>
    intro s rem answers hs hinside hfuel hanswers herased
    obtain rfl := Nat.le_zero.mp hfuel
    unfold Stream.readErased
    exact ⟨answers, if_pos rfl, hanswers⟩
  | succ fuel ih =>
    intro s rem answers hs hinside hfuel hanswers herased
    unfold Stream.readErased
    by_cases hzero : rem = 0
    · rw [if_pos hzero, hzero]
      exact ⟨answers, rfl, hanswers⟩
    rw [if_neg hzero]
    dsimp only
    have hleft : min rem 512 ≤ rem := Nat.min_le_left _ _
    obtain ⟨r, hread, hstream, hbuffer, hanswers'⟩ := readIntoBuffer_inside hs hsize mem
      (n := min rem 512) (by omega) (by omega) hanswers
    rw [hread]
    dsimp only
    rw [hbuffer, if_pos (all_read.mpr (herased.mono hleft)), hstream]
    obtain ⟨answers', heq, hall⟩ := ih (s.advance (min rem 512)) (rem - min rem 512) r.answers
      (hs.advance (by omega)) (by show s.currentIndex + _ + _ ≤ s.slot.length; omega) (by omega)
      hanswers' (herased.advance hleft)
    refine ⟨answers', ?_, hall⟩
    rw [heq, advance_advance, Nat.add_sub_cancel' hleft]

/-- The whole blocks of erased bytes -/
theorem blocksErased_spec (mem : Memory) (fuel : Nat) :
    ∀ (s : Stream) (len : Nat), Stands devices s dev g x → len < fuel →
      s.currentIndex + len ≤ s.slot.length → AllAre mem dev.erasedValue s len →
      ∃ n, n ≤ len ∧ len - n < s.slot.blockLength ∧
        Stream.blocksErased devices mem fuel s len = some (s.advance n, len - n, true) := by
  induction fuel with
  | zero => exact fun s len _ hfuel => absurd hfuel (Nat.not_lt_zero _)
  | succ fuel ih =>
    intro s len hs hfuel hinside herased
    have hpos := hs.tables.blockLength_pos
    unfold Stream.blocksErased
    by_cases hblock : len ≥ s.slot.blockLength
    · rw [if_pos hblock]
      dsimp only
      rw [if_pos ((isBlockErased_iff hs).mpr (herased.mono hblock))]
      obtain ⟨n, hn, hlast, heq⟩ := ih (s.advance s.slot.blockLength) (len - s.slot.blockLength)
        (hs.advance (by omega)) (by omega)
        (by show s.currentIndex + _ + _ ≤ s.slot.length; omega) (herased.advance hblock)
      have hlast' : len - s.slot.blockLength - n < s.slot.blockLength := hlast
      refine ⟨s.slot.blockLength + n, by omega, by omega, ?_⟩
      rw [heq, advance_advance, Nat.sub_sub]
    · rw [if_neg hblock]
      exact ⟨0, Nat.zero_le _, by omega, rfl⟩

theorem erasedHead_spec (hs : Stands devices s dev g x) (length : Nat) :
    (s.erasedHead length).1 + (s.erasedHead length).2 = length := by
  have hmod := Nat.mod_lt s.currentIndex hs.tables.blockLength_pos
  unfold Stream.erasedHead
  dsimp only
  split
  · split <;> dsimp only <;> omega
  · exact Nat.zero_add _

/-- **`IsErased` says TRUE of erased bytes of the range, and leaves the stream as it is.** -/
theorem isErased_true (hsize : Addressable devices) (hs : Stands devices s dev g x) {mem : Memory}
    {length : UInt32} {answers : List Bool} (hinside : s.currentIndex + length.toNat ≤ s.slot.length)
    (hanswers : s.xip = true ∨ false ∉ answers) (herased : AllAre mem dev.erasedValue s length.toNat) :
    s.isErased devices mem length answers = some (s, true) := by
  have hsum := erasedHead_spec hs length.toNat
  have hlength := hs.tables.length_lt hsize
  have hblock := hs.tables.blockLength_le
  unfold Stream.isErased
  rw [hs.tables.device]
  dsimp only
  generalize (s.erasedHead length.toNat).1 = rem at hsum ⊢
  generalize (s.erasedHead length.toNat).2 = len at hsum ⊢
  have hs₁ : Stands devices (s.advance rem) dev g x := hs.advance (by omega)
  have herased₁ : AllAre mem dev.erasedValue (s.advance rem) len := by
    have hrest := herased.advance (m := rem) (by omega)
    rwa [← hsum, Nat.add_sub_cancel_left] at hrest
  obtain ⟨answers₁, hread₁, hall₁⟩ := readErased_spec hsize mem rem s rem answers hs (by omega)
    (Nat.le_refl _) hanswers (herased.mono (by omega))
  obtain ⟨n, hn, hlast, hblocks⟩ := blocksErased_spec mem (len + 1) (s.advance rem) len hs₁
    (Nat.lt_succ_self _) (by show s.currentIndex + _ + _ ≤ s.slot.length; omega) herased₁
  have hlast' : len - n < s.slot.blockLength := hlast
  obtain ⟨answers₂, hread₂, -⟩ := readErased_spec hsize mem (len - n) ((s.advance rem).advance n)
    (len - n) answers₁ (hs₁.advance (by show s.currentIndex + _ + _ ≤ s.slot.length; omega))
    (by show s.currentIndex + _ + _ + _ ≤ s.slot.length; omega) (Nat.le_refl _) hall₁
    (herased₁.advance hn)
  rw [hread₁]
  dsimp only
  rw [hblocks]
  dsimp only
  rw [if_pos (by omega), hread₂]
  rfl

/-- **`IsErased` says FALSE at once when it begins with a block that is not erased.** -/
theorem isErased_false (hs : Stands devices s dev g x) {mem : Memory} {length : UInt32}
    (answers : List Bool) (haligned : s.currentIndex % s.slot.blockLength = 0)
    (hlength : s.slot.blockLength ≤ length.toNat)
    (hblock : ¬ AllAre mem dev.erasedValue s s.slot.blockLength) :
    s.isErased devices mem length answers = some (s, false) := by
  have hhead : s.erasedHead length.toNat = (0, length.toNat) := by
    unfold Stream.erasedHead
    dsimp only
    rw [if_neg (not_not.mpr haligned)]
  have hread : Stream.readErased devices mem dev.erasedValue 0 s 0 answers =
      some (s, answers, true) := by
    unfold Stream.readErased
    exact if_pos rfl
  have hblocks : Stream.blocksErased devices mem (length.toNat + 1) s length.toNat =
      some (s, length.toNat, false) := by
    unfold Stream.blocksErased
    rw [if_pos hlength]
    exact if_neg fun h => hblock ((isBlockErased_iff hs).mp h)
  unfold Stream.isErased
  rw [hs.tables.device]
  dsimp only
  rw [hhead]
  dsimp only
  rw [hread]
  dsimp only
  rw [hblocks]

end Erase

end TinyClr.BlockStorage
