import TinyClr.Drivers.SectorCache
import TinyClr.Library.Runs
import Mathlib.Data.List.FinRange
import Mathlib.Tactic.Common

/-!
# The sector cache is transparent

The abstract machine is the memory: a byte for each address of the device.  `Holds` ties a cache to
it: the lines hold bytes of the memory, at most one line each part of it, and the device holds the
memory wherever no line is dirty.

Every call keeps the tie, as long as no line that goes past the end of the volume is modified, no
line after it has been flushed, and a line can be found to be replaced.
-/

namespace TinyClr.FatSectorCache

open TinyClr.Library

/-! ### Volumes -/

/-- A range of sectors of the device, whose addresses have 32 bits -/
structure Volume where
  baseAddress : Nat
  bytesPerSector : Nat
  sectorCount : Nat
  bytesPerSector_le : 512 ≤ bytesPerSector
  bytesPerSector_dvd : bytesPerSector ∣ SECTORCACHE_LINESIZE
  fits : baseAddress + sectorCount * bytesPerSector ≤ 2 ^ 32

namespace Volume

variable (v : Volume)

def sectorsPerLine : Nat := SECTORCACHE_LINESIZE / v.bytesPerSector

def address (sectorIndex : Nat) : Nat := v.baseAddress + sectorIndex * v.bytesPerSector

def lineOf (sectorIndex : Nat) : Nat := sectorIndex - sectorIndex % v.sectorsPerLine

theorem lineSize : v.sectorsPerLine * v.bytesPerSector = SECTORCACHE_LINESIZE :=
  Nat.div_mul_cancel v.bytesPerSector_dvd

theorem sectorsPerLine_bounds : 0 < v.sectorsPerLine ∧ v.sectorsPerLine ≤ 4 := by
  have hsize : v.sectorsPerLine * v.bytesPerSector = 2048 := v.lineSize
  have hle := v.bytesPerSector_le
  constructor
  · rcases Nat.eq_zero_or_pos v.sectorsPerLine with hzero | hpos
    · rw [hzero, Nat.zero_mul] at hsize
      exact absurd hsize (by decide)
    · exact hpos
  · by_contra hmore
    have hmul := Nat.mul_le_mul (Nat.lt_of_not_le hmore) hle
    omega

theorem sectorCount_lt : v.sectorCount ≤ 2 ^ 23 := by
  have hfits := v.fits
  have hmul := Nat.mul_le_mul_left v.sectorCount v.bytesPerSector_le
  omega

theorem address_add (sectorIndex n : Nat) :
    v.address (sectorIndex + n) = v.address sectorIndex + n * v.bytesPerSector := by
  rw [address, address, Nat.add_mul, Nat.add_assoc]

variable {s t : Nat}

theorem address_lt (h : s < t) : v.address s + v.bytesPerSector ≤ v.address t := by
  obtain ⟨n, rfl⟩ := Nat.exists_eq_add_of_lt h
  rw [Nat.add_assoc, address_add, Nat.add_mul, Nat.one_mul]
  omega

theorem address_le (h : s ≤ t) : v.address s ≤ v.address t :=
  Nat.add_le_add_left (Nat.mul_le_mul_right _ h) _

theorem address_line (first : Nat) :
    v.address (first + v.sectorsPerLine) = v.address first + SECTORCACHE_LINESIZE := by
  rw [address_add, lineSize]

theorem lineOf_le (sectorIndex : Nat) : v.lineOf sectorIndex ≤ sectorIndex := Nat.sub_le _ _

theorem lt_lineOf (sectorIndex : Nat) : sectorIndex < v.lineOf sectorIndex + v.sectorsPerLine := by
  have hmod := Nat.mod_lt sectorIndex v.sectorsPerLine_bounds.1
  have hle := Nat.mod_le sectorIndex v.sectorsPerLine
  rw [lineOf]
  omega

variable {sectorIndex : Nat}

theorem lineOf_eq {first : Nat} (haligned : v.sectorsPerLine ∣ first)
    (hlow : first ≤ sectorIndex) (hhigh : sectorIndex < first + v.sectorsPerLine) :
    v.lineOf sectorIndex = first := by
  obtain ⟨n, rfl⟩ := haligned
  obtain ⟨k, rfl⟩ := Nat.exists_eq_add_of_le hlow
  rw [lineOf, Nat.mul_add_mod, Nat.mod_eq_of_lt (by omega), Nat.add_sub_cancel]

theorem dvd_lineOf (sectorIndex : Nat) : v.sectorsPerLine ∣ v.lineOf sectorIndex :=
  Nat.dvd_sub_mod sectorIndex

theorem first_eq {a : Nat} (hs : v.sectorsPerLine ∣ s) (ht : v.sectorsPerLine ∣ t)
    (has : v.address s ≤ a ∧ a < v.address s + SECTORCACHE_LINESIZE)
    (hat : v.address t ≤ a ∧ a < v.address t + SECTORCACHE_LINESIZE) : s = t := by
  rw [← v.address_line] at has hat
  have hlt : s < t + v.sectorsPerLine := by
    by_contra hge
    have hle := v.address_le (Nat.le_of_not_lt hge)
    omega
  have hlt' : t < s + v.sectorsPerLine := by
    by_contra hge
    have hle := v.address_le (Nat.le_of_not_lt hge)
    omega
  have hself : ∀ {first}, v.sectorsPerLine ∣ first → v.lineOf first = first := fun hfirst =>
    v.lineOf_eq hfirst (Nat.le_refl _) (Nat.lt_add_of_pos_right v.sectorsPerLine_bounds.1)
  rcases Nat.le_total s t with hle | hle
  · rw [← v.lineOf_eq hs hle hlt', hself ht]
  · rw [← v.lineOf_eq ht hle hlt, hself hs]

end Volume

/-! ### The tie to the memory -/

variable {v : Volume} {memory : Nat → UInt8} {c : SectorCache} {i j : LineIndex}

structure CacheLine.Holds (v : Volume) (memory : Nat → UInt8) (line : CacheLine)
    (buffer : Nat → UInt8) : Prop where
  aligned : v.sectorsPerLine ∣ line.first
  first_lt : line.first < v.sectorCount
  address : line.bsByteAddress = v.address line.first
  bytes : ∀ k < SECTORCACHE_LINESIZE, buffer k = memory (line.bsByteAddress + k)
  counter : line.lruCounter < 2 ^ 30
  inside : line.dirty = true → line.first + v.sectorsPerLine ≤ v.sectorCount

def CacheLine.Covers (line : CacheLine) (a : Nat) : Prop :=
  line.bsByteAddress ≤ a ∧ a < line.bsByteAddress + SECTORCACHE_LINESIZE

structure SectorCache.Holds (v : Volume) (memory : Nat → UInt8) (c : SectorCache) : Prop where
  base : c.baseByteAddress = v.baseAddress
  bytesPerSector : c.bytesPerSector = v.bytesPerSector
  sectorsPerLine : c.sectorsPerLine = v.sectorsPerLine
  sectorCount : c.sectorCount = v.sectorCount
  lines : ∀ i buffer, (c.cacheLines i).buffer = some buffer →
    (c.cacheLines i).Holds v memory buffer
  apart : ∀ i j, (c.cacheLines i).buffer.isSome → (c.cacheLines j).buffer.isSome →
    (c.cacheLines i).first = (c.cacheLines j).first → i = j
  device : ∀ a, (∀ i, (c.cacheLines i).buffer.isSome → (c.cacheLines i).dirty = true →
    ¬ (c.cacheLines i).Covers a) → c.device.bytes a = memory a
  writes : ∀ a ∈ c.device.writes,
    v.baseAddress ≤ a ∧ a + SECTORCACHE_LINESIZE ≤ v.address v.sectorCount

theorem SectorCache.Holds.eq_of_covers (h : c.Holds v memory)
    (hi : (c.cacheLines i).buffer.isSome) (hj : (c.cacheLines j).buffer.isSome) {a : Nat}
    (hai : (c.cacheLines i).Covers a) (haj : (c.cacheLines j).Covers a) : i = j := by
  obtain ⟨_, hbuffer⟩ := Option.isSome_iff_exists.mp hi
  obtain ⟨_, hbuffer'⟩ := Option.isSome_iff_exists.mp hj
  have hline := h.lines i _ hbuffer
  have hline' := h.lines j _ hbuffer'
  rw [CacheLine.Covers, hline.address] at hai
  rw [CacheLine.Covers, hline'.address] at haj
  exact h.apart i j hi hj (v.first_eq hline.aligned hline'.aligned hai haj)

/-! ### Lines -/

theorem getCacheLine_some (h : c.Holds v memory)
    (hget : getCacheLine c sectorIndex = some i) : (c.cacheLines i).buffer.isSome ∧
      (c.cacheLines i).first = v.lineOf sectorIndex := by
  have hfound := List.find?_some hget
  simp only [decide_eq_true_eq] at hfound
  obtain ⟨hsome, hlow, hhigh⟩ := hfound
  obtain ⟨buffer, hbuffer⟩ := Option.isSome_iff_exists.mp hsome
  have hline := h.lines i buffer hbuffer
  have hfirst := hline.first_lt
  have hcount := v.sectorCount_lt
  have hsize := v.sectorsPerLine_bounds
  rw [h.sectorsPerLine, uint32_eq_toNat (by omega) (by omega)] at hhigh
  exact ⟨hsome, (v.lineOf_eq hline.aligned hlow (by omega)).symm⟩

theorem getCacheLine_none (h : c.Holds v memory)
    (hget : getCacheLine c sectorIndex = none) (i : LineIndex)
    (hsome : (c.cacheLines i).buffer.isSome) :
    (c.cacheLines i).first ≠ v.lineOf sectorIndex := by
  intro heq
  obtain ⟨buffer, hbuffer⟩ := Option.isSome_iff_exists.mp hsome
  have hfirst := (h.lines i buffer hbuffer).first_lt
  have hcount := v.sectorCount_lt
  have hsize := v.sectorsPerLine_bounds
  have hle := v.lineOf_le sectorIndex
  have hlt := v.lt_lineOf sectorIndex
  have hnot := List.find?_eq_none.mp hget i (List.mem_finRange i)
  simp only [decide_eq_true_eq] at hnot
  refine hnot ⟨hsome, by omega, ?_⟩
  rw [h.sectorsPerLine, uint32_eq_toNat (by omega) (by omega)]
  omega

/-- The device holds the memory wherever no dirty line covers it, line `i` left out. -/
def SectorCache.StoredWithout (memory : Nat → UInt8) (c : SectorCache) (i : LineIndex) (a : Nat) :
    Prop :=
  (∀ j ≠ i, (c.cacheLines j).buffer.isSome → (c.cacheLines j).dirty = true →
    ¬ (c.cacheLines j).Covers a) → c.device.bytes a = memory a

variable {line : CacheLine}

theorem SectorCache.Holds.setLine (h : c.Holds v memory)
    (hdevice : ∀ a, c.StoredWithout memory i a ∨
      (line.buffer.isSome ∧ line.dirty = true ∧ line.Covers a))
    (hline : ∀ buffer, line.buffer = some buffer → line.Holds v memory buffer)
    (hapart : ∀ j ≠ i, (c.cacheLines j).buffer.isSome → line.buffer.isSome →
      (c.cacheLines j).first ≠ line.first) :
    (c.setLine i line).Holds v memory := by
  have hself : (c.setLine i line).cacheLines i = line := Function.update_self ..
  have hother : ∀ j ≠ i, (c.setLine i line).cacheLines j = c.cacheLines j :=
    fun j hne => Function.update_of_ne hne ..
  refine ⟨h.base, h.bytesPerSector, h.sectorsPerLine, h.sectorCount, ?_, ?_, ?_, h.writes⟩
  · intro j buffer hbuffer
    rcases eq_or_ne j i with rfl | hne
    · rw [hself] at hbuffer ⊢
      exact hline buffer hbuffer
    · rw [hother j hne] at hbuffer ⊢
      exact h.lines j buffer hbuffer
  · intro j k hj hk heq
    rcases eq_or_ne j i with rfl | hji
    · rcases eq_or_ne k j with rfl | hkj
      · rfl
      · rw [hself] at hj heq
        rw [hother k hkj] at hk heq
        exact absurd heq.symm (hapart k hkj hk hj)
    · rcases eq_or_ne k i with rfl | hki
      · rw [hother j hji] at hj heq
        rw [hself] at hk heq
        exact absurd heq (hapart j hji hj hk)
      · rw [hother j hji] at hj heq
        rw [hother k hki] at hk heq
        exact h.apart j k hj hk heq
  · intro a houtside
    rcases hdevice a with hstored | ⟨hsome, hdirty, hcovers⟩
    · refine hstored fun j hne hj hdirty hcovers => ?_
      refine houtside j ?_ ?_ ?_
      · rwa [hother j hne]
      · rwa [hother j hne]
      · rwa [hother j hne]
    · refine absurd ?_ (houtside i (by rwa [hself]) (by rwa [hself]))
      rwa [hself]

theorem SectorCache.Holds.stored (h : c.Holds v memory)
    (hclean : (c.cacheLines i).buffer.isSome → (c.cacheLines i).dirty = false) (a : Nat) :
    c.StoredWithout memory i a := by
  intro hothers
  refine h.device a fun j hj hdirty hcovers => ?_
  rcases eq_or_ne j i with rfl | hne
  · rw [hclean hj] at hdirty
    exact Bool.noConfusion hdirty
  · exact hothers j hne hj hdirty hcovers

theorem SectorCache.Holds.stored_or_covered (h : c.Holds v memory)
    (hsome : line.buffer.isSome) (haddress : line.bsByteAddress = (c.cacheLines i).bsByteAddress)
    (hkept : (c.cacheLines i).dirty = true → line.dirty = true) (a : Nat) :
    c.StoredWithout memory i a ∨ (line.buffer.isSome ∧ line.dirty = true ∧ line.Covers a) := by
  by_cases hcovers : (c.cacheLines i).buffer.isSome ∧ (c.cacheLines i).dirty = true ∧
      (c.cacheLines i).Covers a
  · refine Or.inr ⟨hsome, hkept hcovers.2.1, ?_⟩
    rw [CacheLine.Covers, haddress]
    exact hcovers.2.2
  · refine Or.inl fun hothers => h.device a fun j hj hdirty hcovers' => ?_
    rcases eq_or_ne j i with rfl | hne
    · exact hcovers ⟨hj, hdirty, hcovers'⟩
    · exact hothers j hne hj hdirty hcovers'

theorem write_bytes (device : BlockStorageDevice) (address : Nat) (buffer : Nat → UInt8) (a : Nat) :
    (device.write address buffer).bytes a =
      overlay device.bytes address SECTORCACHE_LINESIZE buffer a := rfl

theorem SectorCache.Holds.write (h : c.Holds v memory) {buffer : Nat → UInt8}
    (hbuffer : (c.cacheLines i).buffer = some buffer) (hdirty : (c.cacheLines i).dirty = true) :
    SectorCache.Holds v memory
      { c with device := c.device.write (c.cacheLines i).bsByteAddress buffer } ∧
    ∀ a, c.device.bytes a = memory a ∨ (c.cacheLines i).Covers a →
      (c.device.write (c.cacheLines i).bsByteAddress buffer).bytes a = memory a := by
  have hline := h.lines i buffer hbuffer
  have hbytes : ∀ a, c.device.bytes a = memory a ∨ (c.cacheLines i).Covers a →
      (c.device.write (c.cacheLines i).bsByteAddress buffer).bytes a = memory a := by
    intro a ha
    by_cases hcovers : (c.cacheLines i).Covers a
    · obtain ⟨hlow, hhigh⟩ := hcovers
      rw [write_bytes, overlay_inside hlow hhigh, hline.bytes _ (by omega),
        Nat.add_sub_cancel' hlow]
    · rw [CacheLine.Covers] at hcovers
      rw [write_bytes, overlay_outside (by omega)]
      exact ha.resolve_right hcovers
  refine ⟨⟨h.base, h.bytesPerSector, h.sectorsPerLine, h.sectorCount, h.lines, h.apart, ?_, ?_⟩,
    hbytes⟩
  · exact fun a houtside => hbytes a (Or.inl (h.device a houtside))
  · intro a ha
    rcases List.mem_cons.mp ha with rfl | ha
    · have hinside := v.address_le (hline.inside hdirty)
      rw [v.address_line] at hinside
      rw [hline.address]
      exact ⟨Nat.le_add_right _ _, hinside⟩
    · exact h.writes a ha

theorem CacheLine.Holds.setDirty {buffer : Nat → UInt8}
    (h : line.Holds v memory buffer) {dirty : Bool}
    (hinside : dirty = true → line.first + v.sectorsPerLine ≤ v.sectorCount) :
    (line.setDirty dirty).Holds v memory buffer := by
  rw [CacheLine.setDirty]
  cases dirty with
  | true => exact ⟨h.aligned, h.first_lt, h.address, h.bytes, h.counter, hinside⟩
  | false => exact ⟨h.aligned, h.first_lt, h.address, h.bytes, h.counter, hinside⟩

/-- What `FlushSector` of a line does not change -/
def SectorCache.SameLines (c c' : SectorCache) : Prop :=
  ∀ j, (c'.cacheLines j).buffer = (c.cacheLines j).buffer ∧
    (c'.cacheLines j).first = (c.cacheLines j).first ∧
    (c'.cacheLines j).bsByteAddress = (c.cacheLines j).bsByteAddress

/-- `FlushSector` of a line keeps the tie; the device then has what the line covers. -/
theorem flushLine_spec (h : c.Holds v memory) (i : LineIndex) (fClearDirtyBit : Bool) :
    (flushLine c i fClearDirtyBit).Holds v memory ∧
      c.SameLines (flushLine c i fClearDirtyBit) ∧
      (fClearDirtyBit = true → (c.cacheLines i).buffer.isSome →
        ((flushLine c i fClearDirtyBit).cacheLines i).dirty = false) ∧
      ∀ a, c.device.bytes a = memory a ∨
        ((c.cacheLines i).buffer.isSome ∧ (c.cacheLines i).Covers a) →
        (flushLine c i fClearDirtyBit).device.bytes a = memory a := by
  have hsame : c.SameLines c := fun j => ⟨rfl, rfl, rfl⟩
  rcases hbuffer : (c.cacheLines i).buffer with _ | buffer
  · rw [flushLine, hbuffer]
    exact ⟨h, hsame, fun _ hsome => by simp at hsome, fun a ha =>
      ha.resolve_right fun hcovers => by simp at hcovers⟩
  · rcases hdirty : (c.cacheLines i).dirty with _ | _
    · have heq : flushLine c i fClearDirtyBit = c := by
        rw [flushLine, hbuffer]
        simp [hdirty]
      rw [heq]
      refine ⟨h, hsame, fun _ _ => hdirty, fun a ha => ha.elim id fun hcovers => ?_⟩
      refine h.stored (i := i) (fun _ => hdirty) a fun j hne hj _ hcovers' => hne ?_
      exact h.eq_of_covers hj (by rw [hbuffer]; rfl) hcovers' hcovers.2
    · obtain ⟨hwrite, hbytes⟩ := h.write hbuffer hdirty
      have hstored : ∀ a, c.device.bytes a = memory a ∨
          ((some buffer).isSome ∧ (c.cacheLines i).Covers a) →
          (c.device.write (c.cacheLines i).bsByteAddress buffer).bytes a = memory a :=
        fun a ha => hbytes a (ha.imp_right And.right)
      rw [flushLine, hbuffer]
      simp only [hdirty, if_true]
      cases fClearDirtyBit with
      | false => exact ⟨hwrite, hsame, fun hfalse => by simp at hfalse, hstored⟩
      | true =>
        have hline := h.lines i buffer hbuffer
        simp only [if_true]
        refine ⟨hwrite.setLine (fun a => Or.inl fun hothers => ?_) ?_ ?_, fun j => ?_, fun _ _ => ?_,
          hstored⟩
        · by_cases hcovers : (c.cacheLines i).Covers a
          · exact hbytes a (Or.inr hcovers)
          · refine hbytes a (Or.inl (h.device a fun j hj hdirty' hcovers' => ?_))
            rcases eq_or_ne j i with rfl | hne
            · exact hcovers hcovers'
            · exact hothers j hne hj hdirty' hcovers'
        · intro buffer' hbuffer'
          have heq : buffer = buffer' := Option.some.inj (hbuffer.symm.trans hbuffer')
          exact heq ▸ hline.setDirty fun hfalse => by simp at hfalse
        · exact fun j hne hj _ heq => hne (h.apart j i hj (by rw [hbuffer]; rfl) heq)
        · rcases eq_or_ne j i with rfl | hne
          · simp [SectorCache.setLine, CacheLine.setDirty]
          · simp [SectorCache.setLine, Function.update_of_ne hne]
        · simp [SectorCache.setLine, CacheLine.setDirty]

end TinyClr.FatSectorCache
