import TinyClr.Drivers.SectorCacheSpec

/-!
# Runs of the sector cache

A run is any sequence of the calls of the cache and of stores into the sectors it has handed out.
Its answers are those of the memory, and `FlushAll` and `Uninitialize` leave the memory on the
device.
-/

namespace TinyClr.FatSectorCache

open TinyClr.Library

variable {v : Volume} {memory : Nat → UInt8} {c : SectorCache} {i : LineIndex}

/-! ### Replacement -/

/-- A line that `GetUnusedCacheLine` can take: a counter of 0 is not above the first `minLRUCounter`
    of the policy MRU. -/
def CacheLine.Replaceable (line : CacheLine) (useLRU : Bool) : Prop :=
  line.buffer = none ∨ useLRU = true ∨ 0 < line.lruCounter

/-- The comparison of the loop of `GetUnusedCacheLine` -/
def CacheLine.Preferred (line : CacheLine) (useLRU : Bool) (minLRUCounter : Nat) : Prop :=
  (useLRU ∧ line.lruCounter < minLRUCounter) ∨ (¬ useLRU ∧ line.lruCounter > minLRUCounter)

variable {useLRU : Bool}

theorem findUnused_found {cacheLines : LineIndex → CacheLine}
    (lines : List LineIndex) (minLRUCounter : Nat) (topCandidate : Option LineIndex)
    (h : topCandidate.isSome ∨ ∃ i ∈ lines, (cacheLines i).buffer = none ∨
      (cacheLines i).Preferred useLRU minLRUCounter) :
    findUnused cacheLines useLRU lines minLRUCounter topCandidate ≠ .inr none := by
  induction lines generalizing minLRUCounter topCandidate with
  | nil =>
    rcases h with htop | ⟨i, hi, _⟩
    · intro heq
      rw [findUnused] at heq
      rw [Sum.inr.inj heq] at htop
      exact Bool.noConfusion htop
    · exact absurd hi List.not_mem_nil
  | cons i rest ih =>
    rw [findUnused]
    dsimp only
    split_ifs with hbuffer hpreferred
    · exact Sum.inl_ne_inr
    · exact ih _ _ (Or.inl rfl)
    · refine ih _ _ (h.imp_right ?_)
      rintro ⟨j, hj, hcases⟩
      rcases List.mem_cons.mp hj with rfl | hj
      · rcases hcases with hnone | hcounter
        · exact absurd (Option.isNone_iff_eq_none.mpr hnone) hbuffer
        · exact absurd hcounter hpreferred
      · exact ⟨j, hj, hcases⟩

theorem findUnused_inl {cacheLines : LineIndex → CacheLine}
    (lines : List LineIndex) (minLRUCounter : Nat) (topCandidate : Option LineIndex)
    (h : findUnused cacheLines useLRU lines minLRUCounter topCandidate = .inl i) :
    (cacheLines i).buffer = none := by
  induction lines generalizing minLRUCounter topCandidate with
  | nil => exact absurd h Sum.inr_ne_inl
  | cons j rest ih =>
    rw [findUnused] at h
    dsimp only at h
    split_ifs at h with hbuffer hpreferred
    · rw [← Sum.inl.inj h]
      exact Option.isNone_iff_eq_none.mp hbuffer
    · exact ih _ _ h
    · exact ih _ _ h

/-- The line that is replaced has nothing left to be written. -/
theorem getUnusedCacheLine_spec (h : c.Holds v memory)
    (hreplaceable : ∃ i, (c.cacheLines i).Replaceable useLRU) :
    ∃ i c', getUnusedCacheLine c useLRU = some (i, c') ∧ c'.Holds v memory ∧ c.SameLines c' ∧
      ((c'.cacheLines i).buffer.isSome → (c'.cacheLines i).dirty = false) := by
  have hfound : findUnused c.cacheLines useLRU (List.finRange SECTORCACHE_MAXSIZE)
      (if useLRU then 0x7FFFFFFF else 0) none ≠ .inr none := by
    refine findUnused_found _ _ _ (Or.inr ?_)
    obtain ⟨i, hi⟩ := hreplaceable
    refine ⟨i, List.mem_finRange i, ?_⟩
    rcases hbuffer : (c.cacheLines i).buffer with _ | buffer
    · exact Or.inl rfl
    · have hcounter := (h.lines i buffer hbuffer).counter
      rw [CacheLine.Replaceable, hbuffer] at hi
      rw [CacheLine.Preferred]
      cases useLRU with
      | true => exact Or.inr (Or.inl ⟨rfl, by rw [if_pos rfl]; omega⟩)
      | false => exact Or.inr (Or.inr ⟨by simp, by simpa using hi⟩)
  rw [getUnusedCacheLine]
  rcases hcase : findUnused c.cacheLines useLRU (List.finRange SECTORCACHE_MAXSIZE)
      (if useLRU then 0x7FFFFFFF else 0) none with i | _ | i
  · refine ⟨i, c, rfl, h, fun j => ⟨rfl, rfl, rfl⟩, fun hsome => ?_⟩
    rw [findUnused_inl _ _ _ hcase] at hsome
    exact Bool.noConfusion hsome
  · exact absurd hcase hfound
  · obtain ⟨hholds, hsame, hclean, _⟩ := flushLine_spec h i true
    exact ⟨i, flushLine c i true, rfl, hholds, hsame, fun hsome =>
      hclean rfl (by rwa [(hsame i).1] at hsome)⟩

/-! ### Sectors -/

theorem SectorCache.Holds.setCounter (h : c.Holds v memory) (lruCounter : Nat) :
    SectorCache.Holds v memory { c with lruCounter } :=
  ⟨h.base, h.bytesPerSector, h.sectorsPerLine, h.sectorCount, h.lines, h.apart, h.device, h.writes⟩

theorem CacheLine.setLRUCounter_lt (line : CacheLine) (counter : Nat) :
    (line.setLRUCounter counter).lruCounter < 2 ^ 30 := by
  have heq : (line.setLRUCounter counter).lruCounter = counter % 2 ^ 30 :=
    and_mask 30 (by decide) counter
  rw [heq]
  exact Nat.mod_lt _ (Nat.two_pow_pos 30)

def SectorCache.Caches (v : Volume) (c : SectorCache) (i : LineIndex) (sectorIndex : Nat) : Prop :=
  (c.cacheLines i).buffer.isSome ∧ (c.cacheLines i).first = v.lineOf sectorIndex

variable {sectorIndex : Nat}

theorem Volume.uint32_address (v : Volume) (hlt : sectorIndex < v.sectorCount) :
    uint32 (v.baseAddress + sectorIndex * v.bytesPerSector) = v.address sectorIndex := by
  have hnext := v.address_lt hlt
  have hfits : v.address v.sectorCount ≤ 2 ^ 32 := v.fits
  have hpos := v.bytesPerSector_le
  have hcast : (v.baseAddress + sectorIndex * v.bytesPerSector : Int) =
      (v.address sectorIndex : Nat) := by rw [Volume.address]; push_cast; rfl
  rw [hcast, uint32_eq_toNat (by omega) (by omega), Int.toNat_natCast]

def SectorCache.Lacks (c : SectorCache) (sectorIndex : Nat) : Prop :=
  getCacheLine c sectorIndex = none ∧ ∃ i, (c.cacheLines i).buffer = none

/-- A line that no other line holds is read from the device. -/
theorem loadLine_spec (h : c.Holds v memory)
    (hlt : sectorIndex < v.sectorCount) (hget : getCacheLine c sectorIndex = none)
    (hreplaceable : ∃ i, (c.cacheLines i).Replaceable useLRU) (allocated : Bool) :
    ∃ found c', loadLine c sectorIndex useLRU allocated = some (found, c') ∧ c'.Holds v memory ∧
      (found = none → allocated = false ∧ c.Lacks sectorIndex) ∧
      ∀ i, found = some i → c'.Caches v i sectorIndex := by
  obtain ⟨i, c₁, hunused, hholds, hsame, hclean⟩ := getUnusedCacheLine_spec h hreplaceable
  rw [loadLine, hunused]
  dsimp only [Option.bind_eq_bind, Option.bind_some]
  split_ifs with hrefused
  · have hnone := Option.isNone_iff_eq_none.mp hrefused.1
    rw [(hsame i).1] at hnone
    exact ⟨none, c₁, rfl, hholds, fun _ => ⟨by simpa using hrefused.2, hget, i, hnone⟩,
      fun _ hsome => by simp at hsome⟩
  · have hlineOf : sectorIndex - sectorIndex % c₁.sectorsPerLine = v.lineOf sectorIndex := by
      rw [hholds.sectorsPerLine, Volume.lineOf]
    have hfirst : v.lineOf sectorIndex < v.sectorCount :=
      Nat.lt_of_le_of_lt (v.lineOf_le sectorIndex) hlt
    have haddress : uint32 (c₁.baseByteAddress + v.lineOf sectorIndex * c₁.bytesPerSector) =
        v.address (v.lineOf sectorIndex) := by
      rw [hholds.base, hholds.bytesPerSector, v.uint32_address hfirst]
    rw [hlineOf, haddress]
    have hother : ∀ j, (c₁.cacheLines j).buffer.isSome →
        (c₁.cacheLines j).first ≠ v.lineOf sectorIndex := by
      intro j hj
      rw [(hsame j).1] at hj
      rw [(hsame j).2.1]
      exact getCacheLine_none h hget j hj
    have hread : ∀ k < SECTORCACHE_LINESIZE,
        c₁.device.read (v.address (v.lineOf sectorIndex)) k =
          memory (v.address (v.lineOf sectorIndex) + k) := by
      intro k hk
      refine hholds.device _ fun j hj _ hcovers => hother j hj ?_
      obtain ⟨buffer, hbuffer⟩ := Option.isSome_iff_exists.mp hj
      have hline := hholds.lines j buffer hbuffer
      rw [CacheLine.Covers, hline.address] at hcovers
      exact v.first_eq hline.aligned (v.dvd_lineOf sectorIndex) hcovers ⟨by omega, by omega⟩
    refine ⟨some i, _, rfl, (hholds.setCounter _).setLine ?_ ?_ ?_, fun hnone => by simp at hnone,
      fun j hsome => ?_⟩
    · exact fun a => Or.inl ((hholds.setCounter _).stored hclean a)
    · intro buffer hbuffer
      rw [← Option.some.inj hbuffer]
      exact ⟨v.dvd_lineOf sectorIndex, hfirst, rfl, hread, CacheLine.setLRUCounter_lt _ _,
        fun hdirty => Bool.noConfusion hdirty⟩
    · exact fun j _ hj _ => hother j hj
    · rw [← Option.some.inj hsome]
      simp [SectorCache.Caches, SectorCache.setLine, CacheLine.setLRUCounter]

theorem SectorCache.Holds.setFlags (h : c.Holds v memory) {line : CacheLine}
    (hsome : (c.cacheLines i).buffer.isSome) (hbuffer : line.buffer = (c.cacheLines i).buffer)
    (hfirst : line.first = (c.cacheLines i).first)
    (haddress : line.bsByteAddress = (c.cacheLines i).bsByteAddress)
    (hkept : (c.cacheLines i).dirty = true → line.dirty = true)
    (hcounter : line.lruCounter < 2 ^ 30)
    (hinside : line.dirty = true → line.first + v.sectorsPerLine ≤ v.sectorCount) :
    (c.setLine i line).Holds v memory := by
  refine h.setLine (h.stored_or_covered (by rwa [hbuffer]) haddress hkept) ?_ ?_
  · intro buffer hline
    have hold := h.lines i buffer (hbuffer ▸ hline)
    exact ⟨hfirst ▸ hold.aligned, hfirst ▸ hold.first_lt, by rw [haddress, hfirst, hold.address],
      by rw [haddress]; exact hold.bytes, hcounter, hinside⟩
  · intro j hne hj _ heq
    exact hne (h.apart j i hj hsome (by rw [heq, hfirst]))

/-- What `GetSector` does with a line keeps the tie; a line asked for to be written is dirty. -/
theorem touchLine_spec (h : c.Holds v memory) {forWrite : Bool}
    (hsome : (c.cacheLines i).buffer.isSome)
    (hinside : forWrite = true → (c.cacheLines i).first + v.sectorsPerLine ≤ v.sectorCount) :
    (touchLine c i forWrite).Holds v memory ∧
      ((touchLine c i forWrite).cacheLines i).buffer = (c.cacheLines i).buffer ∧
      ((touchLine c i forWrite).cacheLines i).first = (c.cacheLines i).first ∧
      (forWrite = true → ((touchLine c i forWrite).cacheLines i).dirty = true) := by
  obtain ⟨buffer, hbuffer⟩ := Option.isSome_iff_exists.mp hsome
  have hline := h.lines i buffer hbuffer
  rw [touchLine]
  dsimp only
  split_ifs with hwrite hcounter hcounter
  · refine ⟨(h.setCounter _).setFlags hsome rfl rfl rfl (fun _ => rfl)
      (CacheLine.setLRUCounter_lt _ _) (fun _ => hinside hwrite), ?_⟩
    simp [SectorCache.setLine, CacheLine.setLRUCounter, CacheLine.setDirty, CacheLine.setReadWrite]
  · refine ⟨h.setFlags hsome rfl rfl rfl (fun _ => rfl) hline.counter
      (fun _ => hinside hwrite), ?_⟩
    simp [SectorCache.setLine, CacheLine.setDirty, CacheLine.setReadWrite]
  · refine ⟨(h.setCounter _).setFlags hsome rfl rfl rfl id (CacheLine.setLRUCounter_lt _ _)
      hline.inside, ?_⟩
    simp [SectorCache.setLine, CacheLine.setLRUCounter, CacheLine.setReadWrite, hwrite]
  · refine ⟨h.setFlags hsome rfl rfl rfl id hline.counter hline.inside, ?_⟩
    simp [SectorCache.setLine, CacheLine.setReadWrite, hwrite]

def contents (size : Nat) (bytes : Nat → UInt8) (start : Nat) : List UInt8 :=
  (List.range size).map fun k => bytes (start + k)

/-- What a pointer into a line points to, a sector long -/
def SectorCache.sectorAt (c : SectorCache) (i : LineIndex) (offset : Nat) : List UInt8 :=
  match (c.cacheLines i).buffer with
  | some buffer => contents c.bytesPerSector buffer offset
  | none => []

theorem Volume.offset_lt (v : Volume) (sectorIndex : Nat) :
    (sectorIndex - v.lineOf sectorIndex) * v.bytesPerSector + v.bytesPerSector ≤
      SECTORCACHE_LINESIZE := by
  have hle := v.lineOf_le sectorIndex
  have hlt := v.lt_lineOf sectorIndex
  have hmul : (sectorIndex - v.lineOf sectorIndex + 1) * v.bytesPerSector ≤
      v.sectorsPerLine * v.bytesPerSector := Nat.mul_le_mul_right _ (by omega)
  rw [v.lineSize, Nat.add_mul, Nat.one_mul] at hmul
  exact hmul

theorem Volume.address_offset (v : Volume) (sectorIndex : Nat) :
    v.address (v.lineOf sectorIndex) + (sectorIndex - v.lineOf sectorIndex) * v.bytesPerSector =
      v.address sectorIndex := by
  rw [← v.address_add, Nat.add_sub_cancel' (v.lineOf_le sectorIndex)]

theorem SectorCache.Holds.sectorAt (h : c.Holds v memory)
    (hcaches : c.Caches v i sectorIndex) :
    c.sectorAt i ((sectorIndex - (c.cacheLines i).first) * c.bytesPerSector) =
      contents v.bytesPerSector memory (v.address sectorIndex) := by
  obtain ⟨buffer, hbuffer⟩ := Option.isSome_iff_exists.mp hcaches.1
  have hline := h.lines i buffer hbuffer
  have hfits := v.offset_lt sectorIndex
  rw [SectorCache.sectorAt, hbuffer, hcaches.2, h.bytesPerSector]
  refine List.map_congr_left fun k hk => ?_
  have hk : k < v.bytesPerSector := List.mem_range.mp hk
  rw [hline.bytes _ (by omega), hline.address, hcaches.2, ← Nat.add_assoc, v.address_offset]

/-- The condition under which `GetSector` keeps the tie -/
structure Sound (v : Volume) (c : SectorCache) (sectorIndex : Nat) (useLRU forWrite : Bool) :
    Prop where
  ne_count : sectorIndex ≠ v.sectorCount
  inside : forWrite = true → sectorIndex < v.sectorCount →
    v.lineOf sectorIndex + v.sectorsPerLine ≤ v.sectorCount
  replaceable : sectorIndex < v.sectorCount → getCacheLine c sectorIndex = none →
    ∃ i, (c.cacheLines i).Replaceable useLRU

theorem getSector_spec (h : c.Holds v memory) {forWrite : Bool}
    (hsound : Sound v c sectorIndex useLRU forWrite) (allocated : Bool) :
    ∃ sector c', getSector c sectorIndex useLRU forWrite allocated = some (sector, c') ∧
      c'.Holds v memory ∧
      (sector = none →
        v.sectorCount ≤ sectorIndex ∨ allocated = false ∧ c.Lacks sectorIndex) ∧
      ∀ i offset, sector = some (i, offset) → sectorIndex < v.sectorCount ∧
        c'.Caches v i sectorIndex ∧
        offset = (sectorIndex - (c'.cacheLines i).first) * c'.bytesPerSector ∧
        (forWrite = true → (c'.cacheLines i).dirty = true) := by
  rw [getSector, h.sectorCount]
  split_ifs with hrange
  · exact ⟨none, c, rfl, h, fun _ => Or.inl (by omega), fun _ _ hsome => by simp at hsome⟩
  · have hlt : sectorIndex < v.sectorCount := by
      have hne := hsound.ne_count
      omega
    have htouch : ∀ {c : SectorCache}, c.Holds v memory → ∀ i, c.Caches v i sectorIndex →
        (touchLine c i forWrite).Holds v memory ∧ (touchLine c i forWrite).Caches v i sectorIndex ∧
          (forWrite = true → ((touchLine c i forWrite).cacheLines i).dirty = true) := by
      intro c h i hcaches
      obtain ⟨hholds, hbuffer, hfirst, hdirty⟩ := touchLine_spec h hcaches.1
        (fun hwrite => by rw [hcaches.2]; exact hsound.inside hwrite hlt)
      refine ⟨hholds, ⟨?_, ?_⟩, hdirty⟩
      · rw [hbuffer]
        exact hcaches.1
      · rw [hfirst]
        exact hcaches.2
    rcases hget : getCacheLine c sectorIndex with _ | i
    · obtain ⟨found, c', hload, hholds, hnone, hcaches⟩ :=
        loadLine_spec h hlt hget (hsound.replaceable hlt hget) allocated
      dsimp only
      rw [hload]
      rcases found with _ | i
      · exact ⟨none, c', rfl, hholds, fun _ => Or.inr (hnone rfl), fun _ _ hsome => by
          simp at hsome⟩
      · obtain ⟨hholds', hcaches', hdirty⟩ := htouch hholds i (hcaches i rfl)
        refine ⟨_, _, rfl, hholds', fun hnone => by simp at hnone, fun j offset hsome => ?_⟩
        obtain ⟨rfl, rfl⟩ := Prod.mk.inj (Option.some.inj hsome)
        exact ⟨hlt, hcaches', rfl, hdirty⟩
    · obtain ⟨hholds', hcaches', hdirty⟩ := htouch h i (getCacheLine_some h hget)
      refine ⟨_, _, rfl, hholds', fun hnone => by simp at hnone, fun j offset hsome => ?_⟩
      obtain ⟨rfl, rfl⟩ := Prod.mk.inj (Option.some.inj hsome)
      exact ⟨hlt, hcaches', rfl, hdirty⟩

/-! ### Stores -/

/-- Bytes set in a dirty line are set in the memory. -/
theorem fillBuffer_spec (h : c.Holds v memory) (hsome : (c.cacheLines i).buffer.isSome)
    (hdirty : (c.cacheLines i).dirty = true) {offset size : Nat}
    (hfits : offset + size ≤ SECTORCACHE_LINESIZE) (value : UInt8) :
    (fillBuffer c i offset size value).Holds v
      (overlay memory ((c.cacheLines i).bsByteAddress + offset) size fun _ => value) := by
  obtain ⟨buffer, hbuffer⟩ := Option.isSome_iff_exists.mp hsome
  have hline := h.lines i buffer hbuffer
  have houtside : ∀ a, ¬ (c.cacheLines i).Covers a →
      overlay memory ((c.cacheLines i).bsByteAddress + offset) size (fun _ => value) a =
        memory a := by
    intro a hcovers
    rw [CacheLine.Covers] at hcovers
    exact overlay_outside (by omega)
  have hself : (fillBuffer c i offset size value).cacheLines i = { c.cacheLines i with
      buffer := some (overlay buffer offset size fun _ => value) } := by
    rw [fillBuffer, hbuffer]
    exact Function.update_self ..
  have hother : ∀ j ≠ i, (fillBuffer c i offset size value).cacheLines j = c.cacheLines j :=
    fun j hne => Function.update_of_ne hne ..
  have hsame : ∀ j, ((fillBuffer c i offset size value).cacheLines j).buffer.isSome =
      (c.cacheLines j).buffer.isSome ∧
      ((fillBuffer c i offset size value).cacheLines j).first = (c.cacheLines j).first := by
    intro j
    rcases eq_or_ne j i with rfl | hne
    · rw [hself, hbuffer]
      exact ⟨rfl, rfl⟩
    · rw [hother j hne]
      exact ⟨rfl, rfl⟩
  refine ⟨h.base, h.bytesPerSector, h.sectorsPerLine, h.sectorCount, ?_, ?_, ?_, h.writes⟩
  · intro j buffer' hbuffer'
    rcases eq_or_ne j i with rfl | hne
    · rw [hself] at hbuffer' ⊢
      rw [← Option.some.inj hbuffer']
      refine ⟨hline.aligned, hline.first_lt, hline.address, fun k hk => ?_, hline.counter,
        hline.inside⟩
      by_cases hin : offset ≤ k ∧ k < offset + size
      · rw [overlay_inside hin.1 hin.2, overlay_inside (by dsimp only; omega)
          (by dsimp only; omega)]
      · rw [overlay_outside (by omega), overlay_outside (by dsimp only; omega)]
        exact hline.bytes k hk
    · rw [hother j hne] at hbuffer' ⊢
      have hline' := h.lines j buffer' hbuffer'
      refine ⟨hline'.aligned, hline'.first_lt, hline'.address, fun k hk => ?_, hline'.counter,
        hline'.inside⟩
      rw [hline'.bytes k hk, houtside]
      exact fun hcovers => hne (h.eq_of_covers (by rw [hbuffer']; rfl) hsome
        ⟨Nat.le_add_right _ _, by omega⟩ hcovers)
  · intro j k hj hk heq
    rw [(hsame j).1] at hj
    rw [(hsame k).1] at hk
    rw [(hsame j).2, (hsame k).2] at heq
    exact h.apart j k hj hk heq
  · intro a hclean
    have hkept : ∀ j, (c.cacheLines j).buffer.isSome → (c.cacheLines j).dirty = true →
        ¬ (c.cacheLines j).Covers a := by
      intro j hj hdirty' hcovers
      refine hclean j (by rwa [(hsame j).1]) ?_ ?_
      · rcases eq_or_ne j i with rfl | hne
        · rw [hself]
          exact hdirty
        · rwa [hother j hne]
      · rcases eq_or_ne j i with rfl | hne
        · rw [hself]
          exact hcovers
        · rwa [hother j hne]
    rw [houtside a (hkept i hsome hdirty)]
    exact h.device a hkept

theorem fillBuffer_sector (h : c.Holds v memory)
    (hcaches : c.Caches v i sectorIndex) (hdirty : (c.cacheLines i).dirty = true)
    {offset size : Nat} (hfits : offset + size ≤ v.bytesPerSector) (value : UInt8) :
    (fillBuffer c i ((sectorIndex - (c.cacheLines i).first) * c.bytesPerSector + offset) size
      value).Holds v (overlay memory (v.address sectorIndex + offset) size fun _ => value) := by
  obtain ⟨buffer, hbuffer⟩ := Option.isSome_iff_exists.mp hcaches.1
  have hin := v.offset_lt sectorIndex
  have hfits' : (sectorIndex - v.lineOf sectorIndex) * v.bytesPerSector + offset + size ≤
      SECTORCACHE_LINESIZE := by omega
  have hfill := fillBuffer_spec h hcaches.1 hdirty hfits' value
  rw [(h.lines i buffer hbuffer).address, hcaches.2, ← Nat.add_assoc, v.address_offset] at hfill
  rw [hcaches.2, h.bytesPerSector]
  exact hfill

theorem markSectorDirty_spec (h : c.Holds v memory)
    (hinside : (getCacheLine c sectorIndex).isSome →
      v.lineOf sectorIndex + v.sectorsPerLine ≤ v.sectorCount) :
    (markSectorDirty c sectorIndex).Holds v memory := by
  rw [markSectorDirty]
  rcases hget : getCacheLine c sectorIndex with _ | i
  · exact h
  · obtain ⟨hsome, hfirst⟩ := getCacheLine_some h hget
    obtain ⟨buffer, hbuffer⟩ := Option.isSome_iff_exists.mp hsome
    rw [hget, ← hfirst] at hinside
    exact h.setFlags hsome rfl rfl rfl (fun _ => rfl) (h.lines i buffer hbuffer).counter
      (fun _ => hinside rfl)

theorem flushSector_spec (h : c.Holds v memory) (sectorIndex : Nat) :
    (flushSector c sectorIndex).Holds v memory := by
  rw [flushSector]
  rcases getCacheLine c sectorIndex with _ | i
  · exact h
  · exact (flushLine_spec h i true).1

/-! ### `FlushAll` and `Uninitialize` -/

/-- After lines have been flushed, the device has what they cover. -/
theorem flushLines_spec (lines : List LineIndex) (h : c.Holds v memory) :
    (lines.foldl (fun c i => flushLine c i false) c).Holds v memory ∧
      ∀ a, (c.device.bytes a = memory a ∨
        ∃ i ∈ lines, (c.cacheLines i).buffer.isSome ∧ (c.cacheLines i).Covers a) →
        (lines.foldl (fun c i => flushLine c i false) c).device.bytes a = memory a := by
  induction lines generalizing c with
  | nil => exact ⟨h, fun a ha => ha.resolve_right fun ⟨_, hi, _⟩ => absurd hi List.not_mem_nil⟩
  | cons i rest ih =>
    obtain ⟨hholds, hsame, _, hbytes⟩ := flushLine_spec h i false
    obtain ⟨hrest, hstored⟩ := ih hholds
    refine ⟨hrest, fun a ha => hstored a ?_⟩
    rcases ha with hdevice | ⟨j, hj, hsome, hcovers⟩
    · exact Or.inl (hbytes a (Or.inl hdevice))
    · rcases List.mem_cons.mp hj with rfl | hj
      · exact Or.inl (hbytes a (Or.inr ⟨hsome, hcovers⟩))
      · refine Or.inr ⟨j, hj, ?_, ?_⟩
        · rwa [(hsame j).1]
        · rw [CacheLine.Covers, (hsame j).2.2]
          exact hcovers

theorem flushAll_spec (h : c.Holds v memory) :
    (flushAll c).Holds v memory ∧ ∀ a, (flushAll c).device.bytes a = memory a := by
  obtain ⟨hholds, hstored⟩ := flushLines_spec (List.finRange SECTORCACHE_MAXSIZE) h
  refine ⟨hholds, fun a => hstored a ?_⟩
  by_cases hcovered : ∃ i, (c.cacheLines i).buffer.isSome ∧ (c.cacheLines i).Covers a
  · obtain ⟨i, hsome, hcovers⟩ := hcovered
    exact Or.inr ⟨i, List.mem_finRange i, hsome, hcovers⟩
  · exact Or.inl (h.device a fun i hsome _ hcovers => hcovered ⟨i, hsome, hcovers⟩)

def freeLine (c : SectorCache) (i : LineIndex) : SectorCache :=
  if (c.cacheLines i).buffer.isSome then (flushLine c i true).setLine i CacheLine.unused else c

theorem freeLine_spec (h : c.Holds v memory) (i : LineIndex) :
    (freeLine c i).Holds v memory ∧ ((freeLine c i).cacheLines i).buffer = none ∧
      ∀ j, (c.cacheLines j).buffer = none → ((freeLine c i).cacheLines j).buffer = none := by
  rw [freeLine]
  split_ifs with hsome
  · obtain ⟨hholds, hsame, hclean, _⟩ := flushLine_spec h i true
    refine ⟨hholds.setLine (fun a => Or.inl (hholds.stored (fun _ => hclean rfl hsome) a)) ?_ ?_,
      ?_, fun j hj => ?_⟩
    · exact fun buffer hbuffer => by simp [CacheLine.unused] at hbuffer
    · exact fun j _ _ hunused => by simp [CacheLine.unused] at hunused
    · simp [SectorCache.setLine, CacheLine.unused]
    · rcases eq_or_ne j i with rfl | hne
      · simp [SectorCache.setLine, CacheLine.unused]
      · rw [← (hsame j).1] at hj
        simpa [SectorCache.setLine, Function.update_of_ne hne] using hj
  · exact ⟨h, by simpa using hsome, fun j hj => hj⟩

theorem freeLines_spec (lines : List LineIndex) (h : c.Holds v memory) :
    (lines.foldl freeLine c).Holds v memory ∧
      ∀ i, (i ∈ lines ∨ (c.cacheLines i).buffer = none) →
        ((lines.foldl freeLine c).cacheLines i).buffer = none := by
  induction lines generalizing c with
  | nil => exact ⟨h, fun i hi => hi.resolve_left List.not_mem_nil⟩
  | cons i rest ih =>
    obtain ⟨hholds, hfreed, hkept⟩ := freeLine_spec h i
    obtain ⟨hrest, hnone⟩ := ih hholds
    refine ⟨hrest, fun j hj => hnone j ?_⟩
    rcases hj with hj | hj
    · rcases List.mem_cons.mp hj with rfl | hj
      · exact Or.inr hfreed
      · exact Or.inl hj
    · exact Or.inr (hkept j hj)

theorem uninitializeCache_spec (h : c.Holds v memory) :
    (uninitializeCache c).Holds v memory ∧ ∀ a, (uninitializeCache c).device.bytes a = memory a := by
  obtain ⟨hholds, hnone⟩ := freeLines_spec (List.finRange SECTORCACHE_MAXSIZE) h
  refine ⟨hholds, fun a => hholds.device a fun i hsome => ?_⟩
  rw [hnone i (Or.inl (List.mem_finRange i))] at hsome
  exact Bool.noConfusion hsome

/-! ### Runs -/

/-- The calls, and a store of a byte into a sector that is cached -/
inductive Op where
  | getSector (sectorIndex : Nat) (useLRU forWrite allocated : Bool)
  | store (sectorIndex offset : Nat) (value : UInt8)
  | markSectorDirty (sectorIndex : Nat)
  | eraseSector (sectorIndex : Nat) (allocated : Bool)
  | flushSector (sectorIndex : Nat)
  | flushAll

/-- What a call answers: NULL, or the bytes of the sector it points to -/
inductive Answer where
  | unit
  | null
  | sector (bytes : List UInt8)

/-- A pointer, as its reader sees it -/
def answer (c : SectorCache) : Option (LineIndex × Nat) → Answer
  | none => .null
  | some (i, offset) => .sector (c.sectorAt i offset)

/-- A store goes through a pointer into the line of the sector. -/
def store (c : SectorCache) (sectorIndex offset : Nat) (value : UInt8) : Option SectorCache := do
  let i ← getCacheLine c sectorIndex
  some (fillBuffer c i ((sectorIndex - (c.cacheLines i).first) * c.bytesPerSector + offset) 1 value)

def step (c : SectorCache) : Op → Option (SectorCache × Answer)
  | .getSector sectorIndex useLRU forWrite allocated =>
      (getSector c sectorIndex useLRU forWrite allocated).map fun (sector, c) =>
        (c, answer c sector)
  | .store sectorIndex offset value => (store c sectorIndex offset value).map fun c => (c, .unit)
  | .markSectorDirty sectorIndex => some (markSectorDirty c sectorIndex, .unit)
  | .eraseSector sectorIndex allocated =>
      (eraseSector c sectorIndex allocated).map fun (_, c) => (c, .unit)
  | .flushSector sectorIndex => some (flushSector c sectorIndex, .unit)
  | .flushAll => some (flushAll c, .unit)

/-- What a memory may answer: a sector is refused past the end of the volume and where there is no
    buffer for it. -/
inductive Follows (v : Volume) : (Nat → UInt8) → Op → (Nat → UInt8) → Answer → Prop where
  | refused {memory : Nat → UInt8} {sectorIndex : Nat} {useLRU forWrite allocated : Bool}
      (h : v.sectorCount ≤ sectorIndex ∨ allocated = false) :
      Follows v memory (.getSector sectorIndex useLRU forWrite allocated) memory .null
  | sector {memory : Nat → UInt8} {sectorIndex : Nat} {useLRU forWrite allocated : Bool}
      (h : sectorIndex < v.sectorCount) :
      Follows v memory (.getSector sectorIndex useLRU forWrite allocated) memory
        (.sector (contents v.bytesPerSector memory (v.address sectorIndex)))
  | store {memory : Nat → UInt8} {sectorIndex offset : Nat} {value : UInt8} :
      Follows v memory (.store sectorIndex offset value)
        (overlay memory (v.address sectorIndex + offset) 1 fun _ => value) .unit
  | erase {memory : Nat → UInt8} {sectorIndex : Nat} {allocated : Bool}
      (h : sectorIndex < v.sectorCount) :
      Follows v memory (.eraseSector sectorIndex allocated)
        (overlay memory (v.address sectorIndex) v.bytesPerSector fun _ => 0) .unit
  | notErased {memory : Nat → UInt8} {sectorIndex : Nat} {allocated : Bool}
      (h : v.sectorCount ≤ sectorIndex ∨ allocated = false) :
      Follows v memory (.eraseSector sectorIndex allocated) memory .unit
  | markSectorDirty {memory : Nat → UInt8} {sectorIndex : Nat} :
      Follows v memory (.markSectorDirty sectorIndex) memory .unit
  | flushSector {memory : Nat → UInt8} {sectorIndex : Nat} :
      Follows v memory (.flushSector sectorIndex) memory .unit
  | flushAll {memory : Nat → UInt8} : Follows v memory .flushAll memory .unit

/-- The condition under which a call is that of a memory.  A store stays in its sector, which is
    cached; its line has not been flushed since it was asked for to be written. -/
def Op.Sound (v : Volume) (c : SectorCache) : Op → Prop
  | .getSector sectorIndex useLRU forWrite _ =>
      FatSectorCache.Sound v c sectorIndex useLRU forWrite
  | .store sectorIndex offset _ => offset < v.bytesPerSector ∧
      ∃ i, getCacheLine c sectorIndex = some i ∧ (c.cacheLines i).dirty = true
  | .markSectorDirty sectorIndex => (getCacheLine c sectorIndex).isSome →
      v.lineOf sectorIndex + v.sectorsPerLine ≤ v.sectorCount
  | .eraseSector sectorIndex _ => FatSectorCache.Sound v c sectorIndex true true
  | .flushSector _ => True
  | .flushAll => True

theorem eraseSector_spec (h : c.Holds v memory)
    (hsound : Sound v c sectorIndex true true) (allocated : Bool) :
    ∃ sector c' memory', eraseSector c sectorIndex allocated = some (sector, c') ∧
      c'.Holds v memory' ∧ Follows v memory (.eraseSector sectorIndex allocated) memory' .unit := by
  obtain ⟨sector, c', hget, hholds, hnone, hsome⟩ := getSector_spec h hsound allocated
  rw [eraseSector, hget]
  rcases sector with _ | ⟨i, offset⟩
  · exact ⟨none, c', memory, rfl, hholds, Follows.notErased ((hnone rfl).imp_right And.left)⟩
  · obtain ⟨hlt, hcaches, hoffset, hdirty⟩ := hsome i offset rfl
    refine ⟨some (i, offset), _, _, rfl, ?_, Follows.erase hlt⟩
    have hwhole : 0 + v.bytesPerSector ≤ v.bytesPerSector :=
      Nat.le_of_eq (Nat.zero_add v.bytesPerSector)
    have hfill := fillBuffer_sector hholds hcaches (hdirty rfl) hwhole 0
    rw [Nat.add_zero, Nat.add_zero, ← hoffset] at hfill
    rw [hholds.bytesPerSector]
    exact hfill

theorem step_follows (c : SectorCache) (memory : Nat → UInt8) (op : Op) (h : c.Holds v memory)
    (hsound : op.Sound v c) : ∃ c' answer memory', step c op = some (c', answer) ∧
      Follows v memory op memory' answer ∧ c'.Holds v memory' := by
  cases op with
  | getSector sectorIndex useLRU forWrite allocated =>
    obtain ⟨sector, c', hget, hholds, hnone, hsome⟩ := getSector_spec h hsound allocated
    refine ⟨c', answer c' sector, memory, by rw [step, hget]; rfl, ?_, hholds⟩
    rcases sector with _ | ⟨i, offset⟩
    · exact Follows.refused ((hnone rfl).imp_right And.left)
    · obtain ⟨hlt, hcaches, hoffset, _⟩ := hsome i offset rfl
      rw [answer, hoffset, hholds.sectorAt hcaches]
      exact Follows.sector hlt
  | store sectorIndex offset value =>
    obtain ⟨hoffset, i, hget, hdirty⟩ := hsound
    exact ⟨_, .unit, _, by rw [step, store, hget]; rfl, Follows.store,
      fillBuffer_sector h (getCacheLine_some h hget) hdirty hoffset value⟩
  | markSectorDirty sectorIndex =>
    exact ⟨_, .unit, memory, rfl, Follows.markSectorDirty, markSectorDirty_spec h hsound⟩
  | eraseSector sectorIndex allocated =>
    obtain ⟨sector, c', memory', herase, hholds, hfollows⟩ := eraseSector_spec h hsound allocated
    exact ⟨c', .unit, memory', by rw [step, herase]; rfl, hfollows, hholds⟩
  | flushSector sectorIndex =>
    exact ⟨_, .unit, memory, rfl, Follows.flushSector, flushSector_spec h sectorIndex⟩
  | flushAll => exact ⟨_, .unit, memory, rfl, Follows.flushAll, (flushAll_spec h).1⟩

theorem initializeCache_holds (v : Volume) (bytes : Nat → UInt8) :
    (initializeCache ⟨bytes, []⟩ v.bytesPerSector v.baseAddress v.sectorCount).Holds v bytes := by
  refine ⟨rfl, rfl, rfl, rfl, ?_, ?_, fun _ _ => rfl, ?_⟩
  · exact fun i buffer hbuffer => by simp [initializeCache, CacheLine.unused] at hbuffer
  · exact fun i j hi => by simp [initializeCache, CacheLine.unused] at hi
  · exact fun a ha => absurd ha List.not_mem_nil

def SectorCache.InLine (c : SectorCache) (i : LineIndex) (sectorIndex : Nat) : Prop :=
  (c.cacheLines i).buffer.isSome ∧ (c.cacheLines i).first ≤ sectorIndex ∧
    sectorIndex < (c.cacheLines i).first + c.sectorsPerLine

theorem SectorCache.Holds.eq_of_inLine (h : c.Holds v memory) {i j : LineIndex}
    (hi : c.InLine i sectorIndex) (hj : c.InLine j sectorIndex) : i = j := by
  have hlineOf : ∀ {i}, c.InLine i sectorIndex →
      v.lineOf sectorIndex = (c.cacheLines i).first := by
    rintro i ⟨hsome, hlow, hhigh⟩
    obtain ⟨buffer, hbuffer⟩ := Option.isSome_iff_exists.mp hsome
    rw [h.sectorsPerLine] at hhigh
    exact v.lineOf_eq (h.lines i buffer hbuffer).aligned hlow hhigh
  exact h.apart i j hi.1 hj.1 ((hlineOf hi).symm.trans (hlineOf hj))

/-- A sector of the volume that is in a line, or for which there is a buffer, is not refused,
    whether `private_malloc` would succeed or not. -/
def Serves (v : Volume) (memory : Nat → UInt8) (c : SectorCache) : Prop :=
  ∀ sectorIndex useLRU forWrite allocated, sectorIndex < v.sectorCount →
    Sound v c sectorIndex useLRU forWrite → ¬ c.Lacks sectorIndex →
    ∃ i offset c', getSector c sectorIndex useLRU forWrite allocated = some (some (i, offset), c') ∧
      c'.sectorAt i offset = contents v.bytesPerSector memory (v.address sectorIndex)

theorem SectorCache.Holds.serves (h : c.Holds v memory) : Serves v memory c := by
  intro sectorIndex useLRU forWrite allocated hlt hsound hlacks
  obtain ⟨sector, c', hget, hholds, hnone, hsome⟩ := getSector_spec h hsound allocated
  rcases sector with _ | ⟨i, offset⟩
  · rcases hnone rfl with hpast | ⟨-, hlacks'⟩
    · exact absurd hlt (Nat.not_lt.mpr hpast)
    · exact absurd hlacks' hlacks
  · obtain ⟨-, hcaches, hoffset, -⟩ := hsome i offset rfl
    refine ⟨i, offset, c', hget, ?_⟩
    rw [hoffset]
    exact hholds.sectorAt hcaches

/-- **Transparency.**  In a run whose steps meet the condition, every answer is that of the memory,
    a sector is refused only for want of a buffer, no sector is in two lines, and `FlushAll` and
    `Uninitialize` leave the memory on the device, with nothing written outside the volume. -/
theorem runs_follow_memory (v : Volume) (bytes : Nat → UInt8) (ops : List Op)
    (h : Meets step (fun c op => op.Sound v c)
      (initializeCache ⟨bytes, []⟩ v.bytesPerSector v.baseAddress v.sectorCount) ops) :
    ∃ c answers memory,
      run step (initializeCache ⟨bytes, []⟩ v.bytesPerSector v.baseAddress v.sectorCount) ops =
        some (c, answers) ∧
      SpecRuns (Follows v) bytes ops memory answers ∧
      Serves v memory c ∧
      (∀ i j sectorIndex, c.InLine i sectorIndex → c.InLine j sectorIndex → i = j) ∧
      (∀ a, (flushAll c).device.bytes a = memory a) ∧
      (∀ a, (uninitializeCache c).device.bytes a = memory a) ∧
      ∀ a ∈ (flushAll c).device.writes ++ (uninitializeCache c).device.writes,
        v.baseAddress ≤ a ∧ a + SECTORCACHE_LINESIZE ≤ v.address v.sectorCount := by
  obtain ⟨c, answers, memory, hrun, hspec, hholds⟩ :=
    run_refines step (Follows v) step_follows ops _ bytes (initializeCache_holds v bytes) h
  obtain ⟨hflushed, hflush⟩ := flushAll_spec hholds
  obtain ⟨hfreed, hfree⟩ := uninitializeCache_spec hholds
  refine ⟨c, answers, memory, hrun, hspec, hholds.serves, fun i j sectorIndex hi hj => hholds.eq_of_inLine hi hj,
    hflush, hfree, fun a ha => ?_⟩
  rcases List.mem_append.mp ha with ha | ha
  · exact hflushed.writes a ha
  · exact hfreed.writes a ha

def eightSectors : Volume where
  baseAddress := 0
  bytesPerSector := 512
  sectorCount := 8
  bytesPerSector_le := by decide
  bytesPerSector_dvd := by decide
  fits := by decide

/-- A sector is stored into and flushed, another one read by the policy MRU. -/
theorem runs_follow_memory_store : ∃ c answers memory,
    run step (initializeCache ⟨fun _ => 1, []⟩ 512 0 8)
      [.getSector 1 true true true, .store 1 3 7, .flushSector 1, .getSector 5 false false true] =
        some (c, answers) ∧
      SpecRuns (Follows eightSectors) (fun _ => 1)
        [.getSector 1 true true true, .store 1 3 7, .flushSector 1, .getSector 5 false false true]
        memory answers ∧
      Serves eightSectors memory c ∧
      (∀ i j sectorIndex, c.InLine i sectorIndex → c.InLine j sectorIndex → i = j) ∧
      (∀ a, (flushAll c).device.bytes a = memory a) ∧
      (∀ a, (uninitializeCache c).device.bytes a = memory a) ∧
      ∀ a ∈ (flushAll c).device.writes ++ (uninitializeCache c).device.writes,
        eightSectors.baseAddress ≤ a ∧
          a + SECTORCACHE_LINESIZE ≤ eightSectors.address eightSectors.sectorCount := by
  refine runs_follow_memory eightSectors (fun _ => 1) _
    (meets_cons step ⟨by decide, fun _ _ => by decide, fun _ _ => ⟨⟨1, by decide⟩, Or.inl rfl⟩⟩ rfl
      (meets_cons step ⟨by decide, ⟨0, by decide⟩, rfl, rfl⟩ rfl
        (meets_cons step trivial rfl
          (meets_cons step ⟨by decide, fun _ _ => by decide,
            fun _ _ => ⟨⟨1, by decide⟩, Or.inl rfl⟩⟩ rfl trivial))))

/-- The sector after the last one is not refused; a line at the end of the volume is written past
    it; what is stored in a line that has been flushed does not reach the device. -/
theorem runs_leave_memory :
    (∃ c bytes, step (initializeCache ⟨fun _ => 1, []⟩ 512 0 4) (.getSector 4 true false true) =
      some (c, .sector bytes)) ∧
    (∃ c answers, run step (initializeCache ⟨fun _ => 1, []⟩ 512 0 5)
        [.getSector 4 true true true] = some (c, answers) ∧
      ∃ a ∈ (flushAll c).device.writes, ¬ a + SECTORCACHE_LINESIZE ≤ 0 + 5 * 512) ∧
    ∃ c answers, run step (initializeCache ⟨fun _ => 1, []⟩ 512 0 8)
        [.getSector 0 true true true, .flushSector 0, .store 0 0 7] = some (c, answers) ∧
      (flushAll c).device.bytes 0 = 1 := by
  refine ⟨⟨_, _, rfl⟩, ⟨_, _, rfl, 2048, ?_, by decide⟩, _, _, rfl, rfl⟩
  exact List.mem_singleton_self 2048

end TinyClr.FatSectorCache
