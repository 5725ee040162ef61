import TinyClr.Drivers.FatVolumeSpec

/-!
# The clusters of a file

A file is a chain of clusters: the table leads from each to the next one, and past the last it leads
nowhere.  The bytes of the file lie in the sectors of its clusters.  A volume on which a part of a
file has been written keeps the chain, or makes it longer by clusters that were free.
-/

namespace TinyClr.FatFileHandle

open TinyClr.Library TinyClr.FatLogicDisk TinyClr.FatVolume

/-- The chain of a file: its clusters, `length` of them -/
structure Chain (g : LogicDisk) (v : Volume) (clus : Nat → Nat) (length : Nat) : Prop where
  cluster : ∀ i < length, IsCluster g (clus i)
  inj : ∀ i < length, ∀ j < length, clus i = clus j → i = j
  link : ∀ i, i + 1 < length → linkOf g.isFAT16 (v.fat (clus i)) = clus (i + 1)
  last : ∀ i, i + 1 = length →
    getClusType g.isFAT16 (linkOf g.isFAT16 (v.fat (clus i))) ≠ .data

def fileSector (g : LogicDisk) (clus : Nat → Nat) (k : Nat) : Nat :=
  sectorOf g (clus (k / g.sectorsPerCluster)) (k % g.sectorsPerCluster)

def byteAt (g : LogicDisk) (v : Volume) (clus : Nat → Nat) (i : Nat) : UInt8 :=
  v.sectors (fileSector g clus (i / 512)) (i % 512)

def clusSize (g : LogicDisk) : Nat := 512 * g.sectorsPerCluster

/-- A cluster that the file has, or may get -/
def InReach (g : LogicDisk) (v : Volume) (clus : Nat → Nat) (length c : Nat) : Prop :=
  IsCluster g c ∧ (v.fat c = CLUST_NONE ∨ ∃ i < length, clus i = c)

variable {g : LogicDisk} {v v' : Volume} {clus clus' : Nat → Nat} {length length' c : Nat}

/-! ### Places in a file -/

theorem next_place {n : Nat} (hn : 0 < n) (q : Nat) :
    ((q + 1) / n = q / n ∧ (q + 1) % n = q % n + 1 ∧ q % n + 1 < n) ∨
      ((q + 1) / n = q / n + 1 ∧ (q + 1) % n = 0 ∧ q % n + 1 = n) := by
  have hq := Nat.div_add_mod q n
  have hlt := Nat.mod_lt q hn
  rcases Nat.lt_or_ge (q % n + 1) n with h | h
  · obtain ⟨hdiv, hmod⟩ := (Nat.div_mod_unique hn).mpr
      ⟨show q % n + 1 + n * (q / n) = q + 1 by omega, h⟩
    exact Or.inl ⟨hdiv, hmod, h⟩
  · have hlast : q % n + 1 = n := by omega
    obtain ⟨hdiv, hmod⟩ := (Nat.div_mod_unique hn).mpr
      ⟨show 0 + n * (q / n + 1) = q + 1 by rw [Nat.mul_add]; omega, hn⟩
    exact Or.inr ⟨hdiv, hmod, hlast⟩

theorem sector_lt_iff (hg : Geometry g) {q : Nat} :
    q / g.sectorsPerCluster < length ↔ 512 * q < length * clusSize g := by
  rw [Nat.div_lt_iff_lt_mul hg.perClus_pos, clusSize, Nat.mul_left_comm]
  omega

variable {i : Nat}

theorem byte_sector_lt (hg : Geometry g) (hi : i < length * clusSize g) :
    i / 512 / g.sectorsPerCluster < length := by
  rw [sector_lt_iff hg]
  omega

theorem fileSector_inj (hg : Geometry g) (hchain : Chain g v clus length) {k k' : Nat}
    (hk : k / g.sectorsPerCluster < length) (hk' : k' / g.sectorsPerCluster < length)
    (h : fileSector g clus k = fileSector g clus k') : k = k' := by
  obtain ⟨hclus, hrest⟩ := sectorOf_inj (hchain.cluster _ hk).1 (hchain.cluster _ hk').1
    (Nat.mod_lt _ hg.perClus_pos) (Nat.mod_lt _ hg.perClus_pos) h
  have hquot := hchain.inj _ hk _ hk' hclus
  rw [← Nat.div_add_mod k g.sectorsPerCluster, hquot, hrest, Nat.div_add_mod]

theorem fileSector_congr {k : Nat} (hk : k / g.sectorsPerCluster < length)
    (hclus : ∀ i < length, clus' i = clus i) : fileSector g clus' k = fileSector g clus k := by
  rw [fileSector, fileSector, hclus _ hk]

theorem byteAt_congr (hg : Geometry g) (hclus : ∀ i < length, clus' i = clus i)
    (hsectors : ∀ s, fatEnd g ≤ s → v'.sectors s = v.sectors s)
    (hi : i < length * clusSize g) : byteAt g v' clus' i = byteAt g v clus i := by
  rw [byteAt, byteAt, fileSector_congr (byte_sector_lt hg hi) hclus]
  exact congrFun (hsectors _ (fatEnd_le_sectorOf hg _ _)) _

/-! ### A cluster at the end of a chain -/

theorem Chain.congr (hchain : Chain g v clus length)
    (hfat : ∀ c < g.totalClusterCount + 2, v'.fat c = v.fat c) : Chain g v' clus length where
  cluster := hchain.cluster
  inj := hchain.inj
  link := fun i hi => by
    rw [hfat _ (hchain.cluster i (Nat.lt_of_succ_lt hi)).2]
    exact hchain.link i hi
  last := fun i hi => by
    rw [hfat _ (hchain.cluster i (by omega)).2]
    exact hchain.last i hi

theorem Chain.fat_ne (hchain : Chain g v clus length) (hi : i < length) :
    v.fat (clus i) ≠ CLUST_NONE := by
  intro hnone
  rcases Nat.lt_or_ge (i + 1) length with h | h
  · have hlink := hchain.link i h
    have hcluster := (hchain.cluster (i + 1) h).1
    rw [hnone, linkOf_none] at hlink
    rw [← hlink] at hcluster
    exact absurd hcluster (by decide)
  · have hlast := hchain.last i (by omega)
    rw [hnone, linkOf_none] at hlast
    exact hlast (getClusType_none _)

theorem Chain.append (hchain : Chain g v clus (length + 1)) {c' : Nat}
    (happ : Appended g v v' (clus length) c') :
    Chain g v' (Function.update clus (length + 1) c') (length + 2) := by
  obtain ⟨hc', hnone⟩ := mem_freeClusters.mp happ.free
  have hfresh : ∀ i < length + 1, clus i ≠ c' := fun i hi heq =>
    hchain.fat_ne hi (heq ▸ hnone)
  have hold : ∀ i < length + 1, Function.update clus (length + 1) c' i = clus i := fun i hi =>
    Function.update_of_ne (by omega) _ _
  have hnew : Function.update clus (length + 1) c' (length + 1) = c' := Function.update_self _ _ _
  refine ⟨fun i hi => ?_, fun i hi j hj heq => ?_, fun i hi => ?_, fun i hi => ?_⟩
  · rcases Nat.lt_or_ge i (length + 1) with h | h
    · rw [hold i h]
      exact hchain.cluster i h
    · rw [show i = length + 1 by omega, hnew]
      exact hc'
  · rcases Nat.lt_or_ge i (length + 1) with h | h
    · rcases Nat.lt_or_ge j (length + 1) with h' | h'
      · rw [hold i h, hold j h'] at heq
        exact hchain.inj i h j h' heq
      · rw [hold i h, show j = length + 1 by omega, hnew] at heq
        exact absurd heq (hfresh i h)
    · rcases Nat.lt_or_ge j (length + 1) with h' | h'
      · rw [hold j h', show i = length + 1 by omega, hnew] at heq
        exact absurd heq.symm (hfresh j h')
      · omega
  · rw [hold i (by omega)]
    rcases Nat.lt_or_ge (i + 1) (length + 1) with h | h
    · rw [hold _ h, happ.others _ (hchain.cluster i (by omega)).2 _ (hfresh i (by omega))]
      · exact hchain.link i h
      · exact fun heq => by
          have := hchain.inj i (by omega) length (by omega) heq
          omega
    · obtain rfl : i = length := by omega
      rw [hnew]
      exact happ.link
  · rw [show i = length + 1 by omega, hnew, happ.last, getClusType_endMark]
    exact ClusType.noConfusion

/-! ### Writing to a file -/

/-- What writing `n` bytes from a position on makes of a volume: the bytes of the file, its chain,
    and a sector of the volume that stays, as no cluster in reach of the file has it. -/
structure Wrote (g : LogicDisk) (entrySector : Nat) (v : Volume) (clus : Nat → Nat) (length : Nat)
    (v' : Volume) (clus' : Nat → Nat) (length' position n : Nat) (bytes : Nat → UInt8) : Prop where
  le : length ≤ length'
  same : ∀ i < length, clus' i = clus i
  mounted : Mounted g v'
  chain : Chain g v' clus' length'
  budget : length + (freeClusters g v).card ≤ length' + (freeClusters g v').card
  reach : ∀ c, InReach g v' clus' length' c → InReach g v clus length c
  entry : v'.sectors entrySector = v.sectors entrySector
  covers : position + n ≤ length' * clusSize g
  content : ∀ i < length' * clusSize g,
    i < length * clusSize g ∨ position ≤ i ∧ i < position + n →
      byteAt g v' clus' i = overlay (byteAt g v clus) position n bytes i

def Apart (g : LogicDisk) (v : Volume) (clus : Nat → Nat) (length sect : Nat) : Prop :=
  fatEnd g ≤ sect ∧ ∀ c, InReach g v clus length c → ∀ r < g.sectorsPerCluster,
    sect ≠ sectorOf g c r

variable {sect p n m : Nat} {bytes : Nat → UInt8}

theorem Wrote.refl (hv : Mounted g v) (hchain : Chain g v clus length)
    (hp : p ≤ length * clusSize g) : Wrote g sect v clus length v clus length p 0 bytes where
  le := le_rfl
  same := fun _ _ => rfl
  mounted := hv
  chain := hchain
  budget := le_rfl
  reach := fun _ h => h
  entry := rfl
  covers := hp
  content := fun i _ _ => (overlay_outside (by omega)).symm

theorem Wrote.trans {v₁ v₂ : Volume} {clus₁ clus₂ : Nat → Nat} {length₁ length₂ : Nat}
    (h₁ : Wrote g sect v clus length v₁ clus₁ length₁ p m bytes)
    (h₂ : Wrote g sect v₁ clus₁ length₁ v₂ clus₂ length₂ (p + m) n fun i => bytes (m + i)) :
    Wrote g sect v clus length v₂ clus₂ length₂ p (m + n) bytes where
  le := h₁.le.trans h₂.le
  same := fun i hi => (h₂.same i (hi.trans_le h₁.le)).trans (h₁.same i hi)
  mounted := h₂.mounted
  chain := h₂.chain
  budget := h₁.budget.trans h₂.budget
  reach := fun c hc => h₁.reach c (h₂.reach c hc)
  entry := h₂.entry.trans h₁.entry
  covers := by
    have := h₂.covers
    omega
  content := fun i hi hwritten => by
    have hcovers := h₁.covers
    have hmono : length * clusSize g ≤ length₁ * clusSize g := Nat.mul_le_mul_right _ h₁.le
    rw [h₂.content i hi (by omega), ← overlay_overlay]
    rcases Nat.lt_or_ge i (p + m) with h | h
    · rw [overlay_outside (Or.inl h), overlay_outside (Or.inl h)]
      exact h₁.content i (by omega) (by omega)
    · rcases Nat.lt_or_ge i (p + m + n) with h' | h'
      · rw [overlay_inside h h', overlay_inside h h']
      · rw [overlay_outside (Or.inr h'), overlay_outside (Or.inr h')]
        exact h₁.content i (by omega) (by omega)

theorem Apart.wrote (hapart : Apart g v clus length sect)
    (h : Wrote g sect v clus length v' clus' length' p n bytes) :
    Apart g v' clus' length' sect := ⟨hapart.1, fun c hc => hapart.2 c (h.reach c hc)⟩

theorem card_freeClusters_le (c' : Nat)
    (h : ∀ d, IsCluster g d → d ≠ c' → v.fat d = CLUST_NONE → v'.fat d = CLUST_NONE) :
    (freeClusters g v).card ≤ (freeClusters g v').card + 1 := by
  have hsub : freeClusters g v ⊆ insert c' (freeClusters g v') := fun d hd => by
    obtain ⟨hd', hnone⟩ := mem_freeClusters.mp hd
    by_cases heq : d = c'
    · exact Finset.mem_insert.mpr (Or.inl heq)
    · exact Finset.mem_insert_of_mem (mem_freeClusters.mpr ⟨hd', h d hd' heq hnone⟩)
  exact (Finset.card_le_card hsub).trans (Finset.card_insert_le _ _)

theorem Wrote.append (hg : Geometry g) (hchain : Chain g v clus (length + 1)) {c' : Nat}
    (happ : Appended g v v' (clus length) c') (hsect : fatEnd g ≤ sect)
    (hp : p ≤ (length + 1) * clusSize g) :
    Wrote g sect v clus (length + 1) v' (Function.update clus (length + 1) c') (length + 2) p 0
      bytes where
  le := Nat.le_succ _
  same := fun i hi => Function.update_of_ne (by omega) _ _
  mounted := happ.mounted
  chain := hchain.append happ
  budget := by
    have hcard := card_freeClusters_le c' fun d hd hne hnone =>
      (happ.others d hd.2 (fun h => hchain.fat_ne (Nat.lt_succ_self length) (h ▸ hnone)) hne).trans
        hnone
    omega
  reach := fun c hc => by
    obtain ⟨hcluster, hnone | ⟨i, hi, hclus⟩⟩ := hc
    · refine ⟨hcluster, ?_⟩
      by_cases heq : c = clus length
      · exact Or.inr ⟨length, Nat.lt_succ_self _, heq.symm⟩
      · by_cases heq' : c = c'
        · exact Or.inl (heq' ▸ (mem_freeClusters.mp happ.free).2)
        · exact Or.inl (happ.others c hcluster.2 heq heq' ▸ hnone)
    · rcases Nat.lt_or_ge i (length + 1) with h | h
      · rw [Function.update_of_ne (by omega)] at hclus
        exact ⟨hcluster, Or.inr ⟨i, h, hclus⟩⟩
      · rw [show i = length + 1 by omega, Function.update_self] at hclus
        exact ⟨hcluster, Or.inl (hclus ▸ (mem_freeClusters.mp happ.free).2)⟩
  entry := happ.frame sect hsect
  covers := by
    have : (length + 1) * clusSize g ≤ (length + 2) * clusSize g :=
      Nat.mul_le_mul_right _ (Nat.le_succ _)
    omega
  content := fun i _ hi => by
    rw [overlay_outside (by omega)]
    exact byteAt_congr hg (fun j hj => Function.update_of_ne (by omega) _ _) happ.frame
      (show i < (length + 1) * clusSize g by omega)

theorem fat_setSector (hg : Geometry g) (hv : Mounted g v) {s : Nat} (hs : fatEnd g ≤ s)
    (sector : Sector) :
    Mounted g (v.setSector s sector) ∧
      ∀ c < g.totalClusterCount + 2, (v.setSector s sector).fat c = v.fat c := by
  have hentry : ∀ base c, base + c / g.entriesPerSector < fatEnd g →
      (v.setSector s sector).entry base c = v.entry base c := fun base c hlt => by
    refine entry_congr rfl rfl (Function.update_of_ne ?_ _ _)
    rw [hv.entriesPerSector_eq, uint32_nat (hlt.trans hg.fatEnd_lt)]
    exact (hlt.trans_le hs).ne
  have hfirst : ∀ c < g.totalClusterCount + 2,
      v.disk.fatBaseSector₀ + c / g.entriesPerSector < fatEnd g := fun c hc =>
    hv.fatBaseSector₀_eq ▸ (hg.fat₀_lt hc).trans_le fatBaseSector₁_le
  have hfat : ∀ c < g.totalClusterCount + 2, (v.setSector s sector).fat c = v.fat c :=
    fun c hc => hentry _ c (hfirst c hc)
  refine ⟨⟨hv.onDisk, fun c hc => ?_, fun c hc => ?_⟩, hfat⟩
  · exact (hentry _ c (hv.fatBaseSector₁_eq ▸ fat₁_lt hc)).trans
      ((hv.agree c hc).trans (hentry _ c (hfirst c hc)).symm)
  · exact hfat c (hc.trans_le (Nat.le_add_left _ _)) ▸ hv.reserved c hc

theorem freeClusters_congr (hfat : ∀ c < g.totalClusterCount + 2, v'.fat c = v.fat c) :
    freeClusters g v' = freeClusters g v :=
  Finset.filter_congr fun c hc => by rw [hfat c (Finset.mem_Ico.mp hc).2]

theorem InReach.congr (hfat : ∀ c < g.totalClusterCount + 2, v'.fat c = v.fat c)
    (h : InReach g v' clus length c) : InReach g v clus length c :=
  ⟨h.1, h.2.imp_left fun hnone => (hfat c h.1.2).symm.trans hnone⟩

theorem Wrote.piece (hg : Geometry g) (hv : Mounted g v) (hchain : Chain g v clus length)
    (hapart : Apart g v clus length sect) {q d : Nat} (hq : q / g.sectorsPerCluster < length)
    {src : List UInt8} (hd : d + src.length ≤ 512)
    (hsrc : ∀ i < src.length, src.getD i 0 = bytes i) :
    Wrote g sect v clus length
      (v.setSector (fileSector g clus q) (memcpy (v.sectors (fileSector g clus q)) d src)) clus
      length (512 * q + d) src.length bytes := by
  have hpast := fatEnd_le_sectorOf hg (clus (q / g.sectorsPerCluster)) (q % g.sectorsPerCluster)
  obtain ⟨hv', hfat⟩ := fat_setSector hg hv hpast (memcpy (v.sectors (fileSector g clus q)) d src)
  refine ⟨le_rfl, fun _ _ => rfl, hv', hchain.congr hfat, ?_, fun c hc => hc.congr hfat, ?_, ?_,
    fun i hi _ => ?_⟩
  · exact (freeClusters_congr hfat).symm ▸ le_rfl
  · exact Function.update_of_ne (hapart.2 _ ⟨hchain.cluster _ hq, Or.inr ⟨_, hq, rfl⟩⟩ _
      (Nat.mod_lt _ hg.perClus_pos)) _ _
  · have hlast := (sector_lt_iff hg).mp hq
    have hdvd : length * clusSize g = 512 * (length * g.sectorsPerCluster) := by
      rw [clusSize, Nat.mul_left_comm]
    omega
  · by_cases hsame : i / 512 = q
    · have hwritten : byteAt g (v.setSector (fileSector g clus q)
          (memcpy (v.sectors (fileSector g clus q)) d src)) clus i =
          memcpy (v.sectors (fileSector g clus q)) d src (i % 512) := by
        rw [byteAt, hsame]
        exact congrFun (Function.update_self _ _ _) _
      rw [hwritten]
      by_cases hin : d ≤ i % 512 ∧ i % 512 < d + src.length
      · rw [overlay_inside (by omega) (by omega), memcpy, overlay_inside hin.1 hin.2,
          hsrc _ (by omega)]
        congr 1
        omega
      · rw [overlay_outside (by omega), memcpy_outside (by omega), byteAt, hsame]
    · rw [overlay_outside (by omega), byteAt, byteAt]
      refine congrFun (Function.update_of_ne (fun heq => hsame ?_) _ _) _
      exact fileSector_inj hg hchain (byte_sector_lt hg hi) hq heq

end TinyClr.FatFileHandle
