import Mathlib.Data.Finset.Card
import Mathlib.Order.Interval.Finset.Nat
import TinyClr.Drivers.FatVolume

/-!
# The table of a volume as a map

On a volume whose geometry is sound, the two copies of the FAT are one map from clusters to what
follows them: `WriteFAT` changes it at one cluster and touches no sector past the FAT, and
`GetNextFreeClus` finds a cluster whose entry is 0 when there is one.
-/

namespace TinyClr.FatVolume

open TinyClr.Library TinyClr.FatLogicDisk

/-- What the places of a volume have to do with each other -/
structure Geometry (g : LogicDisk) : Prop where
  bytesPerSector : g.bytesPerSector = 512
  perClus_pos : 0 < g.sectorsPerCluster
  perClus_le : g.sectorsPerCluster ≤ 128
  entriesPerSector : g.entriesPerSector = if g.isFAT16 then 256 else 128
  /-- The first copy of the FAT has an entry for every cluster, and so has the second. -/
  fat₀ : g.fatBaseSector₀ + (g.totalClusterCount + 1) / g.entriesPerSector < g.fatBaseSector₁
  fat₁ : g.fatBaseSector₁ + (g.totalClusterCount + 1) / g.entriesPerSector < g.firstDataSector
  fsInfo : g.isFAT16 = false → g.sectorFSInfo < g.fatBaseSector₀
  sectors_lt : g.firstDataSector + g.totalClusterCount * g.sectorsPerCluster < 2 ^ 32
  /-- No number of a cluster is a mark. -/
  clusters_le : g.totalClusterCount + 2 ≤ if g.isFAT16 then CLUST_FAT16_BAD else CLUST_FAT32_BAD

def fatEnd (g : LogicDisk) : Nat :=
  g.fatBaseSector₁ + (g.totalClusterCount + 1) / g.entriesPerSector + 1

def IsCluster (g : LogicDisk) (c : Nat) : Prop := 2 ≤ c ∧ c < g.totalClusterCount + 2

/-- What an entry says about its cluster: a FAT32 entry has 28 bits. -/
def linkOf (isFAT16 : Bool) (entry : Nat) : Nat := if isFAT16 then entry else entry &&& FAT32_MASK

/-- The entry of a cluster in the first copy -/
def Volume.fat (v : Volume) (c : Nat) : Nat := v.entry v.disk.fatBaseSector₀ c

/-- A volume on a disk: but for the free count and the cluster to search from, the disk is as it was
    when it was mounted; the copies of the FAT agree, and the entries of no cluster are in use. -/
structure Mounted (g : LogicDisk) (v : Volume) : Prop where
  onDisk : ∃ freeCount nextFree, v.disk = { g with freeCount, nextFree }
  agree : ∀ c < g.totalClusterCount + 2,
    v.entry v.disk.fatBaseSector₁ c = v.entry v.disk.fatBaseSector₀ c
  reserved : ∀ c < 2, v.fat c ≠ CLUST_NONE

variable {g : LogicDisk} {v v' : Volume} {c c' x : Nat}

/-! ### Entries -/

theorem getEntry_setEntry (isFAT16 : Bool) (fat : Sector) (dataOffset value : Nat) :
    getEntry isFAT16 (setEntry isFAT16 fat dataOffset value) dataOffset =
      value % if isFAT16 then 2 ^ 16 else 2 ^ 32 := by
  cases isFAT16
  · simp [getEntry, setEntry]
  · simp [getEntry, setEntry]

theorem getEntry_setEntry_of_ne (isFAT16 : Bool) (fat : Sector) {o o' : Nat} (value : Nat)
    (h : o' ≠ o) : getEntry isFAT16 (setEntry isFAT16 fat o value) o' = getEntry isFAT16 fat o' := by
  cases isFAT16
  · simp only [getEntry, setEntry, Bool.false_eq_true, if_false]
    exact word32_memcpy_of_disjoint (by rw [length_bytes32]; omega)
  · simp only [getEntry, setEntry, if_true]
    exact word16_memcpy_of_disjoint (by rw [length_bytes16]; omega)

theorem linkOf_replaced (isFAT16 : Bool) (oldValue value : Nat)
    (h : value < if isFAT16 then 2 ^ 16 else 2 ^ 28) :
    linkOf isFAT16 ((replaceEntry isFAT16 oldValue value).2 %
      if isFAT16 then 2 ^ 16 else 2 ^ 32) = value := by
  cases isFAT16
  · have hmask : ∀ y, y &&& FAT32_MASK = y % 2 ^ 28 := and_mask 28 rfl
    have hhigh : oldValue &&& 0xf0000000 &&& FAT32_MASK = 0 := by
      rw [Nat.and_assoc]
      exact Nat.and_zero oldValue
    have hvalue : value &&& FAT32_MASK = value := (hmask value).trans (Nat.mod_eq_of_lt h)
    simp only [linkOf, replaceEntry, Bool.false_eq_true, if_false]
    rw [hmask, Nat.mod_mod_of_dvd _ (by decide), ← hmask, hvalue, Nat.and_or_distrib_right, hhigh,
      Nat.or_zero, hvalue]
  · exact Nat.mod_eq_of_lt h

theorem replaceEntry_old (isFAT16 : Bool) (oldValue value : Nat) :
    (replaceEntry isFAT16 oldValue value).1 = linkOf isFAT16 oldValue := by
  cases isFAT16 <;> rfl

@[simp] theorem linkOf_none (isFAT16 : Bool) : linkOf isFAT16 CLUST_NONE = CLUST_NONE := by
  cases isFAT16 <;> rfl

/-! ### Places -/

theorem Geometry.clusters_lt (hg : Geometry g) :
    g.totalClusterCount + 2 < if g.isFAT16 then 2 ^ 16 else 2 ^ 28 := by
  have hle := hg.clusters_le
  cases h : g.isFAT16
  · simp only [h, Bool.false_eq_true, if_false, CLUST_FAT32_BAD] at hle ⊢
    omega
  · simp only [h, if_true, CLUST_FAT16_BAD] at hle ⊢
    omega

theorem Geometry.totalClusterCount_lt (hg : Geometry g) : g.totalClusterCount + 2 < 2 ^ 28 := by
  have hlt := hg.clusters_lt
  split at hlt
  · omega
  · exact hlt

theorem Geometry.offset_le (hc : c < g.totalClusterCount + 2) :
    c / g.entriesPerSector ≤ (g.totalClusterCount + 1) / g.entriesPerSector :=
  Nat.div_le_div_right (by omega)

theorem Geometry.firstDataSector_lt (hg : Geometry g) : g.firstDataSector < 2 ^ 32 :=
  Nat.lt_of_le_of_lt (Nat.le_add_right _ _) hg.sectors_lt

theorem Geometry.fat₀_lt (hg : Geometry g) (hc : c < g.totalClusterCount + 2) :
    g.fatBaseSector₀ + c / g.entriesPerSector < g.fatBaseSector₁ :=
  Nat.lt_of_le_of_lt (Nat.add_le_add_left (offset_le hc) _) hg.fat₀

theorem fat₁_lt (hc : c < g.totalClusterCount + 2) :
    g.fatBaseSector₁ + c / g.entriesPerSector < fatEnd g :=
  Nat.lt_succ_of_le (Nat.add_le_add_left (Geometry.offset_le hc) _)

theorem Geometry.fatEnd_le (hg : Geometry g) : fatEnd g ≤ g.firstDataSector := hg.fat₁

theorem Geometry.fatEnd_lt (hg : Geometry g) : fatEnd g < 2 ^ 32 :=
  Nat.lt_of_le_of_lt hg.fatEnd_le hg.firstDataSector_lt

theorem fatBaseSector₁_le : g.fatBaseSector₁ ≤ fatEnd g := by
  rw [fatEnd, Nat.add_assoc]
  exact Nat.le_add_right _ _

theorem maxCluster_eq (hg : Geometry g) : maxCluster g = g.totalClusterCount + 2 := by
  have hlt := hg.totalClusterCount_lt
  exact uint32_nat (n := g.totalClusterCount + 2) (by omega)

variable {base : Nat}

theorem entry_congr (hfat16 : v'.disk.isFAT16 = v.disk.isFAT16)
    (hentries : v'.disk.entriesPerSector = v.disk.entriesPerSector)
    (h : v'.sectors (uint32 (base + c / v.disk.entriesPerSector : Nat)) =
      v.sectors (uint32 (base + c / v.disk.entriesPerSector : Nat))) :
    v'.entry base c = v.entry base c := by
  rw [Volume.entry, Volume.entry, hfat16, hentries, h]

namespace Mounted

theorem isFAT16_eq (hv : Mounted g v) : v.disk.isFAT16 = g.isFAT16 := by
  obtain ⟨_, _, h⟩ := hv.onDisk
  rw [h]

theorem entriesPerSector_eq (hv : Mounted g v) :
    v.disk.entriesPerSector = g.entriesPerSector := by
  obtain ⟨_, _, h⟩ := hv.onDisk
  rw [h]

theorem fatBaseSector₀_eq (hv : Mounted g v) : v.disk.fatBaseSector₀ = g.fatBaseSector₀ := by
  obtain ⟨_, _, h⟩ := hv.onDisk
  rw [h]

theorem fatBaseSector₁_eq (hv : Mounted g v) : v.disk.fatBaseSector₁ = g.fatBaseSector₁ := by
  obtain ⟨_, _, h⟩ := hv.onDisk
  rw [h]

theorem maxCluster_eq (hg : Geometry g) (hv : Mounted g v) :
    maxCluster v.disk = g.totalClusterCount + 2 := by
  obtain ⟨_, _, h⟩ := hv.onDisk
  rw [h]
  change maxCluster g = g.totalClusterCount + 2
  exact FatVolume.maxCluster_eq hg

end Mounted

/-! ### One copy is written -/

theorem writeCopy_sectors {s : Nat}
    (hs : s ≠ uint32 (base + c / v.disk.entriesPerSector : Nat)) :
    (v.writeCopy base c x).1.sectors s = v.sectors s := Function.update_of_ne hs _ _

theorem writeCopy_entry_self (v : Volume) (base c x : Nat) :
    (v.writeCopy base c x).1.entry base c =
      (replaceEntry v.disk.isFAT16 (v.entry base c) x).2 %
        if v.disk.isFAT16 then 2 ^ 16 else 2 ^ 32 := by
  rw [← getEntry_setEntry v.disk.isFAT16
    (v.sectors (uint32 (base + c / v.disk.entriesPerSector : Nat))) (c % v.disk.entriesPerSector)]
  exact congrArg (getEntry _ · _) (Function.update_self _ _ _)

theorem writeCopy_entry_of_ne
    (hc : base + c / v.disk.entriesPerSector < 2 ^ 32)
    (hc' : base + c' / v.disk.entriesPerSector < 2 ^ 32) (hne : c' ≠ c) :
    (v.writeCopy base c x).1.entry base c' = v.entry base c' := by
  by_cases hsame : c' / v.disk.entriesPerSector = c / v.disk.entriesPerSector
  · have hoffset : c' % v.disk.entriesPerSector ≠ c % v.disk.entriesPerSector := by
      intro heq
      rw [← Nat.div_add_mod c' v.disk.entriesPerSector, hsame, heq, Nat.div_add_mod] at hne
      exact hne rfl
    simp only [Volume.entry, Volume.writeCopy, Volume.setSector, hsame, Function.update_self]
    exact getEntry_setEntry_of_ne _ _ _ hoffset
  · refine entry_congr rfl rfl (writeCopy_sectors ?_)
    rw [uint32_nat hc, uint32_nat hc']
    omega

/-! ### `WriteFAT` -/

/-- The volume with another link at one cluster: the map is the same elsewhere, and so is all that
    lies past the FAT. -/
structure Relinked (g : LogicDisk) (v v' : Volume) (c x : Nat) : Prop where
  mounted : Mounted g v'
  link : linkOf g.isFAT16 (v'.fat c) = x
  others : ∀ c' < g.totalClusterCount + 2, c' ≠ c → v'.fat c' = v.fat c'
  frame : ∀ s, fatEnd g ≤ s → v'.sectors s = v.sectors s

@[simp] theorem setFSInfo_disk (v : Volume) (offset value : Nat) :
    (v.setFSInfo offset value).disk = v.disk := by
  unfold Volume.setFSInfo
  split <;> rfl

theorem setFSInfo_sectors {s : Nat} (offset value : Nat)
    (hs : v.disk.isFAT16 = false → s ≠ v.disk.sectorFSInfo) :
    (v.setFSInfo offset value).sectors s = v.sectors s := by
  unfold Volume.setFSInfo
  split
  · rfl
  · next h => exact Function.update_of_ne (hs (Bool.eq_false_iff.mpr h)) _ _

/-- The FSInfo sector is no sector of the FAT, and no entry depends on the counts. -/
theorem setCounts_spec (hg : Geometry g) (hv : Mounted g v) (disk : LogicDisk)
    (hdisk : ∃ freeCount nextFree, disk = { g with freeCount, nextFree }) (offset value : Nat) :
    let v' := ({ v with disk } : Volume).setFSInfo offset value
    Mounted g v' ∧ (∀ c < g.totalClusterCount + 2, v'.fat c = v.fat c) ∧
      ∀ s, fatEnd g ≤ s → v'.sectors s = v.sectors s := by
  intro v'
  have hdisk' : v'.disk = disk := setFSInfo_disk _ _ _
  obtain ⟨f, n, rfl⟩ := hdisk
  have hsectors : ∀ s, g.fatBaseSector₀ ≤ s → v'.sectors s = v.sectors s := fun s hs =>
    setFSInfo_sectors offset value fun hfat16 heq => by
      have hfsInfo := hg.fsInfo hfat16
      change s = g.sectorFSInfo at heq
      omega
  have hentry : ∀ base c, g.fatBaseSector₀ ≤ base → base + c / g.entriesPerSector < 2 ^ 32 →
      v'.entry base c = v.entry base c := fun base c hlow hlt => by
    refine entry_congr (by rw [hdisk', hv.isFAT16_eq]) (by rw [hdisk', hv.entriesPerSector_eq]) ?_
    rw [hv.entriesPerSector_eq, uint32_nat hlt]
    exact hsectors _ (hlow.trans (Nat.le_add_right _ _))
  have hcopies : g.fatBaseSector₀ ≤ g.fatBaseSector₁ :=
    (Nat.le_add_right _ _).trans hg.fat₀.le
  have hfat : ∀ c < g.totalClusterCount + 2, v'.fat c = v.fat c := fun c hc => by
    rw [Volume.fat, Volume.fat, hdisk', hv.fatBaseSector₀_eq]
    exact hentry _ c le_rfl ((hg.fat₀_lt hc).trans_le (fatBaseSector₁_le.trans hg.fatEnd_lt.le))
  refine ⟨⟨⟨f, n, hdisk'⟩, fun c hc => ?_, fun c hc => ?_⟩, hfat, fun s hs => ?_⟩
  · rw [hdisk', hentry _ c hcopies ((fat₁_lt hc).trans hg.fatEnd_lt), ← hv.fatBaseSector₁_eq,
      hv.agree c hc]
    rw [← Volume.fat, ← hfat c hc, Volume.fat, hdisk']
  · rw [hfat c (hc.trans_le (Nat.le_add_left _ _))]
    exact hv.reserved c hc
  · exact hsectors s (hcopies.trans (fatBaseSector₁_le.trans hs))

theorem updateCounts_eq (disk : LogicDisk) (clusIndex oldValue value : Nat) :
    ∃ freeCount nextFree,
      updateCounts disk clusIndex oldValue value = { disk with freeCount, nextFree } := by
  unfold updateCounts
  split <;> split <;> exact ⟨_, _, rfl⟩

/-- Both turns of the loop of `WriteFAT` -/
theorem writeCopies_spec (hg : Geometry g) (hv : Mounted g v) (hc : c < g.totalClusterCount + 2)
    (hx : x < if g.isFAT16 then 2 ^ 16 else 2 ^ 28) :
    let v₁ := (v.writeCopy v.disk.fatBaseSector₀ c x).1
    let second := v₁.writeCopy v.disk.fatBaseSector₁ c x
    second.2 = linkOf g.isFAT16 (v.fat c) ∧
      linkOf g.isFAT16 (second.1.fat c) = x ∧
      (∀ c' < g.totalClusterCount + 2, c' ≠ c → second.1.fat c' = v.fat c') ∧
      (∀ c' < g.totalClusterCount + 2,
        second.1.entry v.disk.fatBaseSector₁ c' = second.1.entry v.disk.fatBaseSector₀ c') ∧
      ∀ s, fatEnd g ≤ s → second.1.sectors s = v.sectors s := by
  intro v₁ second
  have hc₀ : ∀ c' < g.totalClusterCount + 2,
      v.disk.fatBaseSector₀ + c' / v.disk.entriesPerSector < v.disk.fatBaseSector₁ :=
    fun c' hc' => by
      rw [hv.fatBaseSector₀_eq, hv.fatBaseSector₁_eq, hv.entriesPerSector_eq]
      exact hg.fat₀_lt hc'
  have hc₁ : ∀ c' < g.totalClusterCount + 2,
      v.disk.fatBaseSector₁ + c' / v.disk.entriesPerSector < fatEnd g := fun c' hc' => by
    rw [hv.fatBaseSector₁_eq, hv.entriesPerSector_eq]
    exact fat₁_lt hc'
  have hfirst : v.disk.fatBaseSector₁ ≤ fatEnd g := hv.fatBaseSector₁_eq ▸ fatBaseSector₁_le
  have hw₀ : ∀ c' < g.totalClusterCount + 2,
      v.disk.fatBaseSector₀ + c' / v.disk.entriesPerSector < 2 ^ 32 :=
    fun c' hc' => (hc₀ c' hc').trans_le (hfirst.trans hg.fatEnd_lt.le)
  have hw₁ : ∀ c' < g.totalClusterCount + 2,
      v.disk.fatBaseSector₁ + c' / v.disk.entriesPerSector < 2 ^ 32 :=
    fun c' hc' => (hc₁ c' hc').trans hg.fatEnd_lt
  -- the copies do not share a sector
  have hother₁ : ∀ c' < g.totalClusterCount + 2,
      v₁.entry v.disk.fatBaseSector₁ c' = v.entry v.disk.fatBaseSector₁ c' := fun c' hc' => by
    refine entry_congr rfl rfl (writeCopy_sectors ?_)
    rw [uint32_nat (hw₁ c' hc'), uint32_nat (hw₀ c hc)]
    exact ((hc₀ c hc).trans_le (Nat.le_add_right _ _)).ne'
  have hother₂ : ∀ c' < g.totalClusterCount + 2,
      second.1.entry v.disk.fatBaseSector₀ c' = v₁.entry v.disk.fatBaseSector₀ c' :=
    fun c' hc' => by
      refine entry_congr rfl rfl (writeCopy_sectors ?_)
      change uint32 (v.disk.fatBaseSector₀ + c' / v.disk.entriesPerSector : Nat) ≠
        uint32 (v.disk.fatBaseSector₁ + c / v.disk.entriesPerSector : Nat)
      rw [uint32_nat (hw₁ c hc), uint32_nat (hw₀ c' hc')]
      exact ((hc₀ c' hc').trans_le (Nat.le_add_right _ _)).ne
  have hold : v₁.entry v.disk.fatBaseSector₁ c = v.fat c :=
    (hother₁ c hc).trans (hv.agree c hc)
  have hself₀ : second.1.entry v.disk.fatBaseSector₀ c =
      (replaceEntry v.disk.isFAT16 (v.fat c) x).2 % if v.disk.isFAT16 then 2 ^ 16 else 2 ^ 32 :=
    (hother₂ c hc).trans (writeCopy_entry_self v _ c x)
  have hself₁ : second.1.entry v.disk.fatBaseSector₁ c =
      (replaceEntry v.disk.isFAT16 (v.fat c) x).2 % if v.disk.isFAT16 then 2 ^ 16 else 2 ^ 32 := by
    rw [← hold]
    exact writeCopy_entry_self v₁ _ c x
  have hne₀ : ∀ c' < g.totalClusterCount + 2, c' ≠ c →
      second.1.entry v.disk.fatBaseSector₀ c' = v.fat c' := fun c' hc' hne =>
    (hother₂ c' hc').trans (writeCopy_entry_of_ne (hw₀ c hc) (hw₀ c' hc') hne)
  have hne₁ : ∀ c' < g.totalClusterCount + 2, c' ≠ c →
      second.1.entry v.disk.fatBaseSector₁ c' = v.fat c' := fun c' hc' hne =>
    (writeCopy_entry_of_ne (v := v₁) (hw₁ c hc) (hw₁ c' hc') hne).trans
      ((hother₁ c' hc').trans (hv.agree c' hc'))
  refine ⟨?_, ?_, hne₀, fun c' hc' => ?_, fun s hs => ?_⟩
  · rw [← hold, ← hv.isFAT16_eq]
    exact replaceEntry_old _ _ _
  · change linkOf g.isFAT16 (second.1.entry v.disk.fatBaseSector₀ c) = x
    rw [hself₀, hv.isFAT16_eq]
    exact linkOf_replaced _ _ _ hx
  · by_cases hne : c' = c
    · rw [hne, hself₀, hself₁]
    · rw [hne₀ c' hc' hne, hne₁ c' hc' hne]
  · refine (writeCopy_sectors (v := v₁) ?_).trans (writeCopy_sectors ?_)
    · change s ≠ uint32 (v.disk.fatBaseSector₁ + c / v.disk.entriesPerSector : Nat)
      rw [uint32_nat (hw₁ c hc)]
      exact ((hc₁ c hc).trans_le hs).ne'
    · rw [uint32_nat (hw₀ c hc)]
      exact ((hc₀ c hc).trans_le (hfirst.trans hs)).ne'

theorem writeFAT_eq (hc : ¬ maxCluster v.disk ≤ c) :
    let y := endMark v.disk.isFAT16 x
    let second := (v.writeCopy v.disk.fatBaseSector₀ c y).1.writeCopy v.disk.fatBaseSector₁ c y
    let disk := updateCounts second.1.disk c second.2 y
    v.writeFAT c x =
      (({ second.1 with disk } : Volume).setFSInfo 488 disk.freeCount, second.2) := by
  rw [Volume.writeFAT, if_neg hc]
  rfl

theorem writeFAT_spec (hg : Geometry g) (hv : Mounted g v) (hc : IsCluster g c)
    (hx : endMark g.isFAT16 x < if g.isFAT16 then 2 ^ 16 else 2 ^ 28) :
    Relinked g v (v.writeFAT c x).1 c (endMark g.isFAT16 x) ∧
      (v.writeFAT c x).2 = linkOf g.isFAT16 (v.fat c) := by
  obtain ⟨hold, hlink, hothers, hagree, hframe⟩ :=
    writeCopies_spec hg hv hc.2 hx
  rw [writeFAT_eq (by rw [hv.maxCluster_eq hg]; exact Nat.not_le.mpr hc.2), hv.isFAT16_eq]
  dsimp only
  generalize hsecond : ((v.writeCopy v.disk.fatBaseSector₀ c (endMark g.isFAT16 x)).1.writeCopy
    v.disk.fatBaseSector₁ c (endMark g.isFAT16 x)) = second at *
  have hdisk : second.1.disk = v.disk := by rw [← hsecond]; rfl
  have hwritten : Mounted g second.1 := by
    refine ⟨hdisk ▸ hv.onDisk, hdisk ▸ hagree, fun c' hc' => ?_⟩
    rw [hothers c' (hc'.trans_le (Nat.le_add_left _ _)) (hc'.trans_le hc.1).ne]
    exact hv.reserved c' hc'
  obtain ⟨freeCount, nextFree, hcounts⟩ :=
    updateCounts_eq second.1.disk c second.2 (endMark g.isFAT16 x)
  obtain ⟨f, n, hv₀⟩ := hwritten.onDisk
  obtain ⟨hmounted, hfat, hframe'⟩ := setCounts_spec hg hwritten
    (updateCounts second.1.disk c second.2 (endMark g.isFAT16 x))
    ⟨freeCount, nextFree, by rw [hcounts, hv₀]⟩ 488
    (updateCounts second.1.disk c second.2 (endMark g.isFAT16 x)).freeCount
  refine ⟨⟨hmounted, ?_, fun c' hc' hne => ?_, fun s hs => ?_⟩, hold⟩
  · exact (congrArg _ (hfat c hc.2)).trans hlink
  · exact (hfat c' hc').trans (hothers c' hc' hne)
  · exact (hframe' s hs).trans (hframe s hs)

/-! ### Free clusters -/

def freeClusters (g : LogicDisk) (v : Volume) : Finset Nat :=
  (Finset.Ico 2 (g.totalClusterCount + 2)).filter fun c => v.fat c = CLUST_NONE

theorem mem_freeClusters : c ∈ freeClusters g v ↔ IsCluster g c ∧ v.fat c = CLUST_NONE := by
  rw [freeClusters, Finset.mem_filter, Finset.mem_Ico, IsCluster]

theorem getNextFreeClusHelper_some {fromClus toClus : Nat}
    (h : v.getNextFreeClusHelper fromClus toClus = some c) :
    fromClus ≤ c ∧ c < toClus ∧ v.fat c = CLUST_NONE := by
  have hmem := List.mem_range'_1.mp (List.mem_of_find?_eq_some h)
  rw [Volume.getNextFreeClusHelper] at h
  have hfree := List.find?_some h
  exact ⟨hmem.1, by omega, of_decide_eq_true hfree⟩

theorem getNextFreeClusHelper_none {fromClus toClus : Nat}
    (h : v.getNextFreeClusHelper fromClus toClus = none) (hlow : fromClus ≤ c) (hhigh : c < toClus) :
    v.fat c ≠ CLUST_NONE := fun hfree =>
  List.find?_eq_none.mp h c (List.mem_range'_1.mpr ⟨hlow, by omega⟩) (decide_eq_true hfree)

theorem findFreeClus_spec (hg : Geometry g) (hv : Mounted g v)
    (hfree : (freeClusters g v).Nonempty) :
    ∃ c, v.findFreeClus = some c ∧ c ∈ freeClusters g v := by
  obtain ⟨free, hmem⟩ := hfree
  obtain ⟨⟨hlow, hhigh⟩, hnone⟩ := mem_freeClusters.mp hmem
  have hcluster : ∀ {c}, c < g.totalClusterCount + 2 → v.fat c = CLUST_NONE →
      c ∈ freeClusters g v := fun {c} hlt hzero =>
    mem_freeClusters.mpr
      ⟨⟨Nat.not_lt.mp fun hreserved => hv.reserved c hreserved hzero, hlt⟩, hzero⟩
  unfold Volume.findFreeClus
  rw [hv.maxCluster_eq hg, CLUSTER_START]
  dsimp only
  generalize hstart : (if g.totalClusterCount + 2 ≤ v.disk.nextFree then 2
    else v.disk.nextFree) = start
  rcases hfirst : v.getNextFreeClusHelper start (g.totalClusterCount + 2) with _ | c
  · dsimp only
    by_cases hearly : free < start
    · rw [if_neg (by omega)]
      rcases hsecond : v.getNextFreeClusHelper 2 start with _ | c
      · exact absurd hnone (getNextFreeClusHelper_none hsecond hlow hearly)
      · obtain ⟨-, hlt, hzero⟩ := getNextFreeClusHelper_some hsecond
        refine ⟨c, rfl, hcluster ?_ hzero⟩
        rw [← hstart] at hlt
        split at hlt <;> omega
    · exact absurd hnone (getNextFreeClusHelper_none hfirst (Nat.not_lt.mp hearly) hhigh)
  · obtain ⟨-, hlt, hzero⟩ := getNextFreeClusHelper_some hfirst
    exact ⟨c, rfl, hcluster hlt hzero⟩

/-- A free cluster is found when there is one, and the table is as it was. -/
theorem getNextFreeClus_spec (hg : Geometry g) (hv : Mounted g v)
    (hfree : (freeClusters g v).Nonempty) :
    ∃ v' c, v.getNextFreeClus = (v', some c) ∧ c ∈ freeClusters g v ∧ Mounted g v' ∧
      (∀ c < g.totalClusterCount + 2, v'.fat c = v.fat c) ∧
      ∀ s, fatEnd g ≤ s → v'.sectors s = v.sectors s := by
  obtain ⟨c, hfound, hmem⟩ := findFreeClus_spec hg hv hfree
  obtain ⟨freeCount, nextFree, hdisk⟩ := hv.onDisk
  obtain ⟨hmounted, hfat, hframe⟩ := setCounts_spec hg hv
    { v.disk with nextFree := uint32 (c + 1 : Nat) }
    ⟨freeCount, uint32 (c + 1 : Nat), by rw [hdisk]⟩ 492 (uint32 (c + 1 : Nat))
  exact ⟨_, c, by rw [Volume.getNextFreeClus, hfound], hmem, hmounted, hfat, hframe⟩

/-! ### The sectors of a cluster -/

def sectorOf (g : LogicDisk) (c r : Nat) : Nat :=
  g.firstDataSector + (c - 2) * g.sectorsPerCluster + r

theorem fatEnd_le_sectorOf (hg : Geometry g) (c r : Nat) : fatEnd g ≤ sectorOf g c r :=
  hg.fatEnd_le.trans ((Nat.le_add_right _ _).trans (Nat.le_add_right _ _))

variable {r : Nat}

theorem sectorOf_inj (hc : 2 ≤ c) (hc' : 2 ≤ c') {r' : Nat}
    (hr : r < g.sectorsPerCluster) (hr' : r' < g.sectorsPerCluster)
    (h : sectorOf g c r = sectorOf g c' r') : c = c' ∧ r = r' := by
  have hpos : 0 < g.sectorsPerCluster := Nat.lt_of_le_of_lt (Nat.zero_le r) hr
  have heq : (c - 2) * g.sectorsPerCluster + r =
      (c' - 2) * g.sectorsPerCluster + r' := by
    unfold sectorOf at h
    omega
  rw [Nat.add_comm, Nat.mul_comm, Nat.add_comm _ r', Nat.mul_comm (c' - 2)] at heq
  obtain ⟨hclus, hrest⟩ := (Nat.div_mod_unique hpos).mpr ⟨heq, hr⟩
  obtain ⟨hclus', hrest'⟩ := (Nat.div_mod_unique hpos).mpr ⟨rfl, hr'⟩
  exact ⟨by omega, hrest.symm.trans hrest'⟩

theorem sectorOf_le (hc : IsCluster g c) (hr : r ≤ g.sectorsPerCluster) :
    sectorOf g c r ≤ g.firstDataSector + g.totalClusterCount * g.sectorsPerCluster := by
  have hmul : (c - 2 + 1) * g.sectorsPerCluster ≤
      g.totalClusterCount * g.sectorsPerCluster :=
    Nat.mul_le_mul_right _ (by have := hc.1; have := hc.2; omega)
  rw [Nat.add_mul, Nat.one_mul] at hmul
  unfold sectorOf
  omega

theorem clusToSect_eq (hg : Geometry g) (hv : Mounted g v) (hc : IsCluster g c) :
    v.disk.clusToSect c = sectorOf g c 0 := by
  obtain ⟨_, _, hdisk⟩ := hv.onDisk
  rw [hdisk, LogicDisk.clusToSect, CLUSTER_START, if_neg (Nat.not_lt.mpr hc.1)]
  exact uint32_nat (Nat.lt_of_le_of_lt (sectorOf_le hc (Nat.zero_le _)) hg.sectors_lt)

theorem sectToClus_eq (hg : Geometry g) (hv : Mounted g v) (hc : IsCluster g c)
    (hr : r ≤ g.sectorsPerCluster) :
    v.disk.sectToClus (sectorOf g c r) = if r = g.sectorsPerCluster then c + 1 else c := by
  obtain ⟨_, _, hdisk⟩ := hv.onDisk
  have hpos := hg.perClus_pos
  have hlt := hg.totalClusterCount_lt
  have hfirst : ¬ sectorOf g c r < g.firstDataSector := by unfold sectorOf; omega
  have hdiff : sectorOf g c r - g.firstDataSector =
      r + g.sectorsPerCluster * (c - 2) := by
    rw [sectorOf, Nat.mul_comm]
    omega
  have hdiv : (sectorOf g c r - g.firstDataSector) / g.sectorsPerCluster + 2 =
      if r = g.sectorsPerCluster then c + 1 else c := by
    rw [hdiff, Nat.add_mul_div_left _ _ hpos]
    have hlow := hc.1
    split
    · next h =>
      rw [h, Nat.div_self hpos]
      omega
    · next h =>
      rw [Nat.div_eq_of_lt (by omega)]
      omega
  rw [hdisk, LogicDisk.sectToClus, if_neg hfirst]
  refine (uint32_nat ?_).trans hdiv
  change (sectorOf g c r - g.firstDataSector) / g.sectorsPerCluster + 2 < 2 ^ 32
  have hhigh := hc.2
  rw [hdiv]
  split <;> omega

/-! ### `GetNextSect` -/

theorem readFAT_eq (hg : Geometry g) (hv : Mounted g v) (hc : c < g.totalClusterCount + 2) :
    v.readFAT c = linkOf g.isFAT16 (v.fat c) := by
  rw [Volume.readFAT, if_neg (by rw [hv.maxCluster_eq hg]; exact Nat.not_le.mpr hc), hv.isFAT16_eq]
  rfl

theorem getClusType_cluster (hg : Geometry g) (hc : IsCluster g c) :
    getClusType g.isFAT16 c = .data := by
  have hle := hg.clusters_le
  have hlt := hc.2
  have herror : c ≠ CLUST_ERROR := by
    have := hg.totalClusterCount_lt
    unfold CLUST_ERROR
    omega
  unfold getClusType
  rw [if_neg herror]
  cases h : g.isFAT16
  · simp only [h, Bool.false_eq_true, if_false] at hle ⊢
    unfold CLUST_FAT32_BAD at hle
    rw [if_neg (by unfold CLUST_FAT32_EOFS; omega), if_neg (by unfold CLUST_FAT32_BAD; omega)]
  · simp only [h, if_true] at hle ⊢
    unfold CLUST_FAT16_BAD at hle
    rw [if_neg (by unfold CLUST_FAT16_EOFS; omega), if_neg (by unfold CLUST_FAT16_BAD; omega)]

theorem getClusType_none (isFAT16 : Bool) : getClusType isFAT16 CLUST_NONE = .data := by
  cases isFAT16 <;> rfl

theorem getClusType_endMark (isFAT16 : Bool) :
    getClusType isFAT16 (endMark isFAT16 CLUST_EOF) = .eos := by
  cases isFAT16 <;> rfl

theorem endMark_cluster (hg : Geometry g) (hc : IsCluster g c) : endMark g.isFAT16 c = c := by
  refine if_neg ?_
  have hlt := hc.2
  have hle := hg.clusters_le
  unfold CLUST_EOF
  split at hle
  · unfold CLUST_FAT16_BAD at hle
    omega
  · unfold CLUST_FAT32_BAD at hle
    omega

theorem endMark_eof_lt (isFAT16 : Bool) :
    endMark isFAT16 CLUST_EOF < if isFAT16 then 2 ^ 16 else 2 ^ 28 := by
  cases isFAT16 <;> decide

theorem getNextSect_same (hg : Geometry g) (hv : Mounted g v) (hc : IsCluster g c)
    (hr : r + 1 < g.sectorsPerCluster) (create : Bool) :
    v.getNextSect create c (sectorOf g c r) = (v, some (c, sectorOf g c (r + 1))) := by
  have hnext : uint32 (sectorOf g c r + 1 : Nat) = sectorOf g c (r + 1) :=
    uint32_nat (Nat.lt_of_le_of_lt (sectorOf_le hc hr.le) hg.sectors_lt)
  have hclus := sectToClus_eq hg hv hc hr.le
  rw [if_neg hr.ne] at hclus
  rw [Volume.getNextSect, hnext, CLUSTER_START, if_neg (Nat.not_lt.mpr hc.1), if_pos hclus]

theorem getNextSect_end (hg : Geometry g) (hv : Mounted g v) (hc : IsCluster g c)
    (hr : r + 1 = g.sectorsPerCluster) (create : Bool) :
    v.getNextSect create c (sectorOf g c r) =
      let clus := linkOf g.isFAT16 (v.fat c)
      if getClusType g.isFAT16 clus ≠ .data then
        if create then
          match v.getNextFreeClus with
          | (v, none) => (v, none)
          | (v, some clus) =>
              let v := (v.writeFAT c clus).1
              let v := (v.writeFAT clus CLUST_EOF).1
              if clus < 2 then (v, none) else (v, some (clus, v.disk.clusToSect clus))
        else (v, none)
      else if clus < 2 then (v, none)
      else (v, some (clus, v.disk.clusToSect clus)) := by
  have hnext : uint32 (sectorOf g c r + 1 : Nat) = sectorOf g c (r + 1) :=
    uint32_nat (Nat.lt_of_le_of_lt (sectorOf_le hc hr.le) hg.sectors_lt)
  have hclus := sectToClus_eq hg hv hc hr.le
  rw [if_pos hr] at hclus
  generalize hres : v.getNextSect create c (sectorOf g c r) = res
  rw [Volume.getNextSect, hnext, CLUSTER_START, if_neg (Nat.not_lt.mpr hc.1), hclus,
    if_neg (Nat.succ_ne_self c), readFAT_eq hg hv hc.2, hv.isFAT16_eq] at hres
  exact hres.symm

theorem getNextSect_linked (hg : Geometry g) (hv : Mounted g v) (hc : IsCluster g c)
    (hr : r + 1 = g.sectorsPerCluster) (hlink : linkOf g.isFAT16 (v.fat c) = c')
    (hc' : IsCluster g c') (create : Bool) :
    v.getNextSect create c (sectorOf g c r) = (v, some (c', sectorOf g c' 0)) := by
  rw [getNextSect_end hg hv hc hr, hlink]
  dsimp only
  rw [getClusType_cluster hg hc', if_neg (by simp), if_neg (Nat.not_lt.mpr hc'.1),
    clusToSect_eq hg hv hc']

/-- The volume with a free cluster linked after the last one of a chain -/
structure Appended (g : LogicDisk) (v v' : Volume) (c c' : Nat) : Prop where
  free : c' ∈ freeClusters g v
  mounted : Mounted g v'
  link : linkOf g.isFAT16 (v'.fat c) = c'
  last : linkOf g.isFAT16 (v'.fat c') = endMark g.isFAT16 CLUST_EOF
  others : ∀ d < g.totalClusterCount + 2, d ≠ c → d ≠ c' → v'.fat d = v.fat d
  frame : ∀ s, fatEnd g ≤ s → v'.sectors s = v.sectors s

theorem getNextSect_create (hg : Geometry g) (hv : Mounted g v) (hc : IsCluster g c)
    (hr : r + 1 = g.sectorsPerCluster)
    (hlast : getClusType g.isFAT16 (linkOf g.isFAT16 (v.fat c)) ≠ .data)
    (hfree : (freeClusters g v).Nonempty) :
    ∃ v' c', v.getNextSect true c (sectorOf g c r) = (v', some (c', sectorOf g c' 0)) ∧
      Appended g v v' c c' := by
  obtain ⟨v₁, c', hfound, hmem, hv₁, hfat₁, hframe₁⟩ := getNextFreeClus_spec hg hv hfree
  obtain ⟨hc', hnone⟩ := mem_freeClusters.mp hmem
  have hne : c' ≠ c := by
    rintro rfl
    rw [hnone, linkOf_none] at hlast
    exact hlast (getClusType_none _)
  have hmark := endMark_cluster hg hc'
  obtain ⟨hlinked, -⟩ := writeFAT_spec hg hv₁ hc (hmark.symm ▸ hc'.2.trans hg.clusters_lt)
  rw [hmark] at hlinked
  obtain ⟨hended, -⟩ := writeFAT_spec hg hlinked.mounted hc' (endMark_eof_lt g.isFAT16)
  refine ⟨((v₁.writeFAT c c').1.writeFAT c' CLUST_EOF).1, c', ?_, hmem, hended.mounted, ?_,
    hended.link, fun d hd hdc hdc' => ?_, fun s hs => ?_⟩
  · rw [getNextSect_end hg hv hc hr]
    dsimp only
    rw [if_pos hlast, if_pos rfl, hfound]
    dsimp only
    rw [if_neg (Nat.not_lt.mpr hc'.1), clusToSect_eq hg hended.mounted hc']
  · rw [hended.others c hc.2 hne.symm]
    exact hlinked.link
  · rw [hended.others d hd hdc', hlinked.others d hd hdc, hfat₁ d hd]
  · rw [hended.frame s hs, hlinked.frame s hs, hframe₁ s hs]

end TinyClr.FatVolume
