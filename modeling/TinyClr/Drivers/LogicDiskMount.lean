import TinyClr.Drivers.LogicDisk

/-!
# What a mounted volume holds

A cluster number is in range where its entry lies inside the FAT and its sectors inside the volume.
`MountDisk` rounds the number of clusters up, asks for one entry of the FAT too few, and compares
the size of the volume modulo 2^32, so that the numbers of a volume that it accepts are in range
when `ImageFits` holds of the boot record and the region, and only then.
-/

namespace TinyClr.FatLogicDisk

open TinyClr.Library

variable {device : BlockStorageDevice} {disk disk' : LogicDisk} {dbr : Sector} {isFAT16 : Bool}

/-! ### Clusters in range -/

/-- The sectors of a FAT copy, which both copies have -/
def LogicDisk.fatSectors (disk : LogicDisk) : Nat :=
  uint32 (disk.fatBaseSector₁ - disk.fatBaseSector₀)

def LogicDisk.EntryInside (disk : LogicDisk) (clusIndex : Nat) : Prop :=
  clusIndex / disk.entriesPerSector < disk.fatSectors

/-- The sectors of a cluster are sectors of the volume, and their bytes lie in the region. -/
def LogicDisk.SectorsInside (disk : LogicDisk) (clusIndex : Nat) : Prop :=
  ∀ i < disk.sectorsPerCluster, disk.clusToSect clusIndex + i < disk.totalSectorCount ∧
    (disk.clusToSect clusIndex + i + 1) * disk.bytesPerSector ≤ disk.diskSize

/-- Every cluster number has its entry in the FAT and, from `CLUSTER_START` on, its sectors in the
    volume. -/
def LogicDisk.ClustersInRange (disk : LogicDisk) : Prop :=
  ∀ clusIndex < disk.totalClusterCount + CLUSTER_START,
    disk.EntryInside clusIndex ∧
      (CLUSTER_START ≤ clusIndex → disk.SectorsInside clusIndex)

/-! ### Boot records -/

def totalSectors (dbr : Sector) : Nat := if totSec16 dbr = 0 then totSec32 dbr else totSec16 dbr

def fatSectors (dbr : Sector) (isFAT16 : Bool) : Nat :=
  if isFAT16 then fatSz16 dbr else fatSz32 dbr

/-- The first sector after the reserved ones, the FAT copies and the root directory -/
def dataStart (dbr : Sector) (isFAT16 : Bool) : Nat :=
  uint32 (rsvdSecCnt dbr + fatSectors dbr isFAT16 * numFATs dbr + rootDirSectors dbr : Nat)

def sectorEntries (isFAT16 : Bool) : Nat := if isFAT16 then 256 else 128

/-- The data sectors are whole clusters that lie in the region, and the FAT has an entry for each of
    them and for the two numbers before them; or the difference that the number of clusters comes
    from is less than a cluster short of 2^32, so that there is no cluster. -/
def ImageFits (diskSize : Nat) (dbr : Sector) (isFAT16 : Bool) : Prop :=
  (dataStart dbr isFAT16 ≤ totalSectors dbr ∧
    secPerClus dbr ∣ totalSectors dbr - dataStart dbr isFAT16 ∧
    totalSectors dbr * DEFAULT_SECTOR_SIZE ≤ diskSize ∧
    (totalSectors dbr - dataStart dbr isFAT16) / secPerClus dbr + CLUSTER_START ≤
      fatSectors dbr isFAT16 * sectorEntries isFAT16) ∨
  2 ^ 32 < uint32 (totalSectors dbr - dataStart dbr isFAT16) + secPerClus dbr

theorem totalSectors_lt (dbr : Sector) : totalSectors dbr < 2 ^ 32 := by
  have h₁₆ : totSec16 dbr < 2 ^ 16 := word16_lt dbr 19
  have h₃₂ : totSec32 dbr < 2 ^ 32 := word32_lt dbr 32
  unfold totalSectors
  split
  · exact h₃₂
  · omega

theorem dataStart_lt (dbr : Sector) (isFAT16 : Bool) : dataStart dbr isFAT16 < 2 ^ 32 := by
  unfold dataStart uint32
  omega

theorem fatSectors_lt (dbr : Sector) (isFAT16 : Bool) : fatSectors dbr isFAT16 < 2 ^ 32 := by
  have h₁₆ : fatSz16 dbr < 2 ^ 16 := word16_lt dbr 22
  have h₃₂ : fatSz32 dbr < 2 ^ 32 := word32_lt dbr 36
  unfold fatSectors
  split
  · omega
  · exact h₃₂

/-- What a valid boot record says -/
structure Valid (dbr : Sector) (isFAT16 : Bool) : Prop where
  bytsPerSec : bytsPerSec dbr = 512
  secPerClus_pos : 0 < secPerClus dbr
  rsvdSecCnt_pos : 0 < rsvdSecCnt dbr
  fatSectors_pos : 0 < fatSectors dbr isFAT16
  /-- There are clusters for FAT16. -/
  clusters : 4085 ≤ uint32 (totalSectors dbr - dataStart dbr isFAT16) / secPerClus dbr

theorem getCountOfClusters_eq (hfat : (if fatSz16 dbr ≠ 0 then fatSz16 dbr else fatSz32 dbr) =
    fatSectors dbr isFAT16) :
    getCountOfClusters dbr =
      uint32 (totalSectors dbr - dataStart dbr isFAT16) / secPerClus dbr := by
  have htot : (if totSec16 dbr ≠ 0 then totSec16 dbr else totSec32 dbr) = totalSectors dbr := by
    by_cases hzero : totSec16 dbr = 0 <;> simp [totalSectors, hzero]
  have hlast : uint32 (totalSectors dbr -
      (rsvdSecCnt dbr + numFATs dbr * fatSectors dbr isFAT16 + rootDirSectors dbr : Nat)) =
      uint32 (totalSectors dbr - dataStart dbr isFAT16) := by
    rw [dataStart, Nat.mul_comm (numFATs dbr)]
    unfold uint32
    omega
  simp only [getCountOfClusters, hfat, htot, hlast]

theorem isValid_spec (h : isValid dbr = some isFAT16) : Valid dbr isFAT16 := by
  unfold isValid at h
  by_cases hcommon : word16 dbr 510 = 0xaa55 ∧ (dbr 0 = 0xeb ∨ dbr 0 = 0xe9) ∧
      bytsPerSec dbr = 512 ∧ (secPerClus dbr ≠ 0 ∧ (secPerClus dbr - 1) &&& secPerClus dbr = 0) ∧
      0 < rsvdSecCnt dbr ∧ numFATs dbr = 2
  · rw [if_pos hcommon] at h
    obtain ⟨-, -, hbytes, ⟨hperClus, -⟩, hrsvd, -⟩ := hcommon
    by_cases hfew : getCountOfClusters dbr < 4085
    · rw [if_pos hfew] at h
      contradiction
    rw [if_neg hfew] at h
    by_cases hsmall : getCountOfClusters dbr < 65525
    · rw [if_pos hsmall] at h
      by_cases hfields : rootEntCnt dbr = 512 ∧ 0 < fatSz16 dbr ∧
          (totSec16 dbr = 0 ∨ totSec32 dbr = 0)
      · rw [if_pos hfields] at h
        obtain rfl := Option.some.inj h
        refine ⟨hbytes, Nat.pos_of_ne_zero hperClus, hrsvd, hfields.2.1, ?_⟩
        rw [← getCountOfClusters_eq (if_pos (Nat.ne_of_gt hfields.2.1))]
        exact Nat.le_of_not_lt hfew
      · rw [if_neg hfields] at h
        contradiction
    · rw [if_neg hsmall] at h
      by_cases hfields : rootEntCnt dbr = 0 ∧ totSec16 dbr = 0 ∧ fatSz16 dbr = 0 ∧
          0 < totSec32 dbr ∧ 0 < fatSz32 dbr
      · rw [if_pos hfields] at h
        obtain rfl := Option.some.inj h
        refine ⟨hbytes, Nat.pos_of_ne_zero hperClus, hrsvd, hfields.2.2.2.2, ?_⟩
        rw [← getCountOfClusters_eq (if_neg (not_not_intro hfields.2.2.1))]
        exact Nat.le_of_not_lt hfew
      · rw [if_neg hfields] at h
        contradiction
  · rw [if_neg hcommon] at h
    contradiction

/-! ### The disk after `InitMount` -/

@[simp] theorem initMount_diskSize (disk : LogicDisk) :
    (disk.initMount dbr isFAT16).diskSize = disk.diskSize := rfl

@[simp] theorem initMount_baseAddress (disk : LogicDisk) :
    (disk.initMount dbr isFAT16).baseAddress = disk.baseAddress := rfl

@[simp] theorem initMount_isFAT16 (disk : LogicDisk) :
    (disk.initMount dbr isFAT16).isFAT16 = isFAT16 := rfl

@[simp] theorem initMount_bytesPerSector (disk : LogicDisk) :
    (disk.initMount dbr isFAT16).bytesPerSector = bytsPerSec dbr := rfl

@[simp] theorem initMount_sectorsPerCluster (disk : LogicDisk) :
    (disk.initMount dbr isFAT16).sectorsPerCluster = secPerClus dbr := rfl

@[simp] theorem initMount_totalSectorCount (disk : LogicDisk) :
    (disk.initMount dbr isFAT16).totalSectorCount = totalSectors dbr := rfl

@[simp] theorem initMount_firstDataSector (disk : LogicDisk) :
    (disk.initMount dbr isFAT16).firstDataSector = dataStart dbr isFAT16 := rfl

theorem initMount_fatSectors (disk : LogicDisk) :
    (disk.initMount dbr isFAT16).fatSectors = fatSectors dbr isFAT16 := by
  have hlt := fatSectors_lt dbr isFAT16
  change uint32 (uint32 (rsvdSecCnt dbr + fatSectors dbr isFAT16 : Nat) - rsvdSecCnt dbr) = _
  unfold uint32
  omega

theorem initMount_entriesPerSector (disk : LogicDisk) (hbytes : bytsPerSec dbr = 512) :
    (disk.initMount dbr isFAT16).entriesPerSector = sectorEntries isFAT16 := by
  change bytsPerSec dbr / (if isFAT16 then 2 else 4) = _
  rw [hbytes]
  cases isFAT16 <;> rfl

theorem initMount_totalClusterCount (disk : LogicDisk) :
    (disk.initMount dbr isFAT16).totalClusterCount =
      uint32 (uint32 (totalSectors dbr - dataStart dbr isFAT16) + (secPerClus dbr - 1)) /
        secPerClus dbr := rfl

/-! ### The number of clusters -/

section Rounding

variable {sectors spc count : Nat}

/-- A count that is rounded up leaves less than a cluster out. -/
theorem roundUp_spec (hspc : 0 < spc) (hcount : count = (sectors + (spc - 1)) / spc) :
    sectors ≤ count * spc ∧ count * spc < sectors + spc := by
  have hdiv := Nat.div_add_mod (sectors + (spc - 1)) spc
  have hmod := Nat.mod_lt (sectors + (spc - 1)) hspc
  rw [← hcount, Nat.mul_comm] at hdiv
  omega

theorem roundUp_le_iff (hspc : 0 < spc) (hcount : count = (sectors + (spc - 1)) / spc) :
    count * spc ≤ sectors ↔ spc ∣ sectors := by
  obtain ⟨hge, hlt⟩ := roundUp_spec hspc hcount
  constructor
  · intro hle
    exact ⟨count, by rw [Nat.mul_comm]; omega⟩
  · rintro ⟨n, rfl⟩
    have hn : count < n + 1 := by
      refine Nat.lt_of_mul_lt_mul_right (a := spc) ?_
      rw [Nat.add_mul, Nat.one_mul, Nat.mul_comm n]
      exact hlt
    rw [Nat.mul_comm spc]
    exact Nat.mul_le_mul_right spc (by omega)

theorem roundUp_eq_div (hspc : 0 < spc) (hcount : count = (sectors + (spc - 1)) / spc)
    (hdvd : spc ∣ sectors) : count = sectors / spc := by
  obtain ⟨hge, -⟩ := roundUp_spec hspc hcount
  have hle := (roundUp_le_iff hspc hcount).mpr hdvd
  rw [← Nat.le_antisymm hle hge, Nat.mul_div_cancel count hspc]

end Rounding

/-! ### The clusters of a mounted volume -/

section Clusters

variable (hspc : 0 < disk.sectorsPerCluster) (hbytes : disk.bytesPerSector = 512)
  (htotal : disk.totalSectorCount < 2 ^ 32) (hfirst : disk.firstDataSector < 2 ^ 32)

include hspc hbytes htotal hfirst

/-- The last sector of the last cluster decides for all of them. -/
theorem sectorsInside_iff {sectors : Nat}
    (hsectors : sectors = uint32 (disk.totalSectorCount - disk.firstDataSector))
    (hcount : disk.totalClusterCount = (sectors + (disk.sectorsPerCluster - 1)) /
      disk.sectorsPerCluster) (hpos : 0 < disk.totalClusterCount) :
    (∀ clusIndex, CLUSTER_START ≤ clusIndex → clusIndex < disk.totalClusterCount + CLUSTER_START →
      disk.SectorsInside clusIndex) ↔
    disk.firstDataSector ≤ disk.totalSectorCount ∧
      disk.sectorsPerCluster ∣ disk.totalSectorCount - disk.firstDataSector ∧
      disk.totalSectorCount * 512 ≤ disk.diskSize := by
  obtain ⟨hge, hlt⟩ := roundUp_spec hspc hcount
  have hsect : ∀ clusIndex, CLUSTER_START ≤ clusIndex → disk.clusToSect clusIndex =
      uint32 (disk.firstDataSector + (clusIndex - CLUSTER_START) * disk.sectorsPerCluster : Nat) :=
    fun clusIndex hge => if_neg (Nat.not_lt.mpr hge)
  constructor
  · intro hinside
    have hfirst' : disk.firstDataSector ≤ disk.totalSectorCount := by
      have hzero := (hinside CLUSTER_START (Nat.le_refl _) (by omega) 0 hspc).1
      rw [hsect CLUSTER_START (Nat.le_refl _), Nat.sub_self, Nat.zero_mul] at hzero
      unfold uint32 at hzero
      omega
    have hexact : sectors = disk.totalSectorCount - disk.firstDataSector := by
      rw [hsectors]
      unfold uint32
      omega
    -- The last cluster starts inside the volume, so that its sector number does not wrap.
    obtain ⟨last, hlast⟩ : ∃ last, disk.totalClusterCount = last + 1 :=
      ⟨disk.totalClusterCount - 1, by omega⟩
    rw [hlast, Nat.add_mul, Nat.one_mul] at hge hlt
    have hend := hinside (last + CLUSTER_START) (by omega) (by omega) (disk.sectorsPerCluster - 1)
      (by omega)
    rw [hsect _ (by omega), Nat.add_sub_cancel, hbytes] at hend
    have hwrap : uint32 (disk.firstDataSector + last * disk.sectorsPerCluster : Nat) =
        disk.firstDataSector + last * disk.sectorsPerCluster := by
      unfold uint32
      omega
    rw [hwrap] at hend
    refine ⟨hfirst', ?_, ?_⟩
    · rw [← hexact, ← roundUp_le_iff hspc hcount, hlast, Nat.add_mul, Nat.one_mul]
      omega
    · refine Nat.le_trans (Nat.mul_le_mul_right 512 ?_) hend.2
      omega
  · rintro ⟨hle, hdvd, hsize⟩ clusIndex hge' hlt' i hi
    have hexact : sectors = disk.totalSectorCount - disk.firstDataSector := by
      rw [hsectors]
      unfold uint32
      omega
    rw [← hexact] at hdvd
    have hwhole := (roundUp_le_iff hspc hcount).mpr hdvd
    obtain ⟨k, rfl⟩ := Nat.exists_eq_add_of_le hge'
    have hk : (k + 1) * disk.sectorsPerCluster ≤ sectors :=
      Nat.le_trans (Nat.mul_le_mul_right _ (by omega)) hwhole
    rw [Nat.add_mul, Nat.one_mul] at hk
    rw [hsect _ hge', Nat.add_sub_cancel_left, hbytes]
    have hwrap : uint32 (disk.firstDataSector + k * disk.sectorsPerCluster : Nat) =
        disk.firstDataSector + k * disk.sectorsPerCluster := by
      unfold uint32
      omega
    rw [hwrap]
    refine ⟨by omega, Nat.le_trans (Nat.mul_le_mul_right 512 ?_) hsize⟩
    omega

end Clusters

theorem entryInside_iff (hentries : 0 < disk.entriesPerSector) :
    (∀ clusIndex < disk.totalClusterCount + CLUSTER_START, disk.EntryInside clusIndex) ↔
      disk.totalClusterCount + CLUSTER_START ≤ disk.fatSectors * disk.entriesPerSector := by
  have hlast : ∀ clusIndex, disk.EntryInside clusIndex ↔
      clusIndex < disk.fatSectors * disk.entriesPerSector :=
    fun clusIndex => Nat.div_lt_iff_lt_mul hentries
  constructor
  · intro hall
    have hend := (hlast _).mp (hall (disk.totalClusterCount + 1) (Nat.lt_succ_self _))
    exact hend
  · intro hle clusIndex hlt
    exact (hlast clusIndex).mpr (Nat.lt_of_lt_of_le hlt hle)

theorem sectorEntries_pos (isFAT16 : Bool) : 0 < sectorEntries isFAT16 := by
  cases isFAT16 <;> decide

/-- The numbers of a volume are in range when its boot record fits, whatever else the mounting
    looks at. -/
theorem clustersInRange_iff (disk : LogicDisk) (hvalid : Valid dbr isFAT16) :
    (disk.initMount dbr isFAT16).ClustersInRange ↔ ImageFits disk.diskSize dbr isFAT16 := by
  obtain ⟨d, hd⟩ : ∃ d, d = disk.initMount dbr isFAT16 := ⟨_, rfl⟩
  obtain ⟨sectors, hsectors⟩ :
      ∃ sectors, sectors = uint32 (totalSectors dbr - dataStart dbr isFAT16) := ⟨_, rfl⟩
  have hspc : 0 < d.sectorsPerCluster := by rw [hd]; exact hvalid.secPerClus_pos
  have hentries : d.entriesPerSector = sectorEntries isFAT16 := by
    rw [hd, initMount_entriesPerSector disk hvalid.bytsPerSec]
  have hfat : d.fatSectors = fatSectors dbr isFAT16 := by rw [hd, initMount_fatSectors]
  have htotal := totalSectors_lt dbr
  have hspc_lt : secPerClus dbr < 2 ^ 8 := (dbr 13).toNat_lt
  have hsectors_lt : sectors < 2 ^ 32 := by
    rw [hsectors]
    unfold uint32
    omega
  rw [← hd]
  by_cases hnone : 2 ^ 32 < sectors + secPerClus dbr
  · -- The sum from which the number of clusters comes wraps around to less than a cluster.
    have hzero : d.totalClusterCount = 0 := by
      rw [hd, initMount_totalClusterCount, ← hsectors]
      refine Nat.div_eq_of_lt ?_
      have := hvalid.secPerClus_pos
      unfold uint32
      omega
    refine iff_of_true ?_ (Or.inr (hsectors ▸ hnone))
    intro clusIndex hlt
    rw [hzero, Nat.zero_add] at hlt
    refine ⟨?_, fun hge => absurd hlt (Nat.not_lt.mpr hge)⟩
    have hpos := hvalid.fatSectors_pos
    have hlow : clusIndex / sectorEntries isFAT16 = 0 := by
      refine Nat.div_eq_of_lt (Nat.lt_of_lt_of_le hlt ?_)
      cases isFAT16 <;> decide
    rw [LogicDisk.EntryInside, hentries, hfat, hlow]
    exact hpos
  · have hcount : d.totalClusterCount =
        (sectors + (d.sectorsPerCluster - 1)) / d.sectorsPerCluster := by
      have hspc' := hvalid.secPerClus_pos
      have hwrap : uint32 (sectors + (secPerClus dbr - 1)) = sectors + (secPerClus dbr - 1) := by
        unfold uint32
        omega
      rw [hd, initMount_totalClusterCount, ← hsectors, hwrap, initMount_sectorsPerCluster]
    have hpos : 0 < d.totalClusterCount := by
      have hmany := hvalid.clusters
      rw [← hsectors] at hmany
      have hle : sectors / secPerClus dbr ≤ d.totalClusterCount := by
        rw [hcount, hd, initMount_sectorsPerCluster]
        exact Nat.div_le_div_right (Nat.le_add_right _ _)
      omega
    have hinside := sectorsInside_iff hspc (by rw [hd]; exact hvalid.bytsPerSec)
      (by rw [hd]; exact htotal) (by rw [hd]; exact dataStart_lt dbr isFAT16)
      (show sectors = _ by rw [hsectors, hd]; rfl) hcount hpos
    have hentry := entryInside_iff (show 0 < d.entriesPerSector by
      rw [hentries]; exact sectorEntries_pos isFAT16)
    have hsplit : d.ClustersInRange ↔
        (∀ clusIndex < d.totalClusterCount + CLUSTER_START, d.EntryInside clusIndex) ∧
        (∀ clusIndex, CLUSTER_START ≤ clusIndex →
          clusIndex < d.totalClusterCount + CLUSTER_START → d.SectorsInside clusIndex) :=
      ⟨fun h => ⟨fun c hc => (h c hc).1, fun c hge hc => (h c hc).2 hge⟩,
        fun h c hc => ⟨h.1 c hc, fun hge => h.2 c hge hc⟩⟩
    rw [hsplit, hentry, hinside, hentries, hfat]
    have hfits : d.totalSectorCount = totalSectors dbr ∧ d.firstDataSector = dataStart dbr isFAT16 ∧
        d.sectorsPerCluster = secPerClus dbr ∧ d.diskSize = disk.diskSize := by
      rw [hd]
      exact ⟨rfl, rfl, rfl, rfl⟩
    obtain ⟨htot, hstart, hper, hsize⟩ := hfits
    rw [htot, hstart, hper, hsize]
    have hexact : dataStart dbr isFAT16 ≤ totalSectors dbr →
        sectors = totalSectors dbr - dataStart dbr isFAT16 := fun hle => by
      rw [hsectors]
      unfold uint32
      omega
    have hdiv : dataStart dbr isFAT16 ≤ totalSectors dbr →
        secPerClus dbr ∣ totalSectors dbr - dataStart dbr isFAT16 →
        d.totalClusterCount =
          (totalSectors dbr - dataStart dbr isFAT16) / secPerClus dbr := fun hle hdvd => by
      rw [hper] at hspc hcount
      rw [← hexact hle] at hdvd ⊢
      exact roundUp_eq_div hspc hcount hdvd
    constructor
    · rintro ⟨hroom, hle, hdvd, hin⟩
      rw [hdiv hle hdvd] at hroom
      exact Or.inl ⟨hle, hdvd, hin, hroom⟩
    · rintro (⟨hle, hdvd, hin, hroom⟩ | hnone')
      · rw [← hdiv hle hdvd] at hroom
        exact ⟨hroom, hle, hdvd, hin⟩
      · exact absurd (hsectors ▸ hnone') hnone

/-! ### What `MountDisk` accepts -/

theorem findBootRecord_valid {d : LogicDisk}
    (h : findBootRecord device disk = some (d, dbr, isFAT16)) : isValid dbr = some isFAT16 := by
  unfold findBootRecord at h
  simp only [Option.bind_eq_bind, Option.bind_eq_some_iff] at h
  obtain ⟨buffer, -, h⟩ := h
  split at h
  · next hvalid =>
    obtain ⟨rfl, rfl, rfl⟩ : disk = d ∧ buffer = dbr ∧ _ = isFAT16 := by simpa using h
    exact hvalid
  · simp only [Option.bind_eq_some_iff] at h
    obtain ⟨disk₁, -, buffer₁, -, valid, hvalid, h⟩ := h
    obtain ⟨rfl, rfl, rfl⟩ : disk₁ = d ∧ buffer₁ = dbr ∧ valid = isFAT16 := by simpa using h
    exact hvalid

theorem mountDisk_eq_some_iff {d : LogicDisk} :
    mountDisk device disk = some d ↔
      ∃ disk₁ dbr isFAT16, findBootRecord device disk = some (disk₁, dbr, isFAT16) ∧
        d = disk₁.initMount dbr isFAT16 ∧ d.sizesAreSane dbr ∧
        ∀ bytesPerBlock ∈ device.regions, d.bytesPerSector ≤ bytesPerBlock := by
  unfold mountDisk
  simp only [Option.bind_eq_bind, Option.bind_eq_some_iff]
  constructor
  · rintro ⟨⟨disk₁, dbr, isFAT16⟩, hfind, h⟩
    split at h
    · next hsane =>
      obtain rfl := Option.some.inj h
      exact ⟨disk₁, dbr, isFAT16, hfind, rfl, hsane.1, hsane.2⟩
    · contradiction
  · rintro ⟨disk₁, dbr, isFAT16, hfind, rfl, hsane, hregions⟩
    exact ⟨(disk₁, dbr, isFAT16), hfind, if_pos ⟨hsane, hregions⟩⟩

end TinyClr.FatLogicDisk
