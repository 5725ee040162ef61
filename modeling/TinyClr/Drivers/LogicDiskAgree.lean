import TinyClr.Drivers.LogicDiskFormat

/-!
# Format and mount agree

The volume that `FormatHelper` leaves on the device is mounted by `Initialize` with the geometry of
the formatting, all its clusters in range and its free clusters counted, when `FormatFits` holds,
and only then.
-/

namespace TinyClr.FatLogicDisk

open TinyClr.Library

variable {device device' : BlockStorageDevice} {disk : LogicDisk} {dbr : Sector}
  {useFAT16 : Bool} {totSec perClus fatSz baseAddress diskSize : Nat}

/-! ### The boot record of a formatted volume -/

section Record

variable (hrec : BootRecordOf totSec perClus useFAT16 fatSz dbr)

include hrec

theorem bootRecord_rootDirSectors : rootDirSectors dbr = if useFAT16 then 32 else 0 := by
  rw [rootDirSectors, hrec.bytsPerSec, hrec.rootEntCnt]
  cases useFAT16 <;> rfl

theorem bootRecord_fatSectors : fatSectors dbr useFAT16 = fatSz := by
  cases useFAT16
  · exact hrec.fatSz32 rfl
  · exact hrec.fatSz16

theorem bootRecord_totalSectors : totalSectors dbr = totSec := by
  unfold totalSectors
  rw [hrec.totSec16, hrec.totSec32]
  split_ifs <;> omega

theorem bootRecord_dataStart (hfit : (if useFAT16 then 33 else 32) + 2 * fatSz < 2 ^ 32) :
    dataStart dbr useFAT16 = (if useFAT16 then 33 else 32) + 2 * fatSz := by
  unfold dataStart
  rw [hrec.rsvdSecCnt, bootRecord_fatSectors hrec, hrec.numFATs, bootRecord_rootDirSectors hrec]
  unfold uint32
  cases useFAT16 <;> simp at hfit ⊢ <;> omega

theorem bootRecord_countOfClusters (hpos : useFAT16 → 0 < fatSz)
    (hfit : (if useFAT16 then 33 else 32) + 2 * fatSz ≤ totSec) (htotSec : totSec < 2 ^ 32) :
    getCountOfClusters dbr = (totSec - ((if useFAT16 then 33 else 32) + 2 * fatSz)) / perClus := by
  have hfat : (if fatSz16 dbr ≠ 0 then fatSz16 dbr else fatSz32 dbr) =
      fatSectors dbr useFAT16 := by
    rw [bootRecord_fatSectors hrec, hrec.fatSz16]
    cases useFAT16
    · simpa using hrec.fatSz32 rfl
    · simp [Nat.ne_of_gt (hpos rfl)]
  rw [getCountOfClusters_eq hfat, bootRecord_totalSectors hrec,
    bootRecord_dataStart hrec (by omega), hrec.secPerClus]
  congr 1
  unfold uint32
  omega

theorem bootRecord_isValid (hperClus : perClus ≠ 0) (hpow : (perClus - 1) &&& perClus = 0)
    (hpos : useFAT16 → 0 < fatSz) (hlarge : useFAT16 = false → 0x10000 ≤ totSec) :
    isValid dbr =
      if getCountOfClusters dbr < 4085 then none
      else if getCountOfClusters dbr < 65525 then if useFAT16 then some true else none
      else if useFAT16 = false ∧ 0 < fatSz then some false else none := by
  have hcommon : word16 dbr 510 = 0xaa55 ∧ (dbr 0 = 0xeb ∨ dbr 0 = 0xe9) ∧
      bytsPerSec dbr = 512 ∧ (secPerClus dbr ≠ 0 ∧ (secPerClus dbr - 1) &&& secPerClus dbr = 0) ∧
      0 < rsvdSecCnt dbr ∧ numFATs dbr = 2 := by
    rw [hrec.secPerClus, hrec.rsvdSecCnt]
    exact ⟨hrec.endingFlag, Or.inl hrec.jmpBoot, hrec.bytsPerSec, ⟨hperClus, hpow⟩,
      by cases useFAT16 <;> decide, hrec.numFATs⟩
  have hfields16 : (rootEntCnt dbr = 512 ∧ 0 < fatSz16 dbr ∧
      (totSec16 dbr = 0 ∨ totSec32 dbr = 0)) ↔ useFAT16 = true := by
    rw [hrec.rootEntCnt, hrec.fatSz16, hrec.totSec16, hrec.totSec32]
    cases useFAT16
    · simp
    · have := hpos rfl
      simp only [if_true, iff_true, true_and]
      exact ⟨this, by split_ifs <;> simp⟩
  have hfields32 : (rootEntCnt dbr = 0 ∧ totSec16 dbr = 0 ∧ fatSz16 dbr = 0 ∧ 0 < totSec32 dbr ∧
      0 < fatSz32 dbr) ↔ useFAT16 = false ∧ 0 < fatSz := by
    rw [hrec.rootEntCnt, hrec.fatSz16, hrec.totSec16, hrec.totSec32]
    cases useFAT16
    · have hge := hlarge rfl
      simp only [hrec.fatSz32 rfl, Nat.not_lt.mpr hge, Bool.false_eq_true, if_false, true_and]
      omega
    · simp
  rw [isValid, if_pos hcommon]
  simp only [hfields16, hfields32]

end Record

/-! ### The image -/

/-- A write that the device takes -/
theorem write_spec {address numBytes : Nat} {buffer : Sector}
    (h : device.write address numBytes buffer = some device') :
    address + numBytes ≤ device.size ∧ device'.size = device.size ∧
      device'.regions = device.regions ∧
      device'.bytes = overlay device.bytes address numBytes buffer := by
  unfold BlockStorageDevice.write at h
  split at h
  · next hle =>
    obtain rfl := Option.some.inj h
    exact ⟨hle, rfl, rfl, rfl⟩
  · contradiction

theorem read_eq {address numBytes : Nat} (h : address + numBytes ≤ device.size) :
    device.read address numBytes =
      some (overlay (fun _ => 0) 0 numBytes fun i => device.bytes (address + i)) := if_pos h

/-- What is on the device after the formatting of the region at `baseAddress` -/
structure Formatted (device : BlockStorageDevice) (baseAddress : Nat) (useFAT16 : Bool) (fatSz : Nat)
    (dbr fsInfo : Sector) : Prop where
  fits : baseAddress + 512 * ((if useFAT16 then 33 else 32) + 2 * fatSz) ≤ device.size
  record : ∀ i < 512, device.bytes (baseAddress + i) = dbr i
  fat : ∀ i < 512 * fatSz, device.bytes (baseAddress + (512 * (if useFAT16 then 1 else 32) + i)) =
    if i < 512 then firstFATSector useFAT16 i else 0
  root : useFAT16 → ∀ i < 4, device.bytes (baseAddress + (512 * (1 + 2 * fatSz) + i)) = 0
  fsInfo : useFAT16 = false → ∀ i < 512, device.bytes (baseAddress + (512 + i)) = fsInfo i

variable {i : Nat}

theorem firstFATSector_past (useFAT16 : Bool) (hi : 512 ≤ i) :
    firstFATSector useFAT16 i = 0 := by
  cases useFAT16 <;>
    simp (disch := (try simp) <;> omega) only [firstFATSector, memcpy_outside, if_true,
      Bool.false_eq_true, if_false]

variable {fsInfo : Sector}

theorem formatted_fat16 {b : Nat → UInt8} (hpos : 0 < fatSz)
    (hfits : baseAddress + 512 * (33 + 2 * fatSz) ≤ device.size)
    (hbytes : device.bytes =
      overlay (overlay (overlay (overlay b
        baseAddress (512 * (33 + 2 * fatSz)) fun _ => 0)
        baseAddress 512 dbr)
        (baseAddress + 512 * 1) 512 (firstFATSector true))
        (baseAddress + 512 * (1 + fatSz)) 512 (firstFATSector true)) :
    Formatted device baseAddress true fatSz dbr fsInfo where
  fits := hfits
  record i hi := by
    rw [hbytes, overlay_outside (by omega), overlay_outside (by omega),
      overlay_inside (by omega) (by omega), Nat.add_sub_cancel_left]
  fat i hi := by
    rw [if_pos rfl, hbytes, overlay_outside (by omega)]
    split_ifs with hfirst
    · have hoffset : baseAddress + (512 * 1 + i) - (baseAddress + 512 * 1) = i := by omega
      rw [overlay_inside (by omega) (by omega), hoffset]
    · rw [overlay_outside (by omega), overlay_outside (by omega),
        overlay_inside (by omega) (by omega)]
  root _ i hi := by
    rw [hbytes, overlay_outside (by omega), overlay_outside (by omega),
      overlay_outside (by omega), overlay_inside (by omega) (by omega)]
  fsInfo := by simp

theorem formatted_fat32 {b : Nat → UInt8} (perClus : Nat)
    (hfits : baseAddress + 512 * (32 + 2 * fatSz + perClus) ≤ device.size)
    (hbytes : device.bytes =
      overlay (overlay (overlay (overlay (overlay (overlay (overlay b
        baseAddress (512 * (32 + 2 * fatSz + perClus)) fun _ => 0)
        baseAddress 512 dbr)
        (baseAddress + 512 * 6) 512 dbr)
        (baseAddress + 512 * 1) 512 fsInfo)
        (baseAddress + 512 * 7) 512 fsInfo)
        (baseAddress + 512 * 32) 512 (firstFATSector false))
        (baseAddress + 512 * (32 + fatSz)) 512 (firstFATSector false)) :
    Formatted device baseAddress false fatSz dbr fsInfo where
  fits := by
    rw [if_neg Bool.false_ne_true]
    omega
  record i hi := by
    rw [hbytes, overlay_outside (by omega), overlay_outside (by omega),
      overlay_outside (by omega), overlay_outside (by omega), overlay_outside (by omega),
      overlay_inside (by omega) (by omega), Nat.add_sub_cancel_left]
  fat i hi := by
    rw [if_neg Bool.false_ne_true, hbytes, overlay_outside (by omega)]
    split_ifs with hfirst
    · have hoffset : baseAddress + (512 * 32 + i) - (baseAddress + 512 * 32) = i := by omega
      rw [overlay_inside (by omega) (by omega), hoffset]
    · rw [overlay_outside (by omega), overlay_outside (by omega), overlay_outside (by omega),
        overlay_outside (by omega), overlay_outside (by omega),
        overlay_inside (by omega) (by omega)]
  root := by simp
  fsInfo _ i hi := by
    have hoffset : baseAddress + (512 + i) - (baseAddress + 512 * 1) = i := by omega
    rw [hbytes, overlay_outside (by omega), overlay_outside (by omega),
      overlay_outside (by omega), overlay_inside (by omega) (by omega), hoffset]

variable {eraseBlocks : (Nat → UInt8) → Nat → UInt8}

theorem writeVolume_spec
    (hrec : BootRecordOf totSec perClus useFAT16 fatSz dbr)
    (hdisk : disk = (initDisk baseAddress diskSize).initMount dbr useFAT16)
    (hpos : useFAT16 → 0 < fatSz) (hlt : fatSz < 2 ^ 20) (hperClus : perClus < 2 ^ 8)
    (h : writeVolume eraseBlocks device disk dbr fatSz = some device') :
    Formatted device' baseAddress useFAT16 fatSz dbr
        (fsInfoInit (uint32 (disk.totalClusterCount - 1)) 3) ∧
      device'.regions = device.regions := by
  have hbase : disk.baseAddress = baseAddress := by rw [hdisk]; rfl
  have htype : disk.isFAT16 = useFAT16 := by rw [hdisk]; rfl
  have hfat₀ : disk.fatBaseSector₀ = if useFAT16 then 1 else 32 := by
    rw [hdisk]
    exact hrec.rsvdSecCnt
  have hfat₁ : disk.fatBaseSector₁ = (if useFAT16 then 1 else 32) + fatSz := by
    rw [hdisk]
    change uint32 (rsvdSecCnt dbr + fatSectors dbr useFAT16 : Nat) = _
    rw [hrec.rsvdSecCnt, bootRecord_fatSectors hrec]
    unfold uint32
    split_ifs <;> omega
  obtain ⟨erased, herased⟩ :
      ∃ d : BlockStorageDevice, d = { device with bytes := eraseBlocks device.bytes } := ⟨_, rfl⟩
  have hregions₀ : erased.regions = device.regions := by rw [herased]
  have haddress : ∀ n k, baseAddress + 512 * n ≤ erased.size → k ≤ n →
      uint32 (baseAddress + k * 512 : Nat) = baseAddress + 512 * k := fun n k hn hk => by
    have hsize := erased.size_lt
    unfold uint32
    omega
  cases useFAT16
  · simp only [writeVolume, BlockStorageDevice.memset, hbase, htype, hfat₀, hfat₁, hrec.rsvdSecCnt,
      hrec.numFATs, hrec.secPerClus, DEFAULT_SECTOR_SIZE, Bool.false_eq_true, if_false,
      Option.bind_eq_bind, Option.bind_eq_some_iff, ← herased] at h
    obtain ⟨d₁, h₁, d₂, h₂, d₃, h₃, d₄, h₄, d₅, h₅, d₆, h₆, h₇⟩ := h
    obtain ⟨hle, hsize₁, hregions₁, hbytes₁⟩ := write_spec h₁
    obtain ⟨-, hsize₂, hregions₂, hbytes₂⟩ := write_spec h₂
    obtain ⟨-, hsize₃, hregions₃, hbytes₃⟩ := write_spec h₃
    obtain ⟨-, hsize₄, hregions₄, hbytes₄⟩ := write_spec h₄
    obtain ⟨-, hsize₅, hregions₅, hbytes₅⟩ := write_spec h₅
    obtain ⟨-, hsize₆, hregions₆, hbytes₆⟩ := write_spec h₆
    obtain ⟨-, hsize₇, hregions₇, hbytes₇⟩ := write_spec h₇
    have hneeded : uint32 (uint32 (32 + 2 * fatSz + 0 + perClus : Nat) * 512 : Nat) =
        512 * (32 + 2 * fatSz + perClus) := by
      unfold uint32
      omega
    rw [hneeded] at hle hbytes₁
    rw [haddress _ 6 hle (by omega)] at hbytes₃
    rw [haddress _ 1 hle (by omega)] at hbytes₄
    rw [haddress _ 7 hle (by omega)] at hbytes₅
    rw [haddress _ 32 hle (by omega)] at hbytes₆
    rw [haddress _ (32 + fatSz) hle (by omega)] at hbytes₇
    refine ⟨formatted_fat32 (b := erased.bytes) perClus ?_ ?_, ?_⟩
    · rw [hsize₇, hsize₆, hsize₅, hsize₄, hsize₃, hsize₂, hsize₁]
      exact hle
    · rw [hbytes₇, hbytes₆, hbytes₅, hbytes₄, hbytes₃, hbytes₂, hbytes₁]
    · rw [hregions₇, hregions₆, hregions₅, hregions₄, hregions₃, hregions₂, hregions₁, hregions₀]
  · simp only [writeVolume, BlockStorageDevice.memset, hbase, htype, hfat₀, hfat₁, hrec.rsvdSecCnt,
      hrec.numFATs, DEFAULT_SECTOR_SIZE, if_true, Option.bind_eq_bind,
      Option.bind_eq_some_iff, ← herased] at h
    obtain ⟨d₁, h₁, d₂, h₂, _, hsame, d₃, h₃, h₄⟩ := h
    obtain rfl := Option.some.inj hsame
    obtain ⟨hle, hsize₁, hregions₁, hbytes₁⟩ := write_spec h₁
    obtain ⟨-, hsize₂, hregions₂, hbytes₂⟩ := write_spec h₂
    obtain ⟨-, hsize₃, hregions₃, hbytes₃⟩ := write_spec h₃
    obtain ⟨-, hsize₄, hregions₄, hbytes₄⟩ := write_spec h₄
    have hneeded : uint32 (uint32 (1 + 2 * fatSz + 32 : Nat) * 512 : Nat) =
        512 * (33 + 2 * fatSz) := by
      unfold uint32
      omega
    rw [hneeded] at hle hbytes₁
    rw [haddress _ 1 hle (by omega)] at hbytes₃
    rw [haddress _ (1 + fatSz) hle (by omega)] at hbytes₄
    refine ⟨formatted_fat16 (b := erased.bytes) (hpos rfl) ?_ ?_, ?_⟩
    · rw [hsize₄, hsize₃, hsize₂, hsize₁]
      exact hle
    · rw [hbytes₄, hbytes₃, hbytes₂, hbytes₁]
    · rw [hregions₄, hregions₃, hregions₂, hregions₁, hregions₀]

/-! ### Mounting the image -/

theorem Formatted.read_record
    (himage : Formatted device baseAddress useFAT16 fatSz dbr fsInfo)
    (hpast : ∀ i, 512 ≤ i → dbr i = 0) :
    device.read baseAddress DEFAULT_SECTOR_SIZE = some dbr := by
  have hfits := himage.fits
  rw [DEFAULT_SECTOR_SIZE, read_eq (by split_ifs at hfits <;> omega)]
  refine congrArg some (funext fun i => ?_)
  by_cases hi : i < 512
  · rw [overlay_inside (Nat.zero_le i) (by omega), Nat.sub_zero, himage.record i hi]
  · rw [overlay_outside (by omega), hpast i (by omega)]

variable {d : LogicDisk}

theorem mountDisk_of_record {isFAT16 : Bool}
    (hread : device.read disk.baseAddress DEFAULT_SECTOR_SIZE = some dbr)
    (hvalid : isValid dbr = some isFAT16) :
    mountDisk device disk = some d ↔ d = disk.initMount dbr isFAT16 ∧ d.sizesAreSane dbr ∧
      ∀ bytesPerBlock ∈ device.regions, d.bytesPerSector ≤ bytesPerBlock := by
  have hfind : findBootRecord device disk = some (disk, dbr, isFAT16) := by
    simp [findBootRecord, hread, hvalid]
  rw [mountDisk_eq_some_iff]
  constructor
  · rintro ⟨disk₁, dbr₁, isFAT16₁, hfind₁, h⟩
    rw [hfind] at hfind₁
    obtain ⟨rfl, rfl, rfl⟩ : disk = disk₁ ∧ dbr = dbr₁ ∧ isFAT16 = isFAT16₁ := by
      simpa using hfind₁
    exact h
  · intro h
    exact ⟨disk, dbr, isFAT16, hfind, h⟩

/-- Where the first sector is no boot record, a partition that starts elsewhere is mounted, or
    nothing. -/
theorem mountDisk_of_no_record
    (hread : device.read disk.baseAddress DEFAULT_SECTOR_SIZE = some dbr)
    (hvalid : isValid dbr = none) (h : mountDisk device disk = some d) :
    d.baseAddress ≠ disk.baseAddress := by
  obtain ⟨disk₁, dbr₁, isFAT16, hfind, rfl, -, -⟩ := mountDisk_eq_some_iff.mp h
  rw [initMount_baseAddress]
  intro hsame
  simp only [findBootRecord, hread, hvalid, Option.bind_eq_bind, Option.bind_some,
    Option.bind_eq_some_iff] at hfind
  obtain ⟨disk₂, -, buffer, hbuffer, valid, hvalid₂, heq⟩ := hfind
  obtain ⟨rfl, rfl, rfl⟩ : disk₂ = disk₁ ∧ buffer = dbr₁ ∧ valid = isFAT16 := by simpa using heq
  rw [hsame, hread] at hbuffer
  obtain rfl := Option.some.inj hbuffer
  rw [hvalid] at hvalid₂
  contradiction

theorem populateFreeCount_spec (device : BlockStorageDevice) (d : LogicDisk) :
    ∃ freeCount nextFree, populateFreeCount device d = { d with freeCount, nextFree } := by
  unfold populateFreeCount
  dsimp only
  split
  · exact ⟨_, _, rfl⟩
  · next buffer _ =>
    by_cases hempty : (buffer 0).toNat = SLOT_EMPTY
    · rw [if_pos hempty]
      split <;> exact ⟨_, _, rfl⟩
    · rw [if_neg hempty]
      repeat' split
      all_goals exact ⟨_, _, rfl⟩

/-- Counting the free clusters leaves the geometry as it is. -/
theorem countFree_spec {counted : LogicDisk}
    (h : countFree device d = some (device', counted)) :
    ∃ freeCount nextFree, counted = { d with freeCount, nextFree } := by
  unfold countFree at h
  by_cases htype : d.isFAT16
  · rw [if_pos htype] at h
    obtain ⟨freeCount, nextFree, hpop⟩ := populateFreeCount_spec device d
    obtain ⟨-, rfl⟩ : device = device' ∧ populateFreeCount device d = counted := by simpa using h
    exact ⟨freeCount, nextFree, hpop⟩
  · rw [if_neg htype] at h
    simp only [Option.bind_eq_bind, Option.bind_eq_some_iff] at h
    obtain ⟨fsInfo, -, h⟩ := h
    by_cases hvalid : fsInfoIsValid fsInfo
    · rw [if_pos hvalid] at h
      split at h
      · simp only [Option.map_eq_some_iff, Prod.mk.injEq] at h
        obtain ⟨-, -, -, rfl⟩ := h
        obtain ⟨freeCount, nextFree, hpop⟩ := populateFreeCount_spec device
          { d with freeCount := word32 fsInfo 488, nextFree := word32 fsInfo 492 }
        exact ⟨freeCount, nextFree, hpop⟩
      · obtain ⟨-, rfl⟩ : device = device' ∧ _ = counted := by simpa using h
        exact ⟨_, _, rfl⟩
    · rw [if_neg hvalid] at h
      contradiction

theorem initializeDisk_eq_some_iff {mounted : LogicDisk} :
    initializeDisk device disk = some (device', mounted) ↔
      ∃ d, mountDisk device disk = some d ∧ countFree device d = some (device', mounted) ∧
        mounted.freeCount ≠ 0xFFFFFFFF := by
  simp only [initializeDisk, Option.bind_eq_bind, Option.bind_eq_some_iff]
  constructor
  · rintro ⟨d, hmount, counted, hcount, h⟩
    by_cases hfull : counted.2.freeCount = 0xFFFFFFFF
    · rw [if_pos hfull] at h
      contradiction
    · rw [if_neg hfull] at h
      obtain rfl := Option.some.inj h
      exact ⟨d, hmount, hcount, hfull⟩
  · rintro ⟨d, hmount, hcount, hfull⟩
    exact ⟨d, hmount, (device', mounted), hcount, if_neg hfull⟩

/-! ### Free clusters of the image -/

def freeClusters (device : BlockStorageDevice) (disk : LogicDisk) : Nat :=
  (List.range' CLUSTER_START disk.totalClusterCount).countP fun clusIndex =>
    readFAT device disk clusIndex = CLUST_NONE

/-- The disk that `InitMount` makes of the boot record of a formatted volume -/
structure DiskOf (disk : LogicDisk) (baseAddress totSec perClus fatSz : Nat) (useFAT16 : Bool) :
    Prop where
  baseAddress : disk.baseAddress = baseAddress
  isFAT16 : disk.isFAT16 = useFAT16
  bytesPerSector : disk.bytesPerSector = 512
  sectorsPerCluster : disk.sectorsPerCluster = perClus
  entriesPerSector : disk.entriesPerSector = sectorEntries useFAT16
  fatBaseSector₀ : disk.fatBaseSector₀ = if useFAT16 then 1 else 32
  totalClusterCount : disk.totalClusterCount =
    (totSec - ((if useFAT16 then 33 else 32) + 2 * fatSz) + (perClus - 1)) / perClus
  rootSectorStart : useFAT16 → disk.rootSectorStart = 1 + 2 * fatSz
  sectorFSInfo : useFAT16 = false → disk.sectorFSInfo = 1

theorem diskOf (hrec : BootRecordOf totSec perClus useFAT16 fatSz dbr)
    (hdisk : disk = (initDisk baseAddress diskSize).initMount dbr useFAT16)
    (hfit : (if useFAT16 then 33 else 32) + 2 * fatSz ≤ totSec)
    (htotSec : totSec + perClus < 2 ^ 32) (hperClus : 0 < perClus) :
    DiskOf disk baseAddress totSec perClus fatSz useFAT16 := by
  have hstart := bootRecord_dataStart hrec (by omega)
  have hroot := bootRecord_rootDirSectors hrec
  subst hdisk
  refine ⟨rfl, rfl, hrec.bytsPerSec, hrec.secPerClus, initMount_entriesPerSector _ hrec.bytsPerSec,
    hrec.rsvdSecCnt, ?_, ?_, ?_⟩
  · rw [initMount_totalClusterCount, bootRecord_totalSectors hrec, hstart, hrec.secPerClus]
    congr 1
    unfold uint32
    omega
  · rintro rfl
    change uint32 (dataStart dbr true - rootDirSectors dbr) = _
    rw [hstart, hroot]
    unfold uint32
    simp at hfit ⊢
    omega
  · rintro rfl
    exact hrec.fsInfoSector rfl

theorem Formatted.fat_eq
    (himage : Formatted device baseAddress useFAT16 fatSz dbr fsInfo)
    (hi : i < 512 * fatSz) :
    device.bytes (baseAddress + (512 * (if useFAT16 then 1 else 32) + i)) =
      firstFATSector useFAT16 i := by
  rw [himage.fat i hi]
  split_ifs with hfirst
  · rfl
  · exact (firstFATSector_past useFAT16 (by omega)).symm

variable {clusIndex : Nat}

theorem readFAT_formatted
    (himage : Formatted device baseAddress useFAT16 fatSz dbr fsInfo)
    (hdisk : DiskOf disk baseAddress totSec perClus fatSz useFAT16) (hlt : fatSz < 2 ^ 20)
    (hroom : disk.totalClusterCount + CLUSTER_START ≤ fatSz * sectorEntries useFAT16)
    (hindex : clusIndex < disk.totalClusterCount + CLUSTER_START) :
    readFAT device disk clusIndex =
      if useFAT16 then word16 (firstFATSector true) (2 * clusIndex)
      else word32 (firstFATSector false) (4 * clusIndex) &&& FAT32_MASK := by
  have hfits := himage.fits
  have hsize := device.size_lt
  have hentries : sectorEntries useFAT16 = if useFAT16 then 256 else 128 := rfl
  obtain ⟨offset, hoffset⟩ : ∃ offset, offset = clusIndex / sectorEntries useFAT16 := ⟨_, rfl⟩
  obtain ⟨data, hdata⟩ : ∃ data, data = clusIndex % sectorEntries useFAT16 := ⟨_, rfl⟩
  have hsplit : sectorEntries useFAT16 * offset + data = clusIndex := by
    rw [hoffset, hdata]
    exact Nat.div_add_mod clusIndex _
  have hdata_lt : data < sectorEntries useFAT16 :=
    hdata ▸ Nat.mod_lt clusIndex (sectorEntries_pos useFAT16)
  have hoffset_lt : offset < fatSz := by
    rw [hoffset]
    exact (Nat.div_lt_iff_lt_mul (sectorEntries_pos useFAT16)).mpr (Nat.lt_of_lt_of_le hindex hroom)
  have hguard : ¬ uint32 (disk.totalClusterCount + CLUSTER_START) ≤ clusIndex := by
    rw [CLUSTER_START] at hroom hindex ⊢
    unfold uint32
    cases useFAT16 <;> simp [sectorEntries] at hroom <;> omega
  have haddress : uint32 (disk.baseAddress + uint32 (disk.fatBaseSector₀ + offset : Nat) *
      disk.bytesPerSector : Nat) =
      baseAddress + (512 * (if useFAT16 then 1 else 32) + 512 * offset) := by
    rw [hdisk.baseAddress, hdisk.fatBaseSector₀, hdisk.bytesPerSector]
    unfold uint32
    cases useFAT16 <;> simp at hfits ⊢ <;> omega
  have hread : device.read (baseAddress + (512 * (if useFAT16 then 1 else 32) + 512 * offset)) 512 =
      some (overlay (fun _ => 0) 0 512 fun i => device.bytes
        (baseAddress + (512 * (if useFAT16 then 1 else 32) + 512 * offset) + i)) :=
    read_eq (by cases useFAT16 <;> simp at hfits ⊢ <;> omega)
  have hbyte : ∀ i < 512, overlay (fun _ => 0) 0 512 (fun i => device.bytes
      (baseAddress + (512 * (if useFAT16 then 1 else 32) + 512 * offset) + i)) i =
      firstFATSector useFAT16 (512 * offset + i) := fun i hi => by
    rw [overlay_inside (Nat.zero_le i) (by omega), Nat.sub_zero, Nat.add_assoc, Nat.add_assoc]
    exact himage.fat_eq (by omega)
  rw [readFAT, if_neg hguard, hdisk.entriesPerSector, ← hoffset, ← hdata]
  dsimp only
  rw [haddress, hdisk.bytesPerSector, hread, hdisk.isFAT16]
  cases useFAT16
  · change word32 _ (4 * data) &&& FAT32_MASK = word32 (firstFATSector false) (4 * clusIndex) &&& _
    rw [word32_congr fun i hi => ?_]
    rw [hbyte _ (by simp [sectorEntries] at hdata_lt; omega), ← hsplit]
    congr 1
    simp [sectorEntries]
    omega
  · change word16 _ (2 * data) = word16 (firstFATSector true) (2 * clusIndex)
    refine word16_congr fun i hi => ?_
    rw [hbyte _ (by simp [sectorEntries] at hdata_lt; omega), ← hsplit]
    congr 1
    simp [sectorEntries]
    omega

theorem word16_firstFATSector (h : 2 ≤ clusIndex) :
    word16 (firstFATSector true) (2 * clusIndex) = 0 := by
  rw [firstFATSector, if_pos rfl, word16_memcpy_of_disjoint (Or.inr (by simp; omega)), word16_zero]

theorem word32_firstFATSector (h : 3 ≤ clusIndex) :
    word32 (firstFATSector false) (4 * clusIndex) = 0 := by
  rw [firstFATSector, if_neg Bool.false_ne_true,
    word32_memcpy_of_disjoint (Or.inr (by rw [length_bytes32]; omega)),
    word32_memcpy_of_disjoint (Or.inr (by rw [length_bytes32]; omega)),
    word32_memcpy_of_disjoint (Or.inr (by rw [length_bytes32]; omega)), word32_zero]

theorem freeClusters_formatted
    (himage : Formatted device baseAddress useFAT16 fatSz dbr fsInfo)
    (hdisk : DiskOf disk baseAddress totSec perClus fatSz useFAT16) (hlt : fatSz < 2 ^ 20)
    (hroom : disk.totalClusterCount + CLUSTER_START ≤ fatSz * sectorEntries useFAT16)
    (hpos : 0 < disk.totalClusterCount) :
    freeClusters device disk =
      if useFAT16 then disk.totalClusterCount else disk.totalClusterCount - 1 := by
  unfold freeClusters
  cases useFAT16
  · obtain ⟨n, hn⟩ : ∃ n, disk.totalClusterCount = n + 1 :=
      ⟨disk.totalClusterCount - 1, by omega⟩
    have hroot : readFAT device disk CLUSTER_START = CLUST_FAT32_EOFE := by
      rw [readFAT_formatted himage hdisk hlt hroom (by omega)]
      simp [firstFATSector, CLUSTER_START, CLUST_FAT32_EOFE, FAT32_MASK]
    have hrest : ∀ clusIndex ∈ List.range' (CLUSTER_START + 1) n,
        readFAT device disk clusIndex = CLUST_NONE := fun clusIndex hmem => by
      rw [List.mem_range'_1, CLUSTER_START] at hmem
      rw [readFAT_formatted himage hdisk hlt hroom (by rw [CLUSTER_START]; omega),
        if_neg Bool.false_ne_true, word32_firstFATSector (by omega)]
      rfl
    rw [hn, if_neg Bool.false_ne_true, Nat.add_sub_cancel, List.range'_succ,
      List.countP_cons_of_neg (by simp [hroot, CLUST_FAT32_EOFE, CLUST_NONE]),
      List.countP_eq_length.mpr fun clusIndex hmem => decide_eq_true (hrest clusIndex hmem),
      List.length_range']
  · have hall : ∀ clusIndex ∈ List.range' CLUSTER_START disk.totalClusterCount,
        readFAT device disk clusIndex = CLUST_NONE := fun clusIndex hmem => by
      rw [List.mem_range'_1, CLUSTER_START] at hmem
      rw [readFAT_formatted himage hdisk hlt hroom (by rw [CLUSTER_START]; omega), if_pos rfl,
        word16_firstFATSector (by omega)]
      rfl
    rw [if_pos rfl,
      List.countP_eq_length.mpr fun clusIndex hmem => decide_eq_true (hall clusIndex hmem),
      List.length_range']

theorem fsInfoInit_past (freeCount nxtFree : Nat) (hi : 512 ≤ i) :
    fsInfoInit freeCount nxtFree i = 0 := by
  simp (disch := (try simp) <;> omega) only [fsInfoInit, memcpy_outside]

theorem fsInfoInit_isValid (freeCount nxtFree : Nat) :
    fsInfoIsValid (fsInfoInit freeCount nxtFree) = true := by
  simp [fsInfoIsValid, fsInfoInit]

theorem fsInfoInit_freeCount {freeCount : Nat} (nxtFree : Nat) (h : freeCount < 2 ^ 32) :
    word32 (fsInfoInit freeCount nxtFree) 488 = freeCount := by
  simpa [fsInfoInit] using h

theorem countFree_formatted {nxtFree : Nat}
    (himage : Formatted device baseAddress useFAT16 fatSz dbr
      (fsInfoInit (uint32 (d.totalClusterCount - 1)) nxtFree))
    (hdisk : DiskOf d baseAddress totSec perClus fatSz useFAT16) (hlt : fatSz < 2 ^ 20)
    (hpos : 0 < d.totalClusterCount) (hsmall : d.totalClusterCount < 2 ^ 32) :
    ∃ nextFree, countFree device d = some (device,
      { d with
        freeCount := if useFAT16 then d.totalClusterCount else d.totalClusterCount - 1
        nextFree }) := by
  have hfits := himage.fits
  have hsize := device.size_lt
  cases useFAT16
  · have hcount : uint32 ((d.totalClusterCount : Int) - 1) = d.totalClusterCount - 1 := by
      unfold uint32
      omega
    rw [hcount] at himage
    have haddress : uint32 (d.baseAddress + d.sectorFSInfo * d.bytesPerSector : Nat) =
        baseAddress + 512 := by
      rw [hdisk.baseAddress, hdisk.sectorFSInfo rfl, hdisk.bytesPerSector]
      unfold uint32
      simp at hfits
      omega
    have hread : device.read (baseAddress + 512) 512 =
        some (fsInfoInit (d.totalClusterCount - 1) nxtFree) := by
      rw [read_eq (by simp at hfits; omega)]
      refine congrArg some (funext fun i => ?_)
      by_cases hi : i < 512
      · rw [overlay_inside (Nat.zero_le i) (by omega), Nat.sub_zero, Nat.add_assoc]
        exact himage.fsInfo rfl i hi
      · rw [overlay_outside (by omega), fsInfoInit_past _ _ (by omega)]
    have hfree := fsInfoInit_freeCount nxtFree (show d.totalClusterCount - 1 < 2 ^ 32 by omega)
    refine ⟨word32 (fsInfoInit (d.totalClusterCount - 1) nxtFree) 492, ?_⟩
    rw [countFree, if_neg (by simp [hdisk.isFAT16])]
    simp only [haddress, hread, Option.bind_eq_bind, Option.bind_some, fsInfoInit_isValid, if_true,
      hfree]
    rw [if_neg (by omega), if_neg Bool.false_ne_true]
  · have haddress : uint32 (d.baseAddress + d.rootSectorStart * d.bytesPerSector : Nat) =
        baseAddress + 512 * (1 + 2 * fatSz) := by
      rw [hdisk.baseAddress, hdisk.rootSectorStart rfl, hdisk.bytesPerSector]
      unfold uint32
      simp at hfits
      omega
    have hread : device.read (baseAddress + 512 * (1 + 2 * fatSz)) 4 =
        some (overlay (fun _ => 0) 0 4 fun i =>
          device.bytes (baseAddress + 512 * (1 + 2 * fatSz) + i)) :=
      read_eq (by simp at hfits; omega)
    have hempty : overlay (fun _ => 0) 0 4 (fun i =>
        device.bytes (baseAddress + 512 * (1 + 2 * fatSz) + i)) 0 = 0 := by
      rw [overlay_inside (Nat.le_refl 0) (by decide), Nat.add_assoc]
      exact himage.root rfl 0 (by decide)
    refine ⟨CLUSTER_START, ?_⟩
    rw [countFree, if_pos hdisk.isFAT16, populateFreeCount]
    dsimp only
    rw [haddress, hread]
    dsimp only
    rw [hempty, if_pos (show UInt8.toNat 0 = SLOT_EMPTY from rfl), if_pos hdisk.isFAT16,
      if_pos rfl]

/-! ### Agreement -/

/-- The type, the FAT copies, the root directory, the first data sector and the clusters of two
    disks are the same, on the same sectors of the device. -/
structure SameGeometry (d d' : LogicDisk) : Prop where
  baseAddress : d'.baseAddress = d.baseAddress
  isFAT16 : d'.isFAT16 = d.isFAT16
  fatBaseSector₀ : d'.fatBaseSector₀ = d.fatBaseSector₀
  fatBaseSector₁ : d'.fatBaseSector₁ = d.fatBaseSector₁
  rootSectorStart : d'.rootSectorStart = d.rootSectorStart
  firstDataSector : d'.firstDataSector = d.firstDataSector
  sectorsPerCluster : d'.sectorsPerCluster = d.sectorsPerCluster
  totalClusterCount : d'.totalClusterCount = d.totalClusterCount
  totalSectorCount : d'.totalSectorCount = d.totalSectorCount

/-- The image of a region is mounted with the geometry of `formatted`, the clusters are in range,
    and the free ones are counted. -/
def MountsAs (device : BlockStorageDevice) (baseAddress diskSize : Nat) (formatted : LogicDisk) :
    Prop :=
  ∃ device' mounted,
    initializeDisk device (initDisk baseAddress diskSize) = some (device', mounted) ∧
      SameGeometry formatted mounted ∧ mounted.ClustersInRange ∧
      mounted.freeCount = freeClusters device' mounted

theorem not_mountsAs (hbase : disk.baseAddress = baseAddress)
    (hread : device.read (initDisk baseAddress diskSize).baseAddress DEFAULT_SECTOR_SIZE = some dbr)
    (hvalid : isValid dbr = none) : ¬ MountsAs device baseAddress diskSize disk := by
  rintro ⟨device', mounted, hinit, hsame, -, -⟩
  obtain ⟨d, hd, hcount, -⟩ := initializeDisk_eq_some_iff.mp hinit
  obtain ⟨freeCount, nextFree, rfl⟩ := countFree_spec hcount
  exact mountDisk_of_no_record hread hvalid hd (hsame.baseAddress.trans hbase)

section Agreement

variable (hrec : BootRecordOf totSec perClus useFAT16 fatSz dbr)
  (hmount : disk = (initDisk baseAddress diskSize).initMount dbr useFAT16)
  (hdisk : DiskOf disk baseAddress totSec perClus fatSz useFAT16)
  (htotSec : totSec = uint32 (diskSize / DEFAULT_SECTOR_SIZE : Nat))
  (hfit : (if useFAT16 then 33 else 32) + 2 * fatSz ≤ totSec)
  (hwrap : totSec + perClus ≤ 2 ^ 32) (hpos : 0 < fatSz) (hlt : fatSz < 2 ^ 20)
  (hperClus : 0 < perClus)

include hrec hmount hdisk htotSec hfit hwrap hlt in
theorem formatted_sizesAreSane :
    disk.sizesAreSane dbr = true ↔
      disk.totalClusterCount + 1 ≤ fatSz * sectorEntries useFAT16 := by
  have hsize : disk.diskSize = diskSize := by rw [hmount]; rfl
  have htotal : disk.totalSectorCount = totSec := by
    rw [hmount]
    exact bootRecord_totalSectors hrec
  have hcount : disk.totalClusterCount + 1 < 2 ^ 32 := by
    have hle : disk.totalClusterCount ≤ _ := hdisk.totalClusterCount ▸ Nat.div_le_self _ _
    split_ifs at hle hfit <;> omega
  have hregion : ¬ diskSize < uint32 (totSec * 512 : Nat) := by
    rw [htotSec, DEFAULT_SECTOR_SIZE]
    unfold uint32
    omega
  have hentries : (if useFAT16 then uint32 (fatSz16 dbr * 512 : Nat) / 2
      else uint32 (fatSz32 dbr * 512 : Nat) / 4) = fatSz * sectorEntries useFAT16 := by
    cases useFAT16
    · rw [hrec.fatSz32 rfl, if_neg Bool.false_ne_true]
      unfold uint32
      simp [sectorEntries]
      omega
    · rw [hrec.fatSz16, if_pos rfl, if_pos rfl]
      unfold uint32
      simp [sectorEntries]
      omega
  have hlast : uint32 (disk.totalClusterCount + CLUSTER_START - 1) =
      disk.totalClusterCount + 1 := by
    rw [CLUSTER_START]
    unfold uint32
    omega
  rw [LogicDisk.sizesAreSane, hsize, htotal, hdisk.bytesPerSector, hdisk.isFAT16]
  simp only [hentries, hlast, hregion, false_or, Nat.not_lt, decide_eq_true_eq]

include hrec hfit hwrap hperClus in
theorem formatted_imageFits (htotSec : totSec = uint32 (diskSize / DEFAULT_SECTOR_SIZE : Nat)) :
    ImageFits diskSize dbr useFAT16 ↔
      perClus ∣ totSec - ((if useFAT16 then 33 else 32) + 2 * fatSz) ∧
      (totSec - ((if useFAT16 then 33 else 32) + 2 * fatSz)) / perClus + 2 ≤
        fatSz * sectorEntries useFAT16 := by
  have hstart := bootRecord_dataStart hrec (by omega)
  have hregion : totSec * DEFAULT_SECTOR_SIZE ≤ diskSize := by
    rw [htotSec, DEFAULT_SECTOR_SIZE]
    unfold uint32
    omega
  have hnone : ¬ 2 ^ 32 < uint32 (totSec - ((if useFAT16 then 33 else 32) + 2 * fatSz : Nat)) +
      perClus := by
    unfold uint32
    split_ifs at hfit ⊢ <;> omega
  rw [ImageFits, hstart, bootRecord_totalSectors hrec, hrec.secPerClus, bootRecord_fatSectors hrec]
  constructor
  · rintro (⟨-, hdvd, -, hroom⟩ | hwrong)
    · exact ⟨hdvd, hroom⟩
    · exact absurd hwrong hnone
  · rintro ⟨hdvd, hroom⟩
    exact Or.inl ⟨hfit, hdvd, hregion, hroom⟩

include hrec hmount hdisk htotSec hfit hwrap hlt hperClus in
/-- A formatted image is mounted as it was formatted when the boot record is valid and the number of
    clusters passes the check of `MountDisk`, and its clusters are in range when the record fits. -/
theorem mountsAs_iff {accepted : Prop} [Decidable accepted]
    (himage : Formatted device baseAddress useFAT16 fatSz dbr
      (fsInfoInit (uint32 (disk.totalClusterCount - 1)) 3))
    (hvalid : isValid dbr = if accepted then some useFAT16 else none)
    (hpos : 0 < disk.totalClusterCount) :
    MountsAs device baseAddress diskSize disk ↔
      (∀ bytesPerBlock ∈ device.regions, 512 ≤ bytesPerBlock) ∧ accepted ∧
        disk.totalClusterCount + 1 ≤ fatSz * sectorEntries useFAT16 ∧
        perClus ∣ totSec - ((if useFAT16 then 33 else 32) + 2 * fatSz) ∧
        (totSec - ((if useFAT16 then 33 else 32) + 2 * fatSz)) / perClus + 2 ≤
          fatSz * sectorEntries useFAT16 := by
  have hread : device.read (initDisk baseAddress diskSize).baseAddress DEFAULT_SECTOR_SIZE =
      some dbr := himage.read_record hrec.past
  have hsane := formatted_sizesAreSane hrec hmount hdisk htotSec hfit hwrap hlt
  have hfits := formatted_imageFits hrec hfit hwrap hperClus htotSec
  by_cases haccepted : accepted
  · rw [if_pos haccepted] at hvalid
    have hrange : disk.ClustersInRange ↔ ImageFits diskSize dbr useFAT16 := by
      rw [hmount]
      exact clustersInRange_iff (initDisk baseAddress diskSize) (isValid_spec hvalid)
    constructor
    · rintro ⟨device', mounted, hinit, -, hclusters, -⟩
      obtain ⟨d, hd, hcount, -⟩ := initializeDisk_eq_some_iff.mp hinit
      obtain ⟨rfl, hsane', hregions⟩ := (mountDisk_of_record hread hvalid).mp hd
      rw [← hmount] at hsane' hregions hcount
      obtain ⟨freeCount, nextFree, rfl⟩ := countFree_spec hcount
      rw [hdisk.bytesPerSector] at hregions
      exact ⟨hregions, haccepted, hsane.mp hsane', hfits.mp (hrange.mp hclusters)⟩
    · rintro ⟨hregions, -, hentries, hdvd, hroom⟩
      have hclusters := hrange.mpr (hfits.mpr ⟨hdvd, hroom⟩)
      have hmounted : mountDisk device (initDisk baseAddress diskSize) = some disk := by
        rw [mountDisk_of_record hread hvalid]
        refine ⟨hmount, hsane.mpr hentries, ?_⟩
        rw [hdisk.bytesPerSector]
        exact hregions
      have hcount : disk.totalClusterCount + CLUSTER_START ≤ fatSz * sectorEntries useFAT16 := by
        rw [hdisk.totalClusterCount, roundUp_eq_div hperClus rfl hdvd]
        exact hroom
      have hsmall : disk.totalClusterCount + CLUSTER_START < 2 ^ 28 := by
        refine Nat.lt_of_le_of_lt hcount ?_
        cases useFAT16 <;> simp [sectorEntries] <;> omega
      obtain ⟨nextFree, hfree⟩ := countFree_formatted himage hdisk hlt hpos (by omega)
      refine ⟨device, _, initializeDisk_eq_some_iff.mpr ⟨disk, hmounted, hfree, ?_⟩,
        ⟨rfl, rfl, rfl, rfl, rfl, rfl, rfl, rfl, rfl⟩, hclusters, ?_⟩
      · dsimp only
        split_ifs <;> omega
      · exact (freeClusters_formatted himage hdisk hlt hcount hpos).symm
  · rw [if_neg haccepted] at hvalid
    exact iff_of_false (not_mountsAs hdisk.baseAddress hread hvalid) fun h => haccepted h.2.1

end Agreement

variable {parameters : Nat}

/-- What `FormatHelper` has done where it succeeds -/
theorem formatHelper_spec
    {volumeLabel : Option (List UInt8)} {date time : Nat}
    (h : formatHelper eraseBlocks device (initDisk baseAddress diskSize) volumeLabel parameters date
      time = some (.ok (device', disk)))
    (htotSec : totSec = uint32 (diskSize / DEFAULT_SECTOR_SIZE : Nat)) :
    ∃ useFAT16 dbr,
      chooseFAT16 (clusterSize DskTableFAT16 totSec) (clusterSize DskTableFAT32 totSec)
        parameters = .ok useFAT16 ∧
      let perClus := if useFAT16 then clusterSize DskTableFAT16 totSec
        else clusterSize DskTableFAT32 totSec
      let fatSz := fatSize totSec (if useFAT16 then 1 else 32) perClus useFAT16
      bootRecord totSec perClus useFAT16 fatSz volumeLabel date time = some dbr ∧
      disk = (initDisk baseAddress diskSize).initMount dbr useFAT16 ∧
      writeVolume eraseBlocks device disk dbr fatSz = some device' := by
  have hrsvd : ∀ perClus useFAT16,
      rsvdSecCnt (commonFields totSec perClus useFAT16) = if useFAT16 then 1 else 32 := by
    intro perClus useFAT16
    cases useFAT16 <;> by_cases hsmall : totSec < 0x10000 <;>
      simp [rsvdSecCnt, commonFields, hsmall]
  simp only [formatHelper, initDisk, ← htotSec, hrsvd] at h
  cases hchoose : chooseFAT16 (clusterSize DskTableFAT16 totSec) (clusterSize DskTableFAT32 totSec)
    parameters with
  | error failure => simp [hchoose] at h
  | ok useFAT16 =>
    rw [hchoose] at h
    dsimp only at h
    split at h
    · contradiction
    · next dbr hdbr =>
      split at h
      · simp at h
      · next device₁ hwrite =>
        obtain ⟨rfl, rfl⟩ : device₁ = device' ∧ _ = disk := by simpa using h
        exact ⟨useFAT16, dbr, rfl, hdbr, rfl, hwrite⟩

/-- The type that is chosen has a cluster size. -/
theorem chooseFAT16_spec
    (h : chooseFAT16 (clusterSize DskTableFAT16 totSec) (clusterSize DskTableFAT32 totSec)
      parameters = .ok useFAT16) :
    (if useFAT16 then clusterSize DskTableFAT16 totSec
      else clusterSize DskTableFAT32 totSec) ≠ 0 := by
  unfold chooseFAT16 at h
  by_cases hnone : clusterSize DskTableFAT16 totSec = 0 ∧ clusterSize DskTableFAT32 totSec = 0
  · rw [if_pos hnone] at h
    contradiction
  rw [if_neg hnone] at h
  by_cases h₁₆ : parameters &&& FORMAT_PARAMETER_FORCE_FAT16 ≠ 0
  · rw [if_pos h₁₆] at h
    by_cases hzero : clusterSize DskTableFAT16 totSec = 0
    · rw [if_pos hzero] at h
      contradiction
    · rw [if_neg hzero] at h
      obtain rfl : true = useFAT16 := by simpa using h
      exact hzero
  rw [if_neg h₁₆] at h
  by_cases h₃₂ : parameters &&& FORMAT_PARAMETER_FORCE_FAT32 ≠ 0
  · rw [if_pos h₃₂] at h
    by_cases hzero : clusterSize DskTableFAT32 totSec = 0
    · rw [if_pos hzero] at h
      contradiction
    · rw [if_neg hzero] at h
      obtain rfl : false = useFAT16 := by simpa using h
      exact hzero
  rw [if_neg h₃₂] at h
  obtain rfl : decide (0 < clusterSize DskTableFAT16 totSec ∧
      clusterSize DskTableFAT16 totSec < 32) = useFAT16 := by simpa using h
  by_cases hsize : 0 < clusterSize DskTableFAT16 totSec ∧ clusterSize DskTableFAT16 totSec < 32
  · simp [hsize]
    omega
  · -- Past the sizes of FAT16, the table of FAT32 has a row.
    simp only [hsize, decide_false, Bool.false_eq_true, if_false]
    intro hzero
    have hrow := clusterSize_fat16 fun hzero₁₆ => hnone ⟨hzero₁₆, hzero⟩
    simp only [DskTableFAT32, clusterSize_cons, clusterSize_nil] at hzero
    split_ifs at hzero <;> omega


theorem mountsAs_fat16
    (hrec : BootRecordOf totSec perClus true fatSz dbr)
    (hmount : disk = (initDisk baseAddress diskSize).initMount dbr true)
    (hwrite : writeVolume eraseBlocks device disk dbr fatSz = some device')
    (htotSec : totSec = uint32 (diskSize / DEFAULT_SECTOR_SIZE : Nat))
    (hrow : clusterSize DskTableFAT16 totSec ≠ 0)
    (hperClus : perClus = clusterSize DskTableFAT16 totSec)
    (hfatSz : fatSz = fatSize totSec 1 perClus true) :
    MountsAs device' baseAddress diskSize disk ↔
      (∀ bytesPerBlock ∈ device.regions, 512 ≤ bytesPerBlock) ∧ WholeClusters16 totSec perClus := by
  have hnum := numbers16 hrow hperClus hfatSz
  have hlt := hnum.perClus_lt
  have htotSec_lt := hnum.totSec_lt
  have hfat := hnum.fatSz_lt
  have hfit := hnum.dataStart_le
  have hmany := hnum.clusters
  have hdisk := diskOf hrec hmount hfit (by omega) hnum.perClus_pos
  obtain ⟨himage, hregions⟩ :=
    writeVolume_spec hrec hmount (fun _ => hnum.fatSz_pos) (by omega) hlt hwrite
  have hvalid : isValid dbr =
      if (totSec - (33 + 2 * fatSz)) / perClus < 65525 then some true else none := by
    rw [bootRecord_isValid hrec (Nat.ne_of_gt hnum.perClus_pos) hnum.perClus_pow
      (fun _ => hnum.fatSz_pos) (by simp),
      bootRecord_countOfClusters hrec (fun _ => hnum.fatSz_pos) hfit (by omega), if_pos rfl,
      if_neg (Nat.not_lt.mpr hmany)]
    simp
  have hpos : 0 < disk.totalClusterCount := by
    rw [hdisk.totalClusterCount, if_pos rfl]
    have hle := Nat.div_le_div_right (c := perClus)
      (Nat.le_add_right (totSec - (33 + 2 * fatSz)) (perClus - 1))
    omega
  rw [mountsAs_iff hrec hmount hdisk htotSec hfit (by omega) (by omega) hnum.perClus_pos himage
    hvalid hpos, hregions, wholeClusters16_iff hrow hperClus hfatSz, hdisk.totalClusterCount]
  rfl

theorem mountsAs_fat32
    (hrec : BootRecordOf totSec perClus false fatSz dbr)
    (hmount : disk = (initDisk baseAddress diskSize).initMount dbr false)
    (hwrite : writeVolume eraseBlocks device disk dbr fatSz = some device')
    (htotSec : totSec = uint32 (diskSize / DEFAULT_SECTOR_SIZE : Nat))
    (hrow : clusterSize DskTableFAT32 totSec ≠ 0)
    (hperClus : perClus = clusterSize DskTableFAT32 totSec)
    (hfatSz : fatSz = fatSize totSec 32 perClus false) :
    MountsAs device' baseAddress diskSize disk ↔
      (∀ bytesPerBlock ∈ device.regions, 512 ≤ bytesPerBlock) ∧ totSec + 8160 < 2 ^ 32 ∧
        WholeClusters32 totSec perClus := by
  by_cases hlast : totSec + 8160 < 2 ^ 32
  · have hnum := numbers32 hrow hperClus hfatSz hlast
    have hlt := hnum.perClus_lt
    have hfat := hnum.fatSz_lt
    have hfit := hnum.dataStart_le
    have hmany := hnum.clusters
    have hentries := hnum.entries
    have hdisk := diskOf hrec hmount (by simp; omega) (by omega) hnum.perClus_pos
    obtain ⟨himage, hregions⟩ :=
      writeVolume_spec hrec hmount (fun _ => hnum.fatSz_pos) hfat hlt hwrite
    have hvalid : isValid dbr = if True then some false else none := by
      rw [bootRecord_isValid hrec (Nat.ne_of_gt hnum.perClus_pos) hnum.perClus_pow
        (fun _ => hnum.fatSz_pos) (fun _ => hnum.totSec_ge),
        bootRecord_countOfClusters hrec (fun _ => hnum.fatSz_pos) (by simp; omega) (by omega),
        if_neg Bool.false_ne_true, if_neg (by omega), if_neg (by omega),
        if_pos ⟨rfl, hnum.fatSz_pos⟩, if_pos trivial]
    have hceil := Nat.div_le_div_right (c := perClus)
      (Nat.le_add_right (totSec - (32 + 2 * fatSz)) (perClus - 1))
    have hpos : 0 < disk.totalClusterCount := by
      rw [hdisk.totalClusterCount, if_neg Bool.false_ne_true]
      omega
    rw [mountsAs_iff hrec hmount hdisk htotSec (by simp; omega) (by omega) hfat hnum.perClus_pos
      himage hvalid hpos, hregions, wholeClusters32_iff hrow hperClus hfatSz hlast,
      hdisk.totalClusterCount, if_neg Bool.false_ne_true]
    refine and_congr_right fun _ => ?_
    rw [show sectorEntries false = 128 from rfl]
    constructor
    · rintro ⟨-, -, hdvd, -⟩
      exact ⟨hlast, hdvd⟩
    · rintro ⟨-, hdvd⟩
      exact ⟨trivial, by omega, hdvd, by omega⟩
  · have htotSec_lt : totSec < 2 ^ 32 := by
      rw [htotSec]
      unfold uint32
      omega
    have hempty : fatSz = 0 :=
      hfatSz.trans (fatSize_eq_zero hrow hperClus htotSec_lt (Nat.le_of_not_lt hlast))
    have hrow' : perClus = 64 := by
      have := clusterSize_fat32 hrow
      omega
    subst hempty hrow'
    obtain ⟨himage, -⟩ := writeVolume_spec hrec hmount (by simp) (by decide) (by decide) hwrite
    have hvalid : isValid dbr = none := by
      rw [bootRecord_isValid hrec (by decide) (by decide) (by simp) (fun _ => by omega),
        bootRecord_countOfClusters hrec (by simp) (by simp; omega) htotSec_lt,
        if_neg Bool.false_ne_true, if_neg (by omega), if_neg (by omega), if_neg (by simp)]
    exact iff_of_false (not_mountsAs (by rw [hmount]; rfl) (himage.read_record hrec.past) hvalid)
      fun h => hlast h.2.1

theorem mountsAs_formatted_iff
    {volumeLabel : Option (List UInt8)} {date time : Nat}
    (h : formatHelper eraseBlocks device (initDisk baseAddress diskSize) volumeLabel parameters date
      time = some (.ok (device', disk))) :
    MountsAs device' baseAddress diskSize disk ↔
      FormatFits diskSize parameters device.regions := by
  obtain ⟨totSec, htotSec⟩ :
      ∃ totSec, totSec = uint32 (diskSize / DEFAULT_SECTOR_SIZE : Nat) := ⟨_, rfl⟩
  obtain ⟨useFAT16, dbr, hchoose, hrecord, hmount, hwrite⟩ := formatHelper_spec h htotSec
  have hrow := chooseFAT16_spec hchoose
  have htotSec_lt : totSec < 2 ^ 32 := by
    rw [htotSec]
    unfold uint32
    omega
  rw [FormatFits, ← htotSec, hchoose]
  cases useFAT16
  · refine mountsAs_fat32 (bootRecord_spec hrecord ?_ htotSec_lt (fatSize_lt _ _ _ _)) hmount hwrite
      htotSec hrow rfl rfl
    have hrows := clusterSize_fat32 hrow
    change clusterSize DskTableFAT32 totSec < 2 ^ 8
    omega
  · exact mountsAs_fat16 (bootRecord_spec hrecord (numbers16 hrow rfl rfl).perClus_lt htotSec_lt
      (numbers16 hrow rfl rfl).fatSz_lt) hmount hwrite htotSec hrow rfl rfl

/-- A region that is formatted can be mounted, with its geometry, its clusters in range and its free
    clusters counted, when `FormatFits` holds of its size, and only then; and of the images that
    `MountDisk` accepts, those whose boot record fits have their clusters in range. -/
theorem format_and_mount_in_range (eraseBlocks : (Nat → UInt8) → Nat → UInt8)
    (device : BlockStorageDevice) (baseAddress diskSize : Nat) (volumeLabel : Option (List UInt8))
    (parameters date time : Nat) :
    (∀ device' disk,
      formatHelper eraseBlocks device (initDisk baseAddress diskSize) volumeLabel parameters date
        time = some (.ok (device', disk)) →
      (MountsAs device' baseAddress diskSize disk ↔
        FormatFits diskSize parameters device.regions)) ∧
    (∀ disk d, mountDisk device disk = some d →
      ∃ region dbr isFAT16, findBootRecord device disk = some (region, dbr, isFAT16) ∧
        (d.ClustersInRange ↔ ImageFits region.diskSize dbr isFAT16)) := by
  constructor
  · intro device' disk h
    exact mountsAs_formatted_iff h
  · intro disk d h
    obtain ⟨region, dbr, isFAT16, hfind, rfl, -, -⟩ := mountDisk_eq_some_iff.mp h
    exact ⟨region, dbr, isFAT16, hfind,
      clustersInRange_iff region (isValid_spec (findBootRecord_valid hfind))⟩

def erasedDevice (size : Nat) (h : size < 2 ^ 32) : BlockStorageDevice where
  size
  bytes := fun _ => 0xFF
  regions := [4096]
  size_lt := h

/-- 8401 sectors hold 4167 clusters of two sectors. -/
theorem format_and_mount_in_range_8401 :
    ∃ device' disk,
      formatHelper id (erasedDevice (8401 * 512) (by decide)) (initDisk 0 (8401 * 512)) none 0 0 0 =
        some (.ok (device', disk)) ∧
      MountsAs device' 0 (8401 * 512) disk ∧
      ∃ d region dbr isFAT16, mountDisk device' (initDisk 0 (8401 * 512)) = some d ∧
        findBootRecord device' (initDisk 0 (8401 * 512)) = some (region, dbr, isFAT16) ∧
        (d.ClustersInRange ↔ ImageFits region.diskSize dbr isFAT16) := by
  have hfits : FormatFits (8401 * 512) 0 [4096] := by
    change (∀ bytesPerBlock ∈ [4096], 512 ≤ bytesPerBlock) ∧ WholeClusters16 8401 2
    exact ⟨by decide, 17, 370, by decide, by decide, by decide, by decide, by decide⟩
  obtain ⟨device', disk, h⟩ : ∃ device' disk,
      formatHelper id (erasedDevice (8401 * 512) (by decide)) (initDisk 0 (8401 * 512)) none 0 0 0 =
        some (.ok (device', disk)) := ⟨_, _, rfl⟩
  have hmounts := ((format_and_mount_in_range _ _ _ _ _ _ _ _).1 _ _ h).mpr hfits
  obtain ⟨device'', mounted, hinit, -⟩ := id hmounts
  obtain ⟨d, hd, -⟩ := initializeDisk_eq_some_iff.mp hinit
  obtain ⟨region, dbr, isFAT16, hrange⟩ :=
    (format_and_mount_in_range id device' 0 0 none 0 0 0).2 _ d hd
  exact ⟨device', disk, h, hmounts, d, region, dbr, isFAT16, hd, hrange⟩

/-- 32768 sectors hold 8167 clusters of four sectors and three sectors more, which are counted as
    a cluster. -/
theorem formatted_out_of_range :
    ∃ device' disk,
      formatHelper id (erasedDevice (32768 * 512) (by decide)) (initDisk 0 (32768 * 512)) none 0 0
        0 = some (.ok (device', disk)) ∧
      ¬ MountsAs device' 0 (32768 * 512) disk := by
  obtain ⟨device', disk, h⟩ : ∃ device' disk,
      formatHelper id (erasedDevice (32768 * 512) (by decide)) (initDisk 0 (32768 * 512)) none 0 0
        0 = some (.ok (device', disk)) := ⟨_, _, rfl⟩
  refine ⟨device', disk, h, fun hmounts => ?_⟩
  have hfits := (mountsAs_formatted_iff h).mp hmounts
  change (∀ bytesPerBlock ∈ [4096], 512 ≤ bytesPerBlock) ∧ WholeClusters16 32768 4 at hfits
  obtain ⟨-, q, r, hr, htot, hdvd, -, -⟩ := hfits
  omega

end TinyClr.FatLogicDisk
