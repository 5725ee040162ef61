import TinyClr.Drivers.LogicDiskMount

/-!
# Formatting makes a volume that can be mounted

The boot record that `FormatHelper` builds is read back by `MountDisk`; its cluster size comes from
a table, its FAT size from a formula, and the two are good for mounting when `FormatFits` holds of
the size of the region, and only then.
-/

namespace TinyClr.FatLogicDisk

open TinyClr.Library

variable {device device' : BlockStorageDevice} {disk : LogicDisk} {dbr : Sector}
  {useFAT16 : Bool} {totSec perClus fatSz : Nat} {volumeLabel : Option (List UInt8)}
  {date time : Nat}

/-! ### The boot record -/

@[simp] theorem length_oemName : (ascii "MSWIN4.1").length = 8 := by decide

@[simp] theorem length_fat16Type : (ascii "FAT16   ").length = 8 := by decide

@[simp] theorem length_fat32Type : (ascii "FAT32   ").length = 8 := by decide

structure BootRecordOf (totSec perClus : Nat) (useFAT16 : Bool) (fatSz : Nat) (dbr : Sector) :
    Prop where
  endingFlag : word16 dbr 510 = 0xaa55
  jmpBoot : dbr 0 = 0xeb
  bytsPerSec : bytsPerSec dbr = 512
  secPerClus : secPerClus dbr = perClus
  rsvdSecCnt : rsvdSecCnt dbr = if useFAT16 then 1 else 32
  numFATs : numFATs dbr = 2
  rootEntCnt : rootEntCnt dbr = if useFAT16 then 512 else 0
  totSec16 : totSec16 dbr = if totSec < 0x10000 then totSec else 0
  totSec32 : totSec32 dbr = if totSec < 0x10000 then 0 else totSec
  fatSz16 : fatSz16 dbr = if useFAT16 then fatSz else 0
  fatSz32 : useFAT16 = false → fatSz32 dbr = fatSz
  rootClus : useFAT16 = false → rootClus dbr = 2
  fsInfoSector : useFAT16 = false → fsInfoSector dbr = 1
  past : ∀ i, 512 ≤ i → dbr i = 0

/-- Every field that is set is read back, as it was set last. -/
theorem bootRecord_spec
    (h : bootRecord totSec perClus useFAT16 fatSz volumeLabel date time = some dbr)
    (hperClus : perClus < 2 ^ 8) (htotSec : totSec < 2 ^ 32)
    (hfatSz : fatSz < if useFAT16 then 2 ^ 16 else 2 ^ 32) :
    BootRecordOf totSec perClus useFAT16 fatSz dbr := by
  obtain ⟨label, hlabel⟩ : ∃ label, label = volumeLabel.getD (ascii "MFDISK     ") := ⟨_, rfl⟩
  rw [bootRecord, ← hlabel] at h
  by_cases hfits : DEFAULT_SECTOR_SIZE < (if useFAT16 then 43 else 71) + label.length
  · rw [if_pos hfits] at h
    contradiction
  rw [if_neg hfits] at h
  obtain rfl := Option.some.inj h
  rw [DEFAULT_SECTOR_SIZE, Nat.not_lt] at hfits
  constructor
  case endingFlag => simp
  case jmpBoot =>
    cases useFAT16 <;> by_cases hsmall : totSec < 0x10000 <;>
      simp [fat16Fields, fat32Fields, commonFields, hsmall]
  case bytsPerSec =>
    cases useFAT16 <;> by_cases hsmall : totSec < 0x10000 <;>
      simp [bytsPerSec, fat16Fields, fat32Fields, commonFields, hsmall, DEFAULT_SECTOR_SIZE]
  case secPerClus =>
    cases useFAT16 <;> by_cases hsmall : totSec < 0x10000 <;>
      simpa [secPerClus, fat16Fields, fat32Fields, commonFields, hsmall] using hperClus
  case rsvdSecCnt =>
    cases useFAT16 <;> by_cases hsmall : totSec < 0x10000 <;>
      simp [rsvdSecCnt, fat16Fields, fat32Fields, commonFields, hsmall]
  case numFATs =>
    cases useFAT16 <;> by_cases hsmall : totSec < 0x10000 <;>
      simp [numFATs, fat16Fields, fat32Fields, commonFields, hsmall]
  case rootEntCnt =>
    cases useFAT16 <;> by_cases hsmall : totSec < 0x10000 <;>
      simp [rootEntCnt, fat16Fields, fat32Fields, commonFields, hsmall]
  case totSec16 =>
    cases useFAT16 <;> by_cases hsmall : totSec < 0x10000 <;>
      simp [totSec16, fat16Fields, fat32Fields, commonFields, hsmall, Nat.mod_eq_of_lt]
  case totSec32 =>
    by_cases hsmall : totSec < 0x10000
    · cases useFAT16 <;> simp [totSec32, fat16Fields, fat32Fields, commonFields, hsmall]
    · cases useFAT16 <;>
        simpa [totSec32, fat16Fields, fat32Fields, commonFields, hsmall] using htotSec
  case fatSz16 =>
    cases useFAT16
    · by_cases hsmall : totSec < 0x10000 <;> simp [fatSz16, fat32Fields, commonFields, hsmall]
    · by_cases hsmall : totSec < 0x10000 <;>
        simpa [fatSz16, fat16Fields, commonFields, hsmall] using hfatSz
  case fatSz32 =>
    rintro rfl
    simpa [fatSz32, fat32Fields] using hfatSz
  case rootClus =>
    rintro rfl
    simp [rootClus, fat32Fields]
  case fsInfoSector =>
    rintro rfl
    simp [fsInfoSector, fat32Fields]
  case past =>
    intro i hi
    have hend : (if useFAT16 then 43 else 71) + label.length ≤ i := Nat.le_trans hfits hi
    cases useFAT16 <;> by_cases hsmall : totSec < 0x10000 <;>
      simp only [Bool.false_eq_true, if_true, if_false] at hend <;>
      simp (disch := (try simp) <;> omega) only [fat16Fields, fat32Fields, commonFields, hsmall,
        memcpy_outside, if_true, if_false, Bool.false_eq_true]

/-! ### Cluster sizes -/

@[simp] theorem clusterSize_nil (totSec : Nat) : clusterSize [] totSec = 0 := rfl

theorem clusterSize_cons (row : Nat × Nat) (rows : List (Nat × Nat)) (totSec : Nat) :
    clusterSize (row :: rows) totSec =
      if totSec ≤ row.1 then row.2 else clusterSize rows totSec := by
  by_cases hle : totSec ≤ row.1 <;> simp [clusterSize, hle]

theorem clusterSize_fat16 (h : clusterSize DskTableFAT16 totSec ≠ 0) :
    8400 < totSec ∧ totSec ≤ 32680 ∧ clusterSize DskTableFAT16 totSec = 2 ∨
    32680 < totSec ∧ totSec ≤ 262144 ∧ clusterSize DskTableFAT16 totSec = 4 ∨
    262144 < totSec ∧ totSec ≤ 524288 ∧ clusterSize DskTableFAT16 totSec = 8 ∨
    524288 < totSec ∧ totSec ≤ 1048576 ∧ clusterSize DskTableFAT16 totSec = 16 ∨
    1048576 < totSec ∧ totSec ≤ 2097152 ∧ clusterSize DskTableFAT16 totSec = 32 ∨
    2097152 < totSec ∧ totSec ≤ 4194304 ∧ clusterSize DskTableFAT16 totSec = 64 := by
  simp only [DskTableFAT16, clusterSize_cons, clusterSize_nil] at h ⊢
  split_ifs at h ⊢ <;> omega

theorem clusterSize_fat32 (h : clusterSize DskTableFAT32 totSec ≠ 0) :
    66600 < totSec ∧ totSec ≤ 532480 ∧ clusterSize DskTableFAT32 totSec = 1 ∨
    532480 < totSec ∧ totSec ≤ 16777216 ∧ clusterSize DskTableFAT32 totSec = 8 ∨
    16777216 < totSec ∧ totSec ≤ 33554432 ∧ clusterSize DskTableFAT32 totSec = 16 ∨
    33554432 < totSec ∧ totSec ≤ 67108864 ∧ clusterSize DskTableFAT32 totSec = 32 ∨
    67108864 < totSec ∧ clusterSize DskTableFAT32 totSec = 64 := by
  simp only [DskTableFAT32, clusterSize_cons, clusterSize_nil] at h ⊢
  split_ifs at h ⊢ <;> omega

/-! ### The size of the FAT -/

theorem fatSize_lt (totSec rsvdSecCnt perClus : Nat) (useFAT16 : Bool) :
    fatSize totSec rsvdSecCnt perClus useFAT16 < 2 ^ 32 := by
  refine Nat.lt_of_le_of_lt (Nat.div_le_self _ _) ?_
  unfold uint32
  omega

theorem fatSize_fat16 (hlow : 33 ≤ totSec) (hhigh : totSec ≤ 4194304) (hlt : perClus < 2 ^ 8) :
    fatSize totSec 1 perClus true =
      (totSec - 33 + (256 * perClus + 1)) / (256 * perClus + 2) := by
  have hval : uint32 (totSec - (1 + 32 : Nat)) = totSec - 33 := by
    unfold uint32
    omega
  have hsum : uint32 ((totSec - 33 : Nat) + ((256 * perClus + 2 : Nat) - 1)) =
      totSec - 33 + (256 * perClus + 1) := by
    unfold uint32
    omega
  simp only [fatSize, if_true, hval, hsum]

theorem fatSize_fat32 (hlow : 32 ≤ totSec) (hhigh : totSec < 2 ^ 32) :
    fatSize totSec 32 perClus false =
      uint32 (totSec - 32 + 128 * perClus : Nat) / (128 * perClus + 1) := by
  have hval : uint32 (totSec - (32 + 0 : Nat)) = totSec - 32 := by
    unfold uint32
    omega
  have hhalf : (256 * perClus + 2) / 2 = 128 * perClus + 1 := by omega
  have hsum : uint32 ((totSec - 32 : Nat) + ((128 * perClus + 1 : Nat) - 1)) =
      uint32 (totSec - 32 + 128 * perClus : Nat) := by
    unfold uint32
    omega
  simp only [fatSize, Bool.false_eq_true, if_false, hval, hhalf, hsum]

/-- What the table and the formula come to for FAT16 -/
structure Numbers16 (totSec perClus fatSz : Nat) : Prop where
  perClus_pos : 0 < perClus
  perClus_lt : perClus < 2 ^ 8
  perClus_pow : (perClus - 1) &&& perClus = 0
  fatSz_pos : 0 < fatSz
  fatSz_lt : fatSz < 2 ^ 16
  dataStart_le : 33 + 2 * fatSz ≤ totSec
  clusters : 4085 ≤ (totSec - (33 + 2 * fatSz)) / perClus
  totSec_lt : totSec < 2 ^ 23

/-- What the table and the formula come to for FAT32 -/
structure Numbers32 (totSec perClus fatSz : Nat) : Prop where
  perClus_pos : 0 < perClus
  perClus_lt : perClus < 2 ^ 8
  perClus_pow : (perClus - 1) &&& perClus = 0
  fatSz_pos : 0 < fatSz
  fatSz_lt : fatSz < 2 ^ 20
  dataStart_le : 32 + 2 * fatSz + perClus ≤ totSec
  clusters : 65525 ≤ (totSec - (32 + 2 * fatSz)) / perClus
  /-- The FAT has an entry for each cluster and for the two numbers before them. -/
  entries : (totSec - (32 + 2 * fatSz) + (perClus - 1)) / perClus + 2 ≤ fatSz * 128
  totSec_ge : 0x10000 ≤ totSec

theorem numbers16 (h : clusterSize DskTableFAT16 totSec ≠ 0)
    (hperClus : perClus = clusterSize DskTableFAT16 totSec)
    (hfatSz : fatSz = fatSize totSec 1 perClus true) : Numbers16 totSec perClus fatSz := by
  rcases clusterSize_fat16 h with ⟨hlow, hhigh, hrow⟩ | ⟨hlow, hhigh, hrow⟩ | ⟨hlow, hhigh, hrow⟩ |
      ⟨hlow, hhigh, hrow⟩ | ⟨hlow, hhigh, hrow⟩ | ⟨hlow, hhigh, hrow⟩ <;>
    rw [hrow] at hperClus <;> subst hperClus <;>
    rw [fatSize_fat16 (by omega) (by omega) (by omega)] at hfatSz <;>
    constructor <;> first | decide | omega

theorem numbers32 (h : clusterSize DskTableFAT32 totSec ≠ 0)
    (hperClus : perClus = clusterSize DskTableFAT32 totSec)
    (hfatSz : fatSz = fatSize totSec 32 perClus false) (hlast : totSec + 8160 < 2 ^ 32) :
    Numbers32 totSec perClus fatSz := by
  rcases clusterSize_fat32 h with ⟨hlow, hhigh, hrow⟩ | ⟨hlow, hhigh, hrow⟩ | ⟨hlow, hhigh, hrow⟩ |
      ⟨hlow, hhigh, hrow⟩ | ⟨hlow, hrow⟩ <;>
    rw [hrow] at hperClus <;> subst hperClus <;>
    rw [fatSize_fat32 (by omega) (by omega), uint32_eq_toNat (by omega) (by omega)]
      at hfatSz <;>
    constructor <;> first | decide | omega

theorem fatSize_eq_zero (h : clusterSize DskTableFAT32 totSec ≠ 0)
    (hperClus : perClus = clusterSize DskTableFAT32 totSec) (htotSec : totSec < 2 ^ 32)
    (hlast : 2 ^ 32 ≤ totSec + 8160) : fatSize totSec 32 perClus false = 0 := by
  have hrow : perClus = 64 := by
    have := clusterSize_fat32 h
    omega
  subst hrow
  rw [fatSize_fat32 (by omega) htotSec]
  unfold uint32
  omega

/-- The sectors after the boot sector and the root directory are short of filling a whole number of
    FAT sectors by whole clusters, two at least, and the clusters are few enough for FAT16.  With a
    FAT sector, in both copies, go 256 clusters. -/
def WholeClusters16 (totSec perClus : Nat) : Prop :=
  ∃ q r, r < 256 * perClus + 2 ∧ totSec + r = 33 + q * (256 * perClus + 2) ∧
    perClus ∣ r ∧ 2 * perClus ≤ r ∧ 256 * q < 65525 + r / perClus

/-- The sectors after the reserved ones leave whole clusters, when they are short of `q` FAT sectors
    by `r` sectors. -/
def WholeClusters32 (totSec perClus : Nat) : Prop :=
  ∃ q r, r < 128 * perClus + 1 ∧ totSec + r = 32 + q * (128 * perClus + 1) ∧ perClus ∣ q + r

/-- When a region that is formatted can be mounted with all clusters in range -/
def FormatFits (diskSize parameters : Nat) (regions : List Nat) : Prop :=
  let totSec := uint32 (diskSize / DEFAULT_SECTOR_SIZE : Nat)
  (∀ bytesPerBlock ∈ regions, DEFAULT_SECTOR_SIZE ≤ bytesPerBlock) ∧
    match chooseFAT16 (clusterSize DskTableFAT16 totSec) (clusterSize DskTableFAT32 totSec)
      parameters with
    | .ok true => WholeClusters16 totSec (clusterSize DskTableFAT16 totSec)
    | .ok false =>
        totSec + 8160 < 2 ^ 32 ∧ WholeClusters32 totSec (clusterSize DskTableFAT32 totSec)
    | .error _ => True

theorem wholeClusters16_iff (h : clusterSize DskTableFAT16 totSec ≠ 0)
    (hperClus : perClus = clusterSize DskTableFAT16 totSec)
    (hfatSz : fatSz = fatSize totSec 1 perClus true) :
    WholeClusters16 totSec perClus ↔
      (totSec - (33 + 2 * fatSz)) / perClus < 65525 ∧
      (totSec - (33 + 2 * fatSz) + (perClus - 1)) / perClus + 1 ≤ fatSz * 256 ∧
      perClus ∣ totSec - (33 + 2 * fatSz) ∧
      (totSec - (33 + 2 * fatSz)) / perClus + 2 ≤ fatSz * 256 := by
  unfold WholeClusters16
  obtain ⟨short, hshort⟩ : ∃ r, r = 33 + fatSz * (256 * perClus + 2) - totSec := ⟨_, rfl⟩
  rcases clusterSize_fat16 h with ⟨hlow, hhigh, hrow⟩ | ⟨hlow, hhigh, hrow⟩ | ⟨hlow, hhigh, hrow⟩ |
      ⟨hlow, hhigh, hrow⟩ | ⟨hlow, hhigh, hrow⟩ | ⟨hlow, hhigh, hrow⟩ <;>
    rw [hrow] at hperClus <;> subst hperClus <;>
    rw [fatSize_fat16 (by omega) (by omega) (by omega)] at hfatSz
  all_goals
    constructor
    · rintro ⟨q, r, hr, htot, hwhole, htwo, hfew⟩
      obtain rfl : q = fatSz := by omega
      omega
    · rintro ⟨hfew, hsane, hwhole, hroom⟩
      exact ⟨fatSz, short, by omega, by omega, by omega, by omega, by omega⟩

theorem wholeClusters32_iff (h : clusterSize DskTableFAT32 totSec ≠ 0)
    (hperClus : perClus = clusterSize DskTableFAT32 totSec)
    (hfatSz : fatSz = fatSize totSec 32 perClus false) (hlast : totSec + 8160 < 2 ^ 32) :
    WholeClusters32 totSec perClus ↔ perClus ∣ totSec - (32 + 2 * fatSz) := by
  unfold WholeClusters32
  obtain ⟨short, hshort⟩ : ∃ r, r = 32 + fatSz * (128 * perClus + 1) - totSec := ⟨_, rfl⟩
  rcases clusterSize_fat32 h with ⟨hlow, hhigh, hrow⟩ | ⟨hlow, hhigh, hrow⟩ | ⟨hlow, hhigh, hrow⟩ |
      ⟨hlow, hhigh, hrow⟩ | ⟨hlow, hrow⟩ <;>
    rw [hrow] at hperClus <;> subst hperClus <;>
    rw [fatSize_fat32 (by omega) (by omega), uint32_eq_toNat (by omega) (by omega)] at hfatSz
  all_goals
    constructor
    · rintro ⟨q, r, hr, htot, hwhole⟩
      obtain rfl : q = fatSz := by omega
      omega
    · intro hwhole
      exact ⟨fatSz, short, by omega, by omega, by omega⟩

end TinyClr.FatLogicDisk
