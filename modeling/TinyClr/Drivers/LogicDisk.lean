import TinyClr.Library.ByteFields

/-!
# Formatting and mounting a FAT volume

`FAT_LogicDisk` and the boot records of `FAT_FS.h` (`Drivers/FS/FAT`): a volume is formatted by
`FormatHelper`, and an image is taken for a volume by `MountDisk` and `Initialize`.

Sectors are maps from offsets to bytes, and the records are fields of them.  The device refuses
what lies past its end.  The bytes that the erasing of the blocks of the region leaves are a
parameter, as is the time that becomes the serial number of the volume.
-/

namespace TinyClr.FatLogicDisk

open TinyClr.Library

def DEFAULT_SECTOR_SIZE : Nat := 512

def CLUST_NONE : Nat := 0x0

def CLUST_FAT32_EOFE : Nat := 0x0fffffff

def CLUST_ERROR : Nat := 0xFFFFFFFF

def FAT32_MASK : Nat := 0x0fffffff

def SLOT_EMPTY : Nat := 0x00

def CLUSTER_NOT_A_CLUSTER : Nat := 0

def CLUSTER_START : Nat := 2

def FORMAT_PARAMETER_FORCE_FAT16 : Nat := 0x1

def FORMAT_PARAMETER_FORCE_FAT32 : Nat := 0x2

inductive FatFailure where
  | notSupported
  | fileIOError
deriving DecidableEq, Repr

abbrev Sector : Type := Nat → UInt8

def ascii (text : String) : List UInt8 := text.toList.map fun c => UInt8.ofNat c.toNat

/-! ### The block storage device -/

/-- The bytes of a device, and `BytesPerBlock` of its regions -/
structure BlockStorageDevice where
  size : Nat
  bytes : Nat → UInt8
  regions : List Nat
  /-- Addresses have 32 bits. -/
  size_lt : size < 2 ^ 32

/-- `Read`; past what is read, a buffer is 0. -/
def BlockStorageDevice.read (device : BlockStorageDevice) (address numBytes : Nat) :
    Option Sector :=
  if address + numBytes ≤ device.size then
    some (overlay (fun _ => 0) 0 numBytes fun i => device.bytes (address + i))
  else none

def BlockStorageDevice.write (device : BlockStorageDevice) (address numBytes : Nat)
    (buffer : Sector) : Option BlockStorageDevice :=
  if address + numBytes ≤ device.size then
    some { device with bytes := overlay device.bytes address numBytes buffer }
  else none

def BlockStorageDevice.memset (device : BlockStorageDevice) (address : Nat) (data : UInt8)
    (numBytes : Nat) : Option BlockStorageDevice :=
  device.write address numBytes fun _ => data

/-! ### Boot records -/

/-- `FAT_MBR::Partition::Get_RelativeSector` of `Partitions[0]` -/
def mbrRelativeSector (mbr : Sector) : Nat := word32 mbr 454

/-- `FAT_MBR::Partition::Get_TotalSector` of `Partitions[0]` -/
def mbrTotalSector (mbr : Sector) : Nat := word32 mbr 458

def mbrIsValid (mbr : Sector) : Bool :=
  word16 mbr 510 = 0xaa55 ∧ (mbr 446 = 0x00 ∨ mbr 446 = 0x80) ∧ 0 < mbrRelativeSector mbr ∧
    0 < mbrTotalSector mbr

def bytsPerSec (dbr : Sector) : Nat := word16 dbr 11

def secPerClus (dbr : Sector) : Nat := (dbr 13).toNat

def rsvdSecCnt (dbr : Sector) : Nat := word16 dbr 14

def numFATs (dbr : Sector) : Nat := (dbr 16).toNat

def rootEntCnt (dbr : Sector) : Nat := word16 dbr 17

def totSec16 (dbr : Sector) : Nat := word16 dbr 19

def fatSz16 (dbr : Sector) : Nat := word16 dbr 22

def totSec32 (dbr : Sector) : Nat := word32 dbr 32

def fatSz32 (dbr : Sector) : Nat := word32 dbr 36

def rootClus (dbr : Sector) : Nat := word32 dbr 44

def fsInfoSector (dbr : Sector) : Nat := word16 dbr 48

/-- The sectors of the root directory, as `GetCountOfClusters` and `InitMount` round them -/
def rootDirSectors (dbr : Sector) : Nat :=
  (rootEntCnt dbr * 32 + (bytsPerSec dbr - 1)) / bytsPerSec dbr

def getCountOfClusters (dbr : Sector) : Nat :=
  let fatSz := if fatSz16 dbr ≠ 0 then fatSz16 dbr else fatSz32 dbr
  let totSec := if totSec16 dbr ≠ 0 then totSec16 dbr else totSec32 dbr
  uint32 (totSec - (rsvdSecCnt dbr + numFATs dbr * fatSz + rootDirSectors dbr : Nat)) /
    secPerClus dbr

/-- `FAT_DBR::IsValid`: `*isFAT16` when it holds -/
def isValid (dbr : Sector) : Option Bool :=
  if word16 dbr 510 = 0xaa55 ∧ (dbr 0 = 0xeb ∨ dbr 0 = 0xe9) ∧ bytsPerSec dbr = 512 ∧
      (secPerClus dbr ≠ 0 ∧ (secPerClus dbr - 1) &&& secPerClus dbr = 0) ∧
      0 < rsvdSecCnt dbr ∧ numFATs dbr = 2 then
    if getCountOfClusters dbr < 4085 then none
    else if getCountOfClusters dbr < 65525 then
      if rootEntCnt dbr = 512 ∧ 0 < fatSz16 dbr ∧ (totSec16 dbr = 0 ∨ totSec32 dbr = 0) then
        some true
      else none
    else if rootEntCnt dbr = 0 ∧ totSec16 dbr = 0 ∧ fatSz16 dbr = 0 ∧ 0 < totSec32 dbr ∧
        0 < fatSz32 dbr then
      some false
    else none
  else none

def fsInfoInit (freeCount nxtFree : Nat) : Sector :=
  let b : Sector := fun _ => 0
  let b := memcpy b 0 (bytes32 0x41615252)
  let b := memcpy b 484 (bytes32 0x61417272)
  let b := memcpy b 488 (bytes32 freeCount)
  let b := memcpy b 492 (bytes32 nxtFree)
  memcpy b 508 (bytes32 0xAA550000)

def fsInfoIsValid (fsInfo : Sector) : Bool :=
  word32 fsInfo 0 = 0x41615252 ∧ word32 fsInfo 484 = 0x61417272 ∧ word32 fsInfo 508 = 0xAA550000

/-! ### The disk -/

/-- `FAT_LogicDisk`, but for the sector cache, the device and the volume -/
structure LogicDisk where
  diskSize : Nat
  baseAddress : Nat
  sectorCount : Nat
  fatBaseSector₀ : Nat
  fatBaseSector₁ : Nat
  firstDataSector : Nat
  totalClusterCount : Nat
  totalSectorCount : Nat
  entriesPerSector : Nat
  sectorFSInfo : Nat
  freeCount : Nat
  nextFree : Nat
  isFAT16 : Bool
  rootSectorStart : Nat
  bytesPerSector : Nat
  sectorsPerCluster : Nat
deriving DecidableEq, Repr

/-- `InitDisk`: `PopulateDiskSize` has found the region of the file system, `diskSize` bytes
    from `baseAddress` on. -/
def initDisk (baseAddress diskSize : Nat) : LogicDisk where
  diskSize
  baseAddress
  sectorCount := uint32 (diskSize / DEFAULT_SECTOR_SIZE : Nat)
  fatBaseSector₀ := 0
  fatBaseSector₁ := 0
  firstDataSector := 0
  totalClusterCount := 0
  totalSectorCount := 0
  entriesPerSector := 0
  sectorFSInfo := 0
  freeCount := 0
  nextFree := 0
  isFAT16 := false
  rootSectorStart := 0
  bytesPerSector := 0
  sectorsPerCluster := 0

def LogicDisk.clusToSect (disk : LogicDisk) (clusIndex : Nat) : Nat :=
  if clusIndex < CLUSTER_START then disk.rootSectorStart
  else uint32 (disk.firstDataSector + (clusIndex - CLUSTER_START) * disk.sectorsPerCluster : Nat)

def LogicDisk.sectToClus (disk : LogicDisk) (sectIndex : Nat) : Nat :=
  if sectIndex < disk.firstDataSector then CLUSTER_NOT_A_CLUSTER
  else uint32 ((sectIndex - disk.firstDataSector) / disk.sectorsPerCluster + CLUSTER_START : Nat)

def LogicDisk.initMount (disk : LogicDisk) (dbr : Sector) (isFAT16 : Bool) : LogicDisk :=
  let fatSz := if isFAT16 then fatSz16 dbr else fatSz32 dbr
  let totSec := if totSec16 dbr = 0 then totSec32 dbr else totSec16 dbr
  let firstDataSector := uint32 (rsvdSecCnt dbr + fatSz * numFATs dbr + rootDirSectors dbr : Nat)
  let disk :=
    { disk with
      isFAT16
      bytesPerSector := bytsPerSec dbr
      sectorsPerCluster := secPerClus dbr
      entriesPerSector := bytsPerSec dbr / (if isFAT16 then 2 else 4)
      sectorCount := uint32 (disk.diskSize / bytsPerSec dbr : Nat)
      fatBaseSector₀ := rsvdSecCnt dbr
      fatBaseSector₁ := uint32 (rsvdSecCnt dbr + fatSz : Nat)
      firstDataSector
      totalClusterCount :=
        uint32 (uint32 (totSec - firstDataSector) + (secPerClus dbr - 1)) / secPerClus dbr
      totalSectorCount := totSec
      sectorFSInfo := if isFAT16 then 0 else fsInfoSector dbr }
  { disk with
    rootSectorStart :=
      if isFAT16 then uint32 (firstDataSector - rootDirSectors dbr)
      else disk.clusToSect (rootClus dbr) }

/-! ### Mounting -/

/-- The first partition of a master boot record, in the loop of `MountDisk` -/
def firstPartition (disk : LogicDisk) (mbr : Sector) : Option LogicDisk :=
  if mbrIsValid mbr then
    let offset := uint32 (mbrRelativeSector mbr * DEFAULT_SECTOR_SIZE : Nat)
    let size := uint32 (mbrTotalSector mbr * DEFAULT_SECTOR_SIZE : Nat)
    if disk.diskSize < uint32 (offset + size) then none
    else some { disk with baseAddress := uint32 (disk.baseAddress + offset), diskSize := size }
  else none

/-- The loop of `MountDisk`: the boot record is the first sector of the region or, with `triedMBR`,
    that of the first partition. -/
def findBootRecord (device : BlockStorageDevice) (disk : LogicDisk) :
    Option (LogicDisk × Sector × Bool) := do
  let buffer ← device.read disk.baseAddress DEFAULT_SECTOR_SIZE
  match isValid buffer with
  | some isFAT16 => some (disk, buffer, isFAT16)
  | none =>
      let disk ← firstPartition disk buffer
      let buffer ← device.read disk.baseAddress DEFAULT_SECTOR_SIZE
      let isFAT16 ← isValid buffer
      some (disk, buffer, isFAT16)

/-- The sanity check of `MountDisk` -/
def LogicDisk.sizesAreSane (disk : LogicDisk) (dbr : Sector) : Bool :=
  let fatEntriesCount :=
    if disk.isFAT16 then uint32 (fatSz16 dbr * disk.bytesPerSector : Nat) / 2
    else uint32 (fatSz32 dbr * disk.bytesPerSector : Nat) / 4
  ¬ (disk.diskSize < uint32 (disk.totalSectorCount * disk.bytesPerSector : Nat) ∨
    fatEntriesCount < uint32 (disk.totalClusterCount + CLUSTER_START - 1))

def mountDisk (device : BlockStorageDevice) (disk : LogicDisk) : Option LogicDisk := do
  let (disk, dbr, isFAT16) ← findBootRecord device disk
  let disk := disk.initMount dbr isFAT16
  if disk.sizesAreSane dbr ∧ ∀ bytesPerBlock ∈ device.regions, disk.bytesPerSector ≤ bytesPerBlock
  then some disk else none

/-! ### Free clusters -/

def readFAT (device : BlockStorageDevice) (disk : LogicDisk) (clusIndex : Nat) : Nat :=
  if uint32 (disk.totalClusterCount + CLUSTER_START) ≤ clusIndex then CLUST_ERROR
  else
    let sectorsOffset := clusIndex / disk.entriesPerSector
    let dataOffset := clusIndex % disk.entriesPerSector
    let sector := uint32 (disk.fatBaseSector₀ + sectorsOffset : Nat)
    match device.read (uint32 (disk.baseAddress + sector * disk.bytesPerSector : Nat))
        disk.bytesPerSector with
    | none => CLUST_ERROR
    | some fat =>
        if disk.isFAT16 then word16 fat (2 * dataOffset)
        else word32 fat (4 * dataOffset) &&& FAT32_MASK

/-- The loop of `PopulateFreeCount`: the number of the cluster it is at, what it has counted, and
    whether it is past the last cluster. -/
structure FreeScan where
  c : Nat
  freeCount : Nat
  nextFree : Nat
  done : Bool

/-- One entry in the loop of `PopulateFreeCount` -/
def FreeScan.entry (lastIndex : Nat) (scan : FreeScan) (fat : Nat) : FreeScan :=
  if scan.done then scan
  else
    let scan :=
      if fat = CLUST_NONE then
        { scan with
          freeCount := scan.freeCount + 1
          nextFree := if scan.nextFree = 0 then scan.c else scan.nextFree }
      else scan
    if scan.c = lastIndex then { scan with done := true } else { scan with c := scan.c + 1 }

def fatEntries (isFAT16 : Bool) (buffer : Sector) : List Nat :=
  if isFAT16 then (List.range (DEFAULT_SECTOR_SIZE / 2)).map fun i => word16 buffer (2 * i)
  else (List.range (DEFAULT_SECTOR_SIZE / 4)).map fun i => word32 buffer (4 * i)

/-- The loop of `PopulateFreeCount` over the sectors of the FAT; `none` is a failure of the device.
    The last cluster is found after as many sectors as its number asks for. -/
def scanFAT (device : BlockStorageDevice) (isFAT16 : Bool) (lastIndex : Nat) :
    Nat → Nat → FreeScan → Option FreeScan
  | 0, _, scan => some scan
  | sectors + 1, startAddress, scan => do
      let buffer ← device.read startAddress DEFAULT_SECTOR_SIZE
      let scan := (fatEntries isFAT16 buffer).foldl (FreeScan.entry lastIndex) scan
      if scan.done then some scan
      else scanFAT device isFAT16 lastIndex sectors (uint32 (startAddress + 512 : Nat)) scan

def populateFreeCount (device : BlockStorageDevice) (disk : LogicDisk) : LogicDisk :=
  let failed := { disk with freeCount := 0xFFFFFFFF, nextFree := 0 }
  let rootAddress := uint32 (disk.baseAddress + disk.rootSectorStart * disk.bytesPerSector : Nat)
  match device.read rootAddress 4 with
  | none => failed
  | some buffer =>
      if (buffer 0).toNat = SLOT_EMPTY then
        if disk.isFAT16 then
          { disk with freeCount := disk.totalClusterCount, nextFree := CLUSTER_START }
        else
          { disk with
            freeCount := uint32 (disk.totalClusterCount - 1)
            nextFree := uint32 (disk.sectToClus disk.rootSectorStart + 1 : Nat) }
      else
        let lastIndex := uint32 (disk.totalClusterCount + CLUSTER_START - 1)
        let entriesPerSector := if disk.isFAT16 then 256 else 128
        match scanFAT device disk.isFAT16 lastIndex (lastIndex / entriesPerSector + 1)
            (uint32 (disk.baseAddress + disk.fatBaseSector₀ * disk.bytesPerSector : Nat))
            { c := 0, freeCount := 0, nextFree := 0, done := false } with
        | none => failed
        | some scan => { disk with freeCount := scan.freeCount, nextFree := scan.nextFree }

/-- The free count of `Initialize`: that of the FSInfo sector of a FAT32 volume, unless it is not
    one. -/
def countFree (device : BlockStorageDevice) (disk : LogicDisk) :
    Option (BlockStorageDevice × LogicDisk) :=
  if disk.isFAT16 then some (device, populateFreeCount device disk)
  else do
    let address := uint32 (disk.baseAddress + disk.sectorFSInfo * disk.bytesPerSector : Nat)
    let fsInfo ← device.read address 512
    if fsInfoIsValid fsInfo then
      let disk := { disk with freeCount := word32 fsInfo 488, nextFree := word32 fsInfo 492 }
      if disk.freeCount = 0xFFFFFFFF ∨ disk.totalClusterCount < disk.freeCount then
        let disk := populateFreeCount device disk
        let fsInfo := memcpy fsInfo 488 (bytes32 disk.freeCount)
        let fsInfo := memcpy fsInfo 492 (bytes32 disk.nextFree)
        (device.write address 512 fsInfo).map fun device => (device, disk)
      else some (device, disk)
    else none

/-- `Initialize` of a disk that has been found: it is mounted, and the free clusters are counted. -/
def initializeDisk (device : BlockStorageDevice) (disk : LogicDisk) :
    Option (BlockStorageDevice × LogicDisk) := do
  let disk ← mountDisk device disk
  let counted ← countFree device disk
  if counted.2.freeCount = 0xFFFFFFFF then none else some counted

/-! ### Formatting -/

def DskTableFAT16 : List (Nat × Nat) :=
  [(8400, 0), (32680, 2), (262144, 4), (524288, 8), (1048576, 16), (2097152, 32), (4194304, 64),
    (0xFFFFFFFF, 0)]

def DskTableFAT32 : List (Nat × Nat) :=
  [(66600, 0), (532480, 1), (16777216, 8), (33554432, 16), (67108864, 32), (0xFFFFFFFF, 64)]

def clusterSize (table : List (Nat × Nat)) (totSec : Nat) : Nat :=
  match table.find? fun row => totSec ≤ row.1 with
  | some row => row.2
  | none => 0

/-- `useFAT16` of `FormatHelper` -/
def chooseFAT16 (fat16SecPerClus fat32SecPerClus parameters : Nat) : Except FatFailure Bool :=
  if fat16SecPerClus = 0 ∧ fat32SecPerClus = 0 then .error .notSupported
  else if parameters &&& FORMAT_PARAMETER_FORCE_FAT16 ≠ 0 then
    if fat16SecPerClus = 0 then .error .notSupported else .ok true
  else if parameters &&& FORMAT_PARAMETER_FORCE_FAT32 ≠ 0 then
    if fat32SecPerClus = 0 then .error .notSupported else .ok false
  else .ok (0 < fat16SecPerClus ∧ fat16SecPerClus < 32)

/-- `fatSz` of `FormatHelper` -/
def fatSize (totSec rsvdSecCnt secPerClus : Nat) (useFAT16 : Bool) : Nat :=
  let rootDirSectors := if useFAT16 then 32 else 0
  let tmpVal1 := uint32 (totSec - (rsvdSecCnt + rootDirSectors : Nat))
  let tmpVal2 := if useFAT16 then 256 * secPerClus + 2 else (256 * secPerClus + 2) / 2
  uint32 (tmpVal1 + (tmpVal2 - 1)) / tmpVal2

/-- The fields that `FormatHelper` sets for both types -/
def commonFields (totSec secPerClus : Nat) (useFAT16 : Bool) : Sector :=
  let b : Sector := fun _ => 0
  let b := memcpy b 0 [0xEB, 0x3C, 0x90]
  let b := memcpy b 3 (ascii "MSWIN4.1")
  let b := memcpy b 11 (bytes16 DEFAULT_SECTOR_SIZE)
  let b := memcpy b 13 [UInt8.ofNat secPerClus]
  let b := if totSec < 0x10000 then memcpy b 19 (bytes16 totSec) else memcpy b 32 (bytes32 totSec)
  let b := memcpy b 14 (bytes16 (if useFAT16 then 1 else 32))
  let b := memcpy b 16 [2]
  let b := if useFAT16 then memcpy b 17 (bytes16 512) else b
  let b := memcpy b 21 [0xF8]
  let b := memcpy b 24 (bytes16 63)
  let b := memcpy b 26 (bytes16 32)
  memcpy b 28 (bytes32 0)

def fat16Fields (b : Sector) (fatSz : Nat) (label : List UInt8) (date time : Nat) : Sector :=
  let b := memcpy b 22 (bytes16 fatSz)
  let b := memcpy b 36 [0x80]
  let b := memcpy b 38 [0x29]
  let b := memcpy b 39 (bytes16 time)
  let b := memcpy b 41 (bytes16 date)
  let b := memcpy b 43 label
  memcpy b 54 (ascii "FAT16   ")

def fat32Fields (b : Sector) (fatSz : Nat) (label : List UInt8) (date time : Nat) : Sector :=
  let b := memcpy b 36 (bytes32 fatSz)
  let b := memcpy b 40 (bytes16 0)
  let b := memcpy b 42 (bytes16 0)
  let b := memcpy b 44 (bytes32 2)
  let b := memcpy b 48 (bytes16 1)
  let b := memcpy b 50 (bytes16 6)
  let b := memcpy b 64 [0x80]
  let b := memcpy b 66 [0x29]
  let b := memcpy b 67 (bytes16 time)
  let b := memcpy b 69 (bytes16 date)
  let b := memcpy b 71 label
  memcpy b 82 (ascii "FAT32   ")

/-- The boot record that `FormatHelper` builds; `none` is a label that is copied past the end of the
    buffer. -/
def bootRecord (totSec secPerClus : Nat) (useFAT16 : Bool) (fatSz : Nat)
    (volumeLabel : Option (List UInt8)) (date time : Nat) : Option Sector :=
  let label := volumeLabel.getD (ascii "MFDISK     ")
  let b := commonFields totSec secPerClus useFAT16
  if DEFAULT_SECTOR_SIZE < (if useFAT16 then 43 else 71) + label.length then none
  else
    let b := if useFAT16 then fat16Fields b fatSz label date time
      else fat32Fields b fatSz label date time
    some (memcpy b 510 (bytes16 0xAA55))

def firstFATSector (useFAT16 : Bool) : Sector :=
  if useFAT16 then memcpy (fun _ => 0) 0 [0xF8, 0xFF, 0xFF, 0xFF]
  else
    let b : Sector := memcpy (fun _ => 0) 0 (bytes32 0x0FFFFFF8)
    let b := memcpy b 4 (bytes32 0x0FFFFFFF)
    memcpy b 8 (bytes32 CLUST_FAT32_EOFE)

/-- What `FormatHelper` writes, from the erasing of the blocks on -/
def writeVolume (eraseBlocks : (Nat → UInt8) → Nat → UInt8) (device : BlockStorageDevice)
    (disk : LogicDisk) (dbr : Sector) (fatSz : Nat) : Option BlockStorageDevice := do
  let address := fun sector => uint32 (disk.baseAddress + sector * DEFAULT_SECTOR_SIZE : Nat)
  let device := { device with bytes := eraseBlocks device.bytes }
  let rootDirSectors := if disk.isFAT16 then 32 else 0
  let sectorsNeeded := rsvdSecCnt dbr + numFATs dbr * fatSz + rootDirSectors
  let sectorsNeeded := if disk.isFAT16 then sectorsNeeded else sectorsNeeded + secPerClus dbr
  let device ← device.memset disk.baseAddress 0
    (uint32 (uint32 sectorsNeeded * DEFAULT_SECTOR_SIZE : Nat))
  let device ← device.write disk.baseAddress DEFAULT_SECTOR_SIZE dbr
  let device ←
    if disk.isFAT16 then some device
    else do
      let device ← device.write (address 6) DEFAULT_SECTOR_SIZE dbr
      let fsInfo := fsInfoInit (uint32 (disk.totalClusterCount - 1)) 3
      let device ← device.write (address 1) DEFAULT_SECTOR_SIZE fsInfo
      device.write (address 7) DEFAULT_SECTOR_SIZE fsInfo
  let device ← device.write (address disk.fatBaseSector₀) DEFAULT_SECTOR_SIZE
    (firstFATSector disk.isFAT16)
  device.write (address disk.fatBaseSector₁) DEFAULT_SECTOR_SIZE (firstFATSector disk.isFAT16)

/-- `FormatHelper`; `none` is a label that does not fit the buffer. -/
def formatHelper (eraseBlocks : (Nat → UInt8) → Nat → UInt8) (device : BlockStorageDevice)
    (disk : LogicDisk) (volumeLabel : Option (List UInt8)) (parameters date time : Nat) :
    Option (Except FatFailure (BlockStorageDevice × LogicDisk)) :=
  let totSec := uint32 (disk.diskSize / DEFAULT_SECTOR_SIZE : Nat)
  let fat16SecPerClus := clusterSize DskTableFAT16 totSec
  let fat32SecPerClus := clusterSize DskTableFAT32 totSec
  match chooseFAT16 fat16SecPerClus fat32SecPerClus parameters with
  | .error failure => some (.error failure)
  | .ok useFAT16 =>
      let perClus := if useFAT16 then fat16SecPerClus else fat32SecPerClus
      let fatSz := fatSize totSec (rsvdSecCnt (commonFields totSec perClus useFAT16)) perClus useFAT16
      match bootRecord totSec perClus useFAT16 fatSz volumeLabel date time with
      | none => none
      | some dbr =>
          let disk := disk.initMount dbr useFAT16
          match writeVolume eraseBlocks device disk dbr fatSz with
          | none => some (.error .fileIOError)
          | some device => some (.ok (device, disk))

end TinyClr.FatLogicDisk
