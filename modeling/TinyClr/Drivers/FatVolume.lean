import Mathlib.Logic.Function.Basic
import TinyClr.Drivers.LogicDisk

/-!
# The file allocation table of a mounted volume

`ReadFAT`, `WriteFAT`, `GetNextFreeClus` and `GetNextSect` of `FAT_LogicDisk`, over the sectors as
the sector cache hands them out: the device does not fail, so a sector that is asked for is there,
and what is written to it is what is read from it next.
-/

namespace TinyClr.FatVolume

open TinyClr.Library TinyClr.FatLogicDisk

def CLUST_FAT16_BAD : Nat := 0xfff7

def CLUST_FAT16_EOFS : Nat := 0xfff8

def CLUST_FAT16_EOFE : Nat := 0xffff

def CLUST_FAT32_BAD : Nat := 0x0ffffff7

def CLUST_FAT32_EOFS : Nat := 0x0ffffff8

def CLUST_EOF : Nat := 0x0fffffff

inductive ClusType where
  | data
  | eos
  | bad
  | error
deriving DecidableEq, Repr

structure Volume where
  disk : LogicDisk
  sectors : Nat → Sector

def Volume.setSector (v : Volume) (sectIndex : Nat) (sector : Sector) : Volume :=
  { v with sectors := Function.update v.sectors sectIndex sector }

def getClusType (isFAT16 : Bool) (dwData : Nat) : ClusType :=
  if dwData = CLUST_ERROR then .error
  else if isFAT16 then
    if CLUST_FAT16_EOFS ≤ dwData then .eos
    else if dwData = CLUST_FAT16_BAD then .bad else .data
  else
    if CLUST_FAT32_EOFS ≤ dwData then .eos
    else if dwData = CLUST_FAT32_BAD then .bad else .data

/-! ### Entries -/

/-- The entry at an offset of a sector of the FAT, as it lies there -/
def getEntry (isFAT16 : Bool) (fat : Sector) (dataOffset : Nat) : Nat :=
  if isFAT16 then word16 fat (2 * dataOffset) else word32 fat (4 * dataOffset)

def setEntry (isFAT16 : Bool) (fat : Sector) (dataOffset value : Nat) : Sector :=
  if isFAT16 then memcpy fat (2 * dataOffset) (bytes16 value)
  else memcpy fat (4 * dataOffset) (bytes32 value)

def Volume.entry (v : Volume) (baseSector clusIndex : Nat) : Nat :=
  getEntry v.disk.isFAT16
    (v.sectors (uint32 (baseSector + clusIndex / v.disk.entriesPerSector : Nat)))
    (clusIndex % v.disk.entriesPerSector)

def maxCluster (disk : LogicDisk) : Nat := uint32 (disk.totalClusterCount + CLUSTER_START)

def Volume.readFAT (v : Volume) (clusIndex : Nat) : Nat :=
  if maxCluster v.disk ≤ clusIndex then CLUST_ERROR
  else if v.disk.isFAT16 then v.entry v.disk.fatBaseSector₀ clusIndex
  else v.entry v.disk.fatBaseSector₀ clusIndex &&& FAT32_MASK

/-- `oldValue` of `WriteFAT`, and what is put in its place -/
def replaceEntry (isFAT16 : Bool) (oldValue value : Nat) : Nat × Nat :=
  if isFAT16 then (oldValue, value)
  else (oldValue &&& FAT32_MASK, (value &&& FAT32_MASK) ||| (oldValue &&& 0xf0000000))

/-- One turn of the loop of `WriteFAT` -/
def Volume.writeCopy (v : Volume) (baseSector clusIndex value : Nat) : Volume × Nat :=
  let sectIndex := uint32 (baseSector + clusIndex / v.disk.entriesPerSector : Nat)
  let replaced := replaceEntry v.disk.isFAT16 (v.entry baseSector clusIndex) value
  (v.setSector sectIndex (setEntry v.disk.isFAT16 (v.sectors sectIndex)
    (clusIndex % v.disk.entriesPerSector) replaced.2), replaced.1)

/-- The free count and the cluster to search from, in `WriteFAT` -/
def updateCounts (disk : LogicDisk) (clusIndex oldValue value : Nat) : LogicDisk :=
  let disk :=
    if oldValue = CLUST_NONE then { disk with freeCount := uint32 (disk.freeCount - 1) } else disk
  if value = CLUST_NONE then
    { disk with
      nextFree := if clusIndex < disk.nextFree then clusIndex else disk.nextFree
      freeCount := uint32 (disk.freeCount + 1) }
  else disk

def Volume.setFSInfo (v : Volume) (offset value : Nat) : Volume :=
  if v.disk.isFAT16 then v
  else
    v.setSector v.disk.sectorFSInfo
      (memcpy (v.sectors v.disk.sectorFSInfo) offset (bytes32 value))

/-- `CLUST_EOF` as the type of the volume has it -/
def endMark (isFAT16 : Bool) (value : Nat) : Nat :=
  if value = CLUST_EOF then if isFAT16 then CLUST_FAT16_EOFE else CLUST_FAT32_EOFE else value

def Volume.writeFAT (v : Volume) (clusIndex value : Nat) : Volume × Nat :=
  if maxCluster v.disk ≤ clusIndex then (v, CLUST_ERROR)
  else
    let value := endMark v.disk.isFAT16 value
    let (v, _) := v.writeCopy v.disk.fatBaseSector₀ clusIndex value
    let (v, oldValue) := v.writeCopy v.disk.fatBaseSector₁ clusIndex value
    let v := { v with disk := updateCounts v.disk clusIndex oldValue value }
    (v.setFSInfo 488 v.disk.freeCount, oldValue)

/-! ### Free clusters -/

/-- `GetNextFreeClusHelper`: the sector and the offset that it steps along with the cluster are
    those of the cluster's entry. -/
def Volume.getNextFreeClusHelper (v : Volume) (fromClus toClus : Nat) : Option Nat :=
  (List.range' fromClus (toClus - fromClus)).find? fun clusIndex =>
    v.entry v.disk.fatBaseSector₀ clusIndex = CLUST_NONE

def Volume.findFreeClus (v : Volume) : Option Nat :=
  let start :=
    if maxCluster v.disk ≤ v.disk.nextFree then CLUSTER_START else v.disk.nextFree
  match v.getNextFreeClusHelper start (maxCluster v.disk) with
  | some clusIndex => some clusIndex
  | none => if start = CLUSTER_START then none else v.getNextFreeClusHelper CLUSTER_START start

/-- `GetNextFreeClus( FALSE )`; `none` is `CLUST_ERROR`. -/
def Volume.getNextFreeClus (v : Volume) : Volume × Option Nat :=
  match v.findFreeClus with
  | none => (v, none)
  | some clusIndex =>
      let v := { v with disk := { v.disk with nextFree := uint32 (clusIndex + 1 : Nat) } }
      (v.setFSInfo 492 v.disk.nextFree, some clusIndex)

/-! ### The next sector -/

/-- `GetNextSect`, with the flag `GetNextSect__CREATE` or without: the cluster and the sector, or
    `none` for `CLR_E_FILE_IO` -/
def Volume.getNextSect (v : Volume) (create : Bool) (clusIndex sectIndex : Nat) :
    Volume × Option (Nat × Nat) :=
  let sect := uint32 (sectIndex + 1 : Nat)
  if clusIndex < CLUSTER_START then
    if sect < v.disk.firstDataSector then (v, some (v.disk.sectToClus sect, sect)) else (v, none)
  else if v.disk.sectToClus sect = clusIndex then (v, some (clusIndex, sect))
  else
    let clus := v.readFAT clusIndex
    if getClusType v.disk.isFAT16 clus ≠ .data then
      if create then
        match v.getNextFreeClus with
        | (v, none) => (v, none)
        | (v, some clus) =>
            let v := (v.writeFAT clusIndex clus).1
            let v := (v.writeFAT clus CLUST_EOF).1
            if clus < CLUSTER_START then (v, none)
            else (v, some (clus, v.disk.clusToSect clus))
      else (v, none)
    else if clus < CLUSTER_START then (v, none)
    else (v, some (clus, v.disk.clusToSect clus))

end TinyClr.FatVolume
