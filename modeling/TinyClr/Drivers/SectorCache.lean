import TinyClr.Library.MachineInt
import TinyClr.Library.Overlay

/-!
# The sector cache of the FAT file system

`FAT_SectorCache` (`Drivers/FS/FAT/FAT_SectorCache.cpp`): eight lines of 2048 bytes between the file
system and the block storage device, which is a map from addresses to bytes.

The parts of `m_flags` are fields.  `FAT_FS__VALIDATE_READONLY_CACHELINE` is not defined.  The
device reads and writes what it is asked to; a call that dereferences NULL is `none`.
-/

namespace TinyClr.FatSectorCache

open TinyClr.Library

def SECTORCACHE_MAXSIZE : Nat := 8

def SECTORCACHE_LINESIZE : Nat := 2048

/-! ### State -/

/-- `FAT_CacheLine`; no buffer is NULL. -/
structure CacheLine where
  buffer : Option (Nat → UInt8)
  first : Nat
  bsByteAddress : Nat
  dirty : Bool
  readWrite : Bool
  lruCounter : Nat

def CacheLine.unused : CacheLine where
  buffer := none
  first := 0
  bsByteAddress := 0
  dirty := false
  readWrite := false
  lruCounter := 0

def CacheLine.setDirty (line : CacheLine) (dirty : Bool) : CacheLine :=
  if dirty then { line with dirty := true, readWrite := true } else { line with dirty := false }

def CacheLine.setReadWrite (line : CacheLine) (readWrite : Bool) : CacheLine :=
  { line with readWrite }

def CacheLine.setLRUCounter (line : CacheLine) (counter : Nat) : CacheLine :=
  { line with lruCounter := counter &&& 0x3FFFFFFF }

/-- The device, with the addresses from which a line has been written -/
structure BlockStorageDevice where
  bytes : Nat → UInt8
  writes : List Nat

def BlockStorageDevice.read (device : BlockStorageDevice) (address : Nat) : Nat → UInt8 :=
  fun i => device.bytes (address + i)

def BlockStorageDevice.write (device : BlockStorageDevice) (address : Nat) (buffer : Nat → UInt8) :
    BlockStorageDevice where
  bytes := overlay device.bytes address SECTORCACHE_LINESIZE buffer
  writes := address :: device.writes

abbrev LineIndex : Type := Fin SECTORCACHE_MAXSIZE

structure SectorCache where
  cacheLines : LineIndex → CacheLine
  lruCounter : Nat
  baseByteAddress : Nat
  sectorsPerLine : Nat
  bytesPerSector : Nat
  sectorCount : Nat
  device : BlockStorageDevice

def initializeCache (device : BlockStorageDevice) (bytesPerSector baseAddress sectorCount : Nat) :
    SectorCache where
  cacheLines := fun _ => CacheLine.unused
  lruCounter := 1
  baseByteAddress := baseAddress
  sectorsPerLine := SECTORCACHE_LINESIZE / bytesPerSector
  bytesPerSector := bytesPerSector
  sectorCount := sectorCount
  device := device

def SectorCache.setLine (c : SectorCache) (i : LineIndex) (line : CacheLine) : SectorCache :=
  { c with cacheLines := Function.update c.cacheLines i line }

/-! ### Lines -/

def getCacheLine (c : SectorCache) (sectorIndex : Nat) : Option LineIndex :=
  (List.finRange SECTORCACHE_MAXSIZE).find? fun i =>
    (c.cacheLines i).buffer.isSome ∧ (c.cacheLines i).first ≤ sectorIndex ∧
      sectorIndex < uint32 ((c.cacheLines i).first + c.sectorsPerLine)

def flushLine (c : SectorCache) (i : LineIndex) (fClearDirtyBit : Bool) : SectorCache :=
  let line := c.cacheLines i
  match line.buffer with
  | none => c
  | some buffer =>
      if line.dirty then
        let c := { c with device := c.device.write line.bsByteAddress buffer }
        if fClearDirtyBit then c.setLine i (line.setDirty false) else c
      else c

/-- The loop of `GetUnusedCacheLine` with `minLRUCounter` and `topCandidate`; a line without buffer
    ends it. -/
def findUnused (cacheLines : LineIndex → CacheLine) (useLRU : Bool) :
    List LineIndex → Nat → Option LineIndex → LineIndex ⊕ Option LineIndex
  | [], _, topCandidate => .inr topCandidate
  | i :: rest, minLRUCounter, topCandidate =>
      if (cacheLines i).buffer.isNone then .inl i
      else
        let counter := (cacheLines i).lruCounter
        if (useLRU ∧ counter < minLRUCounter) ∨ (¬ useLRU ∧ counter > minLRUCounter) then
          findUnused cacheLines useLRU rest counter (some i)
        else findUnused cacheLines useLRU rest minLRUCounter topCandidate

def getUnusedCacheLine (c : SectorCache) (useLRU : Bool) : Option (LineIndex × SectorCache) :=
  match findUnused c.cacheLines useLRU (List.finRange SECTORCACHE_MAXSIZE)
      (if useLRU then 0x7FFFFFFF else 0) none with
  | .inl i => some (i, c)
  | .inr none => none
  | .inr (some i) => some (i, flushLine c i true)

/-! ### Sectors -/

/-- `GetSector` where the sector is not in a line, given whether `private_malloc` succeeds: the line
    in which it is then -/
def loadLine (c : SectorCache) (sectorIndex : Nat) (useLRU allocated : Bool) :
    Option (Option LineIndex × SectorCache) := do
  let (i, c) ← getUnusedCacheLine c useLRU
  if (c.cacheLines i).buffer.isNone ∧ ¬ allocated then some (none, c)
  else
    let first := sectorIndex - sectorIndex % c.sectorsPerLine
    let bsByteAddress := uint32 (c.baseByteAddress + first * c.bytesPerSector)
    let lruCounter := uint32 (c.lruCounter + 1)
    let line : CacheLine :=
      { buffer := some (c.device.read bsByteAddress), first, bsByteAddress, dirty := false,
        readWrite := false, lruCounter := 0 }
    some (some i, { c with lruCounter }.setLine i (line.setLRUCounter lruCounter))

/-- What `GetSector` does with the line: its flags and its place in the order of use -/
def touchLine (c : SectorCache) (i : LineIndex) (forWrite : Bool) : SectorCache :=
  let line := (c.cacheLines i).setReadWrite forWrite
  let line := if forWrite then line.setDirty true else line
  if line.lruCounter ≠ c.lruCounter then
    let lruCounter := uint32 (c.lruCounter + 1)
    { c with lruCounter }.setLine i (line.setLRUCounter lruCounter)
  else c.setLine i line

/-- `GetSector`: where it points to, a line and an offset, or NULL -/
def getSector (c : SectorCache) (sectorIndex : Nat) (useLRU forWrite allocated : Bool) :
    Option (Option (LineIndex × Nat) × SectorCache) :=
  if sectorIndex > c.sectorCount then some (none, c)
  else do
    let (found, c) ←
      (match getCacheLine c sectorIndex with
      | some i => some (some i, c)
      | none => loadLine c sectorIndex useLRU allocated)
    match found with
    | none => some (none, c)
    | some i =>
        let c := touchLine c i forWrite
        some (some (i, (sectorIndex - (c.cacheLines i).first) * c.bytesPerSector), c)

def fillBuffer (c : SectorCache) (i : LineIndex) (offset size : Nat) (value : UInt8) :
    SectorCache :=
  let line := c.cacheLines i
  c.setLine i { line with
    buffer := line.buffer.map fun buffer => overlay buffer offset size fun _ => value }

def markSectorDirty (c : SectorCache) (sectorIndex : Nat) : SectorCache :=
  match getCacheLine c sectorIndex with
  | some i => c.setLine i ((c.cacheLines i).setDirty true)
  | none => c

def flushSector (c : SectorCache) (sectorIndex : Nat) : SectorCache :=
  match getCacheLine c sectorIndex with
  | some i => flushLine c i true
  | none => c

def flushAll (c : SectorCache) : SectorCache :=
  (List.finRange SECTORCACHE_MAXSIZE).foldl (fun c i => flushLine c i false) c

def eraseSector (c : SectorCache) (sectorIndex : Nat) (allocated : Bool) :
    Option (Option (LineIndex × Nat) × SectorCache) := do
  let (sector, c) ← getSector c sectorIndex true true allocated
  match sector with
  | none => some (none, c)
  | some (i, offset) => some (some (i, offset), fillBuffer c i offset c.bytesPerSector 0)

def uninitializeCache (c : SectorCache) : SectorCache :=
  (List.finRange SECTORCACHE_MAXSIZE).foldl
    (fun c i =>
      if (c.cacheLines i).buffer.isSome then (flushLine c i true).setLine i CacheLine.unused
      else c) c

end TinyClr.FatSectorCache
