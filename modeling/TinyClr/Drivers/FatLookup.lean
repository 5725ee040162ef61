import TinyClr.Drivers.FatEntry
import TinyClr.Drivers.FatVolume

/-!
# Looking up a path

`SearchCurDir`, `GetFile`, `GetNextFreeEntry`, `FindOpen`, `GetFileInfo` and `GetAttributes` of
`FAT_LogicDisk` (`DeviceCode/Drivers/FS/FAT/FAT_LogicDisk.cpp`), `Create` and `CreateNewDirectory` of
`FAT_FILE` (`FAT_File.cpp`), and `FindOpen` and `FindNext` of `FAT_FINDFILES` (`FAT_FS.cpp`).

What the enumerator hands out of a directory is taken as one list.  The first argument of a function
bounds the sectors of a directory: `none` is a directory that does not end within it.
-/

namespace TinyClr.FatVolume

open TinyClr.Library TinyClr.FatLogicDisk
open TinyClr.FatDirectory (Slot Directory FatFile FatTime EntryEnumerator)

/-! The flags `GetFile__*` -/

def GetFile.NONE : Nat := 0

def GetFile.CREATE_FILE : Nat := 0x01

def GetFile.CREATE_DIRECTORY : Nat := 0x02

def GetFile.CREATE_PATH : Nat := 0x04

def GetFile.FAIL_IF_EXISTS : Nat := 0x08

def GetFile.GET_DIRECTORY_ONLY : Nat := 0x16

def FS_MAX_PATH_LENGTH : Nat := 260 - 2

inductive Failure where
  | pathTooLong
  | directoryNotFound
  | tooManyOpenHandles
deriving DecidableEq, Repr

/-! ### Slots -/

/-- Where a slot is: `m_sectIndex` and `m_dataIndex` -/
structure Place where
  sectIndex : Nat
  dataIndex : Nat
deriving DecidableEq, Repr

def Volume.slot (v : Volume) (p : Place) : Slot :=
  fun i => v.sectors p.sectIndex (p.dataIndex + i)

def Volume.setSlot (v : Volume) (p : Place) (slot : Slot) : Volume :=
  v.setSector p.sectIndex (memcpy (v.sectors p.sectIndex) p.dataIndex (List.ofFn slot))

/-- The places of a sector from `dataIndex` on -/
def placesOf (bytesPerSector sectIndex dataIndex : Nat) : List Place :=
  (List.range ((bytesPerSector - dataIndex + 31) / 32)).map fun k => ⟨sectIndex, dataIndex + 32 * k⟩

def Volume.sectorsAfter (v : Volume) : Nat → Nat → Nat → Option (List Nat)
  | 0, _, _ => none
  | fuel + 1, clusIndex, sectIndex =>
      match (v.getNextSect false clusIndex sectIndex).2 with
      | none => some []
      | some (clusIndex, sectIndex) =>
          (v.sectorsAfter fuel clusIndex sectIndex).map (sectIndex :: ·)

/-- What an enumerator without `Flag_Extend` hands out -/
def Volume.places (v : Volume) (fuel : Nat) (start : Place) : Option (List Place) :=
  (v.sectorsAfter fuel (v.disk.sectToClus start.sectIndex) start.sectIndex).map fun sectors =>
    placesOf v.disk.bytesPerSector start.sectIndex start.dataIndex ++
      sectors.flatMap fun sectIndex => placesOf v.disk.bytesPerSector sectIndex 0

def Volume.dirStart (v : Volume) (clusIndex : Nat) : Place := ⟨v.disk.clusToSect clusIndex, 0⟩

/-! ### `SearchCurDir` -/

def Volume.searchCurDir (v : Volume) (fuel clusIndex : Nat) (fileName : List UInt16)
    (fileNameLen : Nat) : Option (Option Place) := do
  let places ← v.places fuel (v.dirStart clusIndex)
  let dir := places.map v.slot
  match (FatDirectory.files dir).find? fun file =>
      FatDirectory.isFileName dir file fileName fileNameLen &&
        (dir[file.m_dir]?).any (·.DIR_Attr ≠ FatDirectory.ATTR_VOLUME_ID) with
  | none => some none
  | some file => some places[file.m_dir]?

/-! ### New clusters and entries -/

def Volume.eraseCluster (v : Volume) (clusIndex : Nat) : Volume :=
  (List.range v.disk.sectorsPerCluster).foldl
    (fun v i => v.setSector (uint32 (v.disk.clusToSect clusIndex + i : Nat)) fun _ => 0) v

def Volume.getNextFreeClusCleared (v : Volume) : Volume × Option Nat :=
  match v.getNextFreeClus with
  | (v, none) => (v, none)
  | (v, some clusIndex) => (v.eraseCluster clusIndex, some clusIndex)

/-- `GetNextSect( GetNextSect__CREATE | GetNextSect__CLEAR )` -/
def Volume.getNextSectCleared (v : Volume) (clusIndex sectIndex : Nat) :
    Volume × Option (Nat × Nat) :=
  let sect := uint32 (sectIndex + 1 : Nat)
  if clusIndex < CLUSTER_START then
    if sect < v.disk.firstDataSector then (v, some (v.disk.sectToClus sect, sect)) else (v, none)
  else if v.disk.sectToClus sect = clusIndex then (v, some (clusIndex, sect))
  else
    let clus := v.readFAT clusIndex
    if getClusType v.disk.isFAT16 clus ≠ .data then
      match v.getNextFreeClusCleared with
      | (v, none) => (v, none)
      | (v, some clus) =>
          let v := (v.writeFAT clusIndex clus).1
          let v := (v.writeFAT clus CLUST_EOF).1
          if clus < CLUSTER_START then (v, none)
          else (v, some (clus, v.disk.clusToSect clus))
    else if clus < CLUSTER_START then (v, none)
    else (v, some (clus, v.disk.clusToSect clus))

def isFree (slot : Slot) : Bool :=
  slot.LDIR_Ord = FatDirectory.SLOT_DELETED || slot.LDIR_Ord = FatDirectory.SLOT_EMPTY

/-- The loop of `GetNextFreeEntry` over the slots of a sector: where the run of free slots begins
    that is long enough, or how long the last one is and where it begins -/
def Volume.scanSlots (v : Volume) (count : Nat) : List Place → Nat → Place → Place ⊕ Nat × Place
  | [], num, start => .inr (num, start)
  | p :: places, num, start =>
      if isFree (v.slot p) then
        let start := if num = 0 then p else start
        if num + 1 ≥ count then .inl start else v.scanSlots count places (num + 1) start
      else v.scanSlots count places 0 start

/-- The loop of `GetNextFreeEntry`, from a sector on -/
def Volume.scanSectors (count : Nat) : Nat → Volume → Nat → Nat → Nat → Place →
    Option (Volume × Option Place)
  | 0, _, _, _, _, _ => none
  | fuel + 1, v, clusIndex, sectIndex, num, start =>
      match v.scanSlots count (placesOf v.disk.bytesPerSector sectIndex 0) num start with
      | .inl start => some (v, some start)
      | .inr (num, start) =>
          match v.getNextSectCleared clusIndex sectIndex with
          | (v, none) => some (v, none)
          | (v, some (clusIndex, sectIndex)) =>
              scanSectors count fuel v clusIndex sectIndex num start

/-- `GetNextFreeEntry`, from the first slot of a directory on; `count` is a `BYTE`. -/
def Volume.getNextFreeEntry (v : Volume) (fuel clusIndex count : Nat) :
    Option (Volume × Option Place) :=
  let sectIndex := v.disk.clusToSect clusIndex
  Volume.scanSectors (count % 2 ^ 8) fuel v (v.disk.sectToClus sectIndex) sectIndex 0 ⟨sectIndex, 0⟩

def dotName (second : UInt8) : List UInt8 := 0x2E :: second :: List.replicate 9 0x20

def Volume.createNewDirectory (v : Volume) (parentClusIndex : Nat) : Volume × Option Nat :=
  match v.getNextFreeClusCleared with
  | (v, none) => (v, none)
  | (v, some clusIndex) =>
      let v := (v.writeFAT clusIndex CLUST_EOF).1
      let sectIndex := v.disk.clusToSect clusIndex
      let v := v.setSlot ⟨sectIndex, 0⟩
        (FatDirectory.shortSlot (dotName 0x20) FatDirectory.ATTR_DIRECTORY clusIndex)
      let v := v.setSlot ⟨sectIndex, 32⟩
        (FatDirectory.shortSlot (dotName 0x2E) FatDirectory.ATTR_DIRECTORY parentClusIndex)
      (v, some clusIndex)

/-! ### `Create` -/

/-- The short entries that `LongToShortName` goes through -/
def shortEntries (dir : Directory) : List ShortName.Entry :=
  (FatDirectory.files dir).filterMap fun file =>
    (dir[file.m_dir]?).map fun slot => ⟨slot.DIR_Name, slot.DIR_Attr, rfl⟩

/-- How many slots of a long name `Create` needs -/
def longCount (first : UInt16) (fileName : List UInt16) : Nat :=
  if FatDirectory.isFileLongName first fileName then (fileName.length + 12) / 13 else 0

/-- `shortName` of `Create`: `LongToShortName`, or `SetName` -/
def Volume.shortName (v : Volume) (fuel clusIndex : Nat) (first : UInt16)
    (fileName : List UInt16) : Option (List UInt8) :=
  if FatDirectory.isFileLongName first fileName then do
    let places ← v.places fuel (v.dirStart clusIndex)
    ShortName.longToShortName (shortEntries (places.map v.slot)) fileName
  else some (FatDirectory.setName fileName)

/-- The slot number `i` of a long name of `count` slots -/
def longEntry (fileName : List UInt16) (count i : Nat) (chksum : UInt8) : Slot :=
  if i = count then
    FatDirectory.longSlot (.ofNat (i ||| FatDirectory.LAST_LONG_ENTRY.toNat))
      (fileName.drop (13 * (i - 1))) ((fileName.length - 1) % 13 + 1) chksum
  else FatDirectory.longSlot (.ofNat i) (fileName.drop (13 * (i - 1))) 13 chksum

/-- The slots that `Create` writes: those of the long name, the last one first, and the short one -/
def newEntries (fileName : List UInt16) (count : Nat) (shortName : List UInt8)
    (attributes : UInt8) (fstClus : Nat) (now : FatTime) : List Slot :=
  ((List.range count).map fun k =>
      longEntry fileName count (count - k) (FatDirectory.getShortNameChksum shortName))
    ++ [(FatDirectory.shortSlot shortName attributes fstClus).stamp now]

/-- `entryEnum.GetNext( TRUE )` for each of the slots: the place of the last one, or `none` when
    the directory ends before -/
def Volume.writeEntries : Volume → List Place → List Slot → Volume × Option Place
  | v, _, [] => (v, none)
  | v, [], _ :: _ => (v, none)
  | v, p :: _, [slot] => (v.setSlot p slot, some p)
  | v, p :: places, slot :: slots => writeEntries (v.setSlot p slot) places slots

/-- `Create`, for the first `fileNameLen` characters from a pointer on: the place of the new short
    entry, or `none` when it fails -/
def Volume.create (v : Volume) (fuel : Nat) (now : FatTime) (clusIndex : Nat)
    (fileName : List UInt16) (fileNameLen : Nat) (attributes : UInt8) :
    Option (Volume × Option Place) :=
  let first := fileName.headD 0
  let fileName := fileName.take fileNameLen
  if FatDirectory.isFileNameValid first fileName = false then some (v, none)
  else do
    let shortName ← v.shortName fuel clusIndex first fileName
    let count := longCount first fileName
    match ← v.getNextFreeEntry fuel clusIndex (count + 1) with
    | (v, none) => some (v, none)
    | (v, some start) =>
        let (v, fstClus) :=
          if attributes &&& FatDirectory.ATTR_DIRECTORY = FatDirectory.ATTR_DIRECTORY then
            v.createNewDirectory clusIndex
          else (v, some 0)
        match fstClus with
        | none => some (v, none)
        | some fstClus => do
            let places ← v.places fuel start
            some (v.writeEntries places
              (newEntries fileName count shortName attributes fstClus now))

/-! ### `GetFile` -/

def hasFlag (flags flag : Nat) : Bool := flags &&& flag ≠ 0

/-- The attributes of what `GetFile` creates in place of a segment that is missing, if it does -/
def createdAttributes (flags pathLen : Nat) : Option UInt8 :=
  if (pathLen > 0 ∧ hasFlag flags GetFile.CREATE_PATH) ∨
      (pathLen = 0 ∧ hasFlag flags GetFile.CREATE_DIRECTORY) then
    some FatDirectory.ATTR_DIRECTORY
  else if pathLen = 0 ∧ hasFlag flags GetFile.CREATE_FILE then some 0x20
  else none

/-- What `GetFile` does to the dates of an entry that it comes through -/
def touch (flags : Nat) (now : FatTime) (slot : Slot) : Slot :=
  if hasFlag flags (GetFile.CREATE_FILE ||| GetFile.CREATE_DIRECTORY ||| GetFile.CREATE_PATH) then
    slot.stamp now
  else if hasFlag flags GetFile.GET_DIRECTORY_ONLY then slot.setLstAccDate now.date
  else slot

/-- Finding a segment or creating it: the place of its entry, or `none` for `NULL` -/
def Volume.findOrCreate (v : Volume) (fuel : Nat) (now : FatTime) (clusIndex : Nat)
    (path : List UInt16) (fileLen pathLen flags : Nat) : Option (Volume × Option Place) := do
  match ← v.searchCurDir fuel clusIndex path fileLen with
  | none =>
      match createdAttributes flags pathLen with
      | none => some (v, none)
      | some attributes => v.create fuel now clusIndex path fileLen attributes
  | some p =>
      if pathLen = 0 ∧ hasFlag flags GetFile.FAIL_IF_EXISTS then some (v, none)
      else some (v, some p)

/-- The loop of `GetFile` over the segments of a path.  The second argument bounds them. -/
def Volume.walk (fuel : Nat) (now : FatTime) (flags : Nat) : Nat → Volume → Nat → Option Place →
    List UInt16 → Option (Volume × Option Place)
  | _, v, _, dirEntry, [] => some (v, dirEntry)
  | 0, _, _, _, _ :: _ => none
  | n + 1, v, clusIndex, _, _ :: path => do
      let fileLen := (path.takeWhile (· ≠ FatDirectory.backslash)).length
      let rest := path.dropWhile (· ≠ FatDirectory.backslash)
      match ← v.findOrCreate fuel now clusIndex path fileLen rest.length flags with
      | (v, none) => some (v, none)
      | (v, some p) =>
          let v := if flags ≠ 0 then v.setSlot p (touch flags now (v.slot p)) else v
          if (rest.length > 0 ∨ hasFlag flags GetFile.GET_DIRECTORY_ONLY) ∧
              (v.slot p).DIR_Attr &&& FatDirectory.ATTR_DIRECTORY ≠ FatDirectory.ATTR_DIRECTORY then
            some (v, none)
          else walk fuel now flags n v (v.slot p).getFstClus (some p) rest

def isRoot (path : List UInt16) : Bool := path == [FatDirectory.backslash]

def Volume.getFile (v : Volume) (fuel : Nat) (now : FatTime) (path : List UInt16) (flags : Nat) :
    Option (Volume × Option Place) :=
  if isRoot path then some (v, none)
  else Volume.walk fuel now flags path.length v (v.disk.sectToClus v.disk.rootSectorStart) none path

/-! ### Queries -/

/-- What the queries report of an entry, the times before `FATTimeToTicks` -/
structure FileInfo where
  attributes : UInt8
  creationTime : FatTime
  lastAccessDate : UInt16
  lastWriteTime : FatTime
  size : Nat
  fileName : List UInt16
deriving DecidableEq, Repr

def infoOf (slot : Slot) (fileName : List UInt16) : FileInfo where
  attributes := slot.DIR_Attr
  creationTime := slot.creationTime
  lastAccessDate := slot.lstAccDate
  lastWriteTime := slot.writeTime
  size := slot.fileSize
  fileName

/-- What `GetFileInfo` reports of the root -/
def rootInfo : FileInfo where
  attributes := FatDirectory.ATTR_DIRECTORY
  creationTime := ⟨0, 0, 0⟩
  lastAccessDate := 0
  lastWriteTime := ⟨0, 0, 0⟩
  size := 0
  fileName := []

/-- `GetFileInfo`: `none` for a file that is not found -/
def Volume.getFileInfo (v : Volume) (fuel : Nat) (now : FatTime) (path : List UInt16) :
    Option (Volume × Except Failure (Option FileInfo)) :=
  if path.length ≥ FS_MAX_PATH_LENGTH then some (v, .error .pathTooLong)
  else if isRoot path then some (v, .ok (some rootInfo))
  else do
    match ← v.getFile fuel now path GetFile.NONE with
    | (v, none) => some (v, .ok none)
    | (v, some p) => some (v, .ok (some (infoOf (v.slot p) [])))

def Volume.getAttributes (v : Volume) (fuel : Nat) (now : FatTime) (path : List UInt16) :
    Option (Volume × Except Failure Nat) :=
  if path.length ≥ FS_MAX_PATH_LENGTH then some (v, .error .pathTooLong)
  else if isRoot path then some (v, .ok FatDirectory.ATTR_DIRECTORY.toNat)
  else do
    match ← v.getFile fuel now path GetFile.NONE with
    | (v, none) => some (v, .ok 0xFFFFFFFF)
    | (v, some p) => some (v, .ok (v.slot p).DIR_Attr.toNat)

/-- `FAT_FINDFILES`: where its directory begins, and how far it has come -/
structure FindFiles where
  start : Place
  entryEnum : EntryEnumerator

/-- `FindOpen`; `AllocateHandle` finds a handle or not. -/
def Volume.findOpen (v : Volume) (fuel : Nat) (now : FatTime) (handle : Bool)
    (path : List UInt16) : Option (Volume × Except Failure FindFiles) :=
  let opened (v : Volume) (clusIndex : Nat) : Except Failure FindFiles :=
    if handle then .ok ⟨v.dirStart clusIndex, .initial 0⟩ else .error .tooManyOpenHandles
  if path.length ≥ FS_MAX_PATH_LENGTH then some (v, .error .pathTooLong)
  else if isRoot path then some (v, opened v CLUSTER_NOT_A_CLUSTER)
  else do
    match ← v.getFile fuel now path GetFile.GET_DIRECTORY_ONLY with
    | (v, none) => some (v, .error .directoryNotFound)
    | (v, some p) => some (v, opened v (v.slot p).getFstClus)

/-- The loop of `FindNext`, past `"."`, `".."` and the volume label -/
def nextFile (dir : Directory) : Nat → EntryEnumerator → Option (FatFile × Slot) × EntryEnumerator
  | 0, e => (none, e)
  | fuel + 1, e =>
      match FatDirectory.parse dir e with
      | (none, e) => (none, e)
      | (some file, e) =>
          match dir[file.m_dir]? with
          | none => (none, e)
          | some slot =>
              if slot.LDIR_Ord = 0x2E ∨ slot.DIR_Attr = FatDirectory.ATTR_VOLUME_ID then
                nextFile dir fuel e
              else (some (file, slot), e)

/-- `FindNext`, with a buffer of `fileNameSize` characters for the name: `none` when there is no file
    left -/
def Volume.findNext (v : Volume) (fuel fileNameSize : Nat) (findFiles : FindFiles) :
    Option (Except Failure (Option FileInfo) × FindFiles) := do
  let places ← v.places fuel findFiles.start
  let dir := places.map v.slot
  match nextFile dir (dir.length + 1) findFiles.entryEnum with
  | (none, entryEnum) => some (.ok none, { findFiles with entryEnum })
  | (some (file, slot), entryEnum) =>
      match FatDirectory.copyFileName dir file fileNameSize with
      | none => some (.error .pathTooLong, { findFiles with entryEnum })
      | some fileName => some (.ok (some (infoOf slot fileName)), { findFiles with entryEnum })

end TinyClr.FatVolume
