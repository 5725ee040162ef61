import TinyClr.Drivers.FatVolume

/-!
# File handles of a FAT volume

`FAT_FileHandle`: `Read`, `Write`, `Seek`, `SetLength`, `GetLength` and `Flush` of an open file.
A handle keeps the cluster, the sector and the offset that it stands at next to its position, and
the directory entry of the file lies in a sector of the volume.  The time of day is a parameter.
-/

namespace TinyClr.FatFileHandle

open TinyClr.Library TinyClr.FatLogicDisk TinyClr.FatVolume

def SEEKORIGIN_BEGIN : Nat := 0

def SEEKORIGIN_CURRENT : Nat := 1

def SEEKORIGIN_END : Nat := 2

def ReadWriteState.NONE : Nat := 0

def ReadWriteState.READ : Nat := 0x1

def ReadWriteState.WRITE : Nat := 0x2

inductive FileFailure where
  | invalidParameter
  | outOfRange
  | fileError
deriving DecidableEq, Repr

inductive Helper where
  | read
  | write
  | seek
  | flush
deriving DecidableEq, Repr

/-! ### Directory entries -/

/-- `FAT_Directory::GetFstClus` of the entry at an offset of a sector -/
def getFstClus (sector : Sector) (entry : Nat) : Nat :=
  word16 sector (entry + 20) <<< 16 ||| word16 sector (entry + 26)

def getFileSize (sector : Sector) (entry : Nat) : Nat := word32 sector (entry + 28)

def getLstAccDate (sector : Sector) (entry : Nat) : Nat := word16 sector (entry + 18)

def setFstClus (sector : Sector) (entry value : Nat) : Sector :=
  memcpy (memcpy sector (entry + 20) (bytes16 (value >>> 16))) (entry + 26)
    (bytes16 (value &&& 0xFFFF))

def setFileSize (sector : Sector) (entry value : Nat) : Sector :=
  memcpy sector (entry + 28) (bytes32 value)

def setLstAccDate (sector : Sector) (entry date : Nat) : Sector :=
  memcpy sector (entry + 18) (bytes16 date)

def setWrtTime (sector : Sector) (entry date time : Nat) : Sector :=
  memcpy (memcpy sector (entry + 24) (bytes16 date)) (entry + 22) (bytes16 time)

/-! ### State -/

/-- `FAT_FileHandle`, with the place of the directory entry that `m_file` has -/
structure FileHandle where
  position : Int
  clusIndex : Nat
  sectIndex : Nat
  dataIndex : Nat
  readWriteState : Nat
  dirSectIndex : Nat
  dirDataIndex : Nat
deriving DecidableEq, Repr

structure FileState where
  volume : Volume
  handle : FileHandle

structure FatTime where
  date : Nat
  time : Nat

def openHandle (volume : Volume) (clusIndex dirSectIndex dirDataIndex : Nat) : FileState where
  volume
  handle :=
    { position := 0
      clusIndex
      sectIndex := volume.disk.clusToSect clusIndex
      dataIndex := 0
      readWriteState := ReadWriteState.NONE
      dirSectIndex
      dirDataIndex }

namespace FileState

def fstClus (s : FileState) : Nat :=
  getFstClus (s.volume.sectors s.handle.dirSectIndex) s.handle.dirDataIndex

def fileSize (s : FileState) : Nat :=
  getFileSize (s.volume.sectors s.handle.dirSectIndex) s.handle.dirDataIndex

def updateEntry (s : FileState) (change : Sector → Nat → Sector) : FileState :=
  { s with
    volume := s.volume.setSector s.handle.dirSectIndex
      (change (s.volume.sectors s.handle.dirSectIndex) s.handle.dirDataIndex) }

def restart (s : FileState) : FileState :=
  { s with
    handle :=
      { s.handle with
        position := 0
        clusIndex := s.fstClus
        sectIndex := s.volume.disk.clusToSect s.fstClus
        dataIndex := 0 } }

end FileState

/-- `TINYCLR_CHECK_HRESULT`: what has been done stays done. -/
def check {α β : Type} (r : FileState × Except FileFailure α)
    (k : FileState → α → FileState × Except FileFailure β) : FileState × Except FileFailure β :=
  match r with
  | (s, .ok a) => k s a
  | (s, .error failure) => (s, .error failure)

@[simp] theorem check_ok {α β : Type} (s : FileState) (a : α)
    (k : FileState → α → FileState × Except FileFailure β) : check (s, .ok a) k = k s a := rfl

@[simp] theorem check_error {α β : Type} (s : FileState) (failure : FileFailure)
    (k : FileState → α → FileState × Except FileFailure β) :
    check (s, .error failure) k = (s, .error failure) := rfl

/-! ### `ReadWriteSeekHelper` -/

def FileState.pageIn (create : Bool) (s : FileState) : FileState × Except FileFailure Unit :=
  if s.handle.dataIndex = s.volume.disk.bytesPerSector then
    match s.volume.getNextSect create s.handle.clusIndex s.handle.sectIndex with
    | (volume, none) => ({ s with volume }, .error .fileError)
    | (volume, some (clusIndex, sectIndex)) =>
        ({ volume, handle := { s.handle with clusIndex, sectIndex, dataIndex := 0 } }, .ok ())
  else (s, .ok ())

/-- `count`: what the sector still has, or what is still asked for -/
def FileState.count (s : FileState) (size : Nat) : Nat :=
  let count := uint32 (s.volume.disk.bytesPerSector - s.handle.dataIndex)
  if (size : Int) < int32 count then size else count

/-- What is done with the bytes of a sector, and the bytes that are read -/
def FileState.piece (type : Helper) (s : FileState) (buffer : Option (List UInt8)) (count : Nat) :
    FileState × List UInt8 :=
  match type with
  | .read =>
      let sector := s.volume.sectors s.handle.sectIndex
      (s, (List.range count).map fun i => sector (s.handle.dataIndex + i))
  | .write =>
      let sector := s.volume.sectors s.handle.sectIndex
      let bytes :=
        match buffer with
        | some bytes => bytes.take count
        | none => List.replicate count 0
      ({ s with
        volume := s.volume.setSector s.handle.sectIndex (memcpy sector s.handle.dataIndex bytes) },
        [])
  | .seek => (s, [])
  | .flush => (s, [])

def FileState.advance (s : FileState) (count : Nat) : FileState :=
  { s with
    handle :=
      { s.handle with
        dataIndex := s.handle.dataIndex + count
        position := s.handle.position + count } }

/-- The loop of `ReadWriteSeekHelper`, with the bytes that are read and their number.  Every turn
    takes a byte or more of `size`. -/
def helperLoop (type : Helper) : Nat → FileState → Option (List UInt8) → Nat → List UInt8 → Nat →
    FileState × Except FileFailure (List UInt8 × Nat)
  | 0, s, _, _, out, done => (s, .ok (out, done))
  | fuel + 1, s, buffer, size, out, done =>
      if size = 0 then (s, .ok (out, done))
      else
        check (s.pageIn (type = .write)) fun s _ =>
          let count := s.count size
          let (s, bytes) := s.piece type buffer count
          let moved := if type = .read ∨ type = .write then count else 0
          helperLoop type fuel (s.advance count) (buffer.map fun bytes => bytes.drop count)
            (size - count) (out ++ bytes) (done + moved)

/-- `ReadWriteSeekHelper`: the bytes that are read, and `*bytesDone` -/
def readWriteSeekHelper (type : Helper) (s : FileState) (buffer : Option (List UInt8))
    (size : Int) : FileState × Except FileFailure (List UInt8 × Nat) :=
  helperLoop type size.toNat s buffer size.toNat [] 0

/-! ### Reading and writing -/

/-- `m_position` when another handle may have made the file shorter -/
def FileState.clampPosition (s : FileState) : FileState :=
  if (s.fileSize : Int) < s.handle.position then
    { s with handle := { s.handle with position := s.fileSize } }
  else s

/-- `Read`: the bytes and their number; `none` at the end of the file, for which `*bytesRead`
    is -1 -/
def FileState.read (s : FileState) (now : FatTime) (size : Int) :
    FileState × Except FileFailure (Option (List UInt8 × Nat)) :=
  if size < 0 then (s, .error .invalidParameter)
  else
    let s := s.clampPosition
    let limit := int32 (s.fileSize - s.handle.position)
    if limit = 0 then (s, .ok none)
    else
      let size := if limit < size then limit else size
      let s := if s.handle.clusIndex = 0 then s.restart else s
      check (readWriteSeekHelper .read s none size) fun s result =>
        let s := { s with handle :=
          { s.handle with readWriteState := s.handle.readWriteState ||| ReadWriteState.READ } }
        (s.updateEntry fun sector entry => setLstAccDate sector entry now.date, .ok (some result))

/-- The first cluster of a file that has none, in `Write` -/
def FileState.allocateFirst (s : FileState) : FileState × Except FileFailure Unit :=
  match s.volume.getNextFreeClus with
  | (volume, none) => ({ s with volume }, .error .fileError)
  | (volume, some nextFreeClus) =>
      let s := ({ s with volume } : FileState).updateEntry fun sector entry =>
        setFstClus sector entry nextFreeClus
      let volume := (s.volume.writeFAT nextFreeClus CLUST_EOF).1
      ({ volume
         handle :=
          { s.handle with
            position := 0
            clusIndex := nextFreeClus
            sectIndex := volume.disk.clusToSect nextFreeClus
            dataIndex := 0 } }, .ok ())

/-- The end of `Write`: the size, the flag and the times -/
def FileState.finishWrite (s : FileState) (now : FatTime) : FileState :=
  let s :=
    if (s.fileSize : Int) < s.handle.position then
      s.updateEntry fun sector entry => setFileSize sector entry (uint32 s.handle.position)
    else s
  let s := { s with handle :=
    { s.handle with readWriteState := s.handle.readWriteState ||| ReadWriteState.WRITE } }
  s.updateEntry fun sector entry =>
    setLstAccDate (setWrtTime sector entry now.date now.time) entry now.date

/-- `Write`, with `*bytesWritten`; without a buffer it writes zeros. -/
def FileState.write (s : FileState) (now : FatTime) (buffer : Option (List UInt8)) (size : Int) :
    FileState × Except FileFailure Nat :=
  if size < 0 then (s, .error .invalidParameter)
  else
    let placed :=
      if s.fstClus = 0 then s.allocateFirst
      else if s.handle.clusIndex = 0 then (s.restart, .ok ())
      else (s, .ok ())
    check placed fun s _ =>
      check (readWriteSeekHelper .write s buffer size) fun s result =>
        (s.finishWrite now, .ok result.2)

def FileState.getLength (s : FileState) : Nat := s.fileSize

/-! ### Seeking and resizing -/

/-- The position that `Seek` is to go to -/
def FileState.newPosition (s : FileState) (offset : Int) (origin : Nat) : Option Int :=
  if origin = SEEKORIGIN_BEGIN then some offset
  else if origin = SEEKORIGIN_CURRENT then some (s.handle.position + offset)
  else if origin = SEEKORIGIN_END then some (s.fileSize + offset)
  else none

/-- `Seek` to a position inside the file, or at its end -/
def FileState.seekWithin (s : FileState) (newPosition : Int) :
    FileState × Except FileFailure Int :=
  let offset := newPosition - s.handle.position
  if offset < 0 ∧ -offset ≤ s.handle.dataIndex then
    let s := { s with handle :=
      { s.handle with
        dataIndex := uint32 (s.handle.dataIndex + offset)
        position := s.handle.position + offset } }
    (s, .ok s.handle.position)
  else
    let (s, offset) := if offset < 0 then (s.restart, newPosition) else (s, offset)
    check (readWriteSeekHelper .seek s none (int32 offset)) fun s _ => (s, .ok s.handle.position)

/-- `Seek`, with `*position`, over the `SetLength` that it calls -/
def FileState.seekWith (setLength : FileState → Int → FileState × Except FileFailure Unit)
    (s : FileState) (offset : Int) (origin : Nat) : FileState × Except FileFailure Int :=
  let s := s.clampPosition
  match s.newPosition offset origin with
  | none => (s, .error .invalidParameter)
  | some newPosition =>
      if (s.fileSize : Int) < newPosition then
        check (setLength s newPosition) fun s _ => s.seekWithin newPosition
      else if newPosition < 0 then (s, .error .fileError)
      else s.seekWithin newPosition

/-- The loop of `SetLength` over the clusters of a file: the number of turns left, that of the
    cluster before, and the cluster -/
def truncateLoop (newClusCount : Nat) : Nat → Nat → Volume → Nat → Volume
  | 0, _, volume, _ => volume
  | turns + 1, clusNum, volume, clus =>
      let (volume, clus) :=
        if clusNum + 1 = newClusCount then volume.writeFAT clus CLUST_EOF
        else if newClusCount < clusNum + 1 then volume.writeFAT clus CLUST_NONE
        else (volume, clus)
      if getClusType volume.disk.isFAT16 clus ≠ .data then volume
      else truncateLoop newClusCount turns (clusNum + 1) volume clus

/-- `GetDiskFreeSize`: the product of 32-bit numbers has 32 bits. -/
def getDiskFreeSize (disk : LogicDisk) : Nat :=
  uint32 (disk.freeCount * disk.sectorsPerCluster * disk.bytesPerSector : Nat)

def clusterBytes (disk : LogicDisk) : Nat :=
  uint32 (disk.bytesPerSector * disk.sectorsPerCluster : Nat)

def clusCount (disk : LogicDisk) (length : Nat) : Nat :=
  uint32 (length + clusterBytes disk - 1) / clusterBytes disk

/-- The shrinking of `SetLength`, over the `Seek` that it calls -/
def FileState.shrink (seek : FileState → Int → Nat → FileState × Except FileFailure Int)
    (s : FileState) (length : Nat) : FileState × Except FileFailure Unit :=
  let startClus := s.fstClus
  let s := { s with
    volume := truncateLoop (clusCount s.volume.disk length) (clusCount s.volume.disk s.fileSize) 0
      s.volume startClus }
  let sought :=
    if (length : Int) ≤ s.handle.position then seek s length SEEKORIGIN_BEGIN
    else (s, .ok s.handle.position)
  check sought fun s _ =>
    let s := s.updateEntry fun sector entry => setFileSize sector entry length
    if length = 0 then
      let s := s.updateEntry fun sector entry => setFstClus sector entry 0
      ({ s with volume := (s.volume.writeFAT startClus CLUST_NONE).1 }, .ok ())
    else (s, .ok ())

/-- The growing of `SetLength`, over the `Seek` that it calls -/
def FileState.grow (seek : FileState → Int → Nat → FileState × Except FileFailure Int)
    (s : FileState) (now : FatTime) (length : Nat) : FileState × Except FileFailure Unit :=
  if getDiskFreeSize s.volume.disk < length - s.fileSize then (s, .error .fileError)
  else
    let oldPosition := s.handle.position
    check (seek s 0 SEEKORIGIN_END) fun s endPosition =>
      check (s.write now none (int32 (length - endPosition))) fun s _ =>
        check (seek s oldPosition SEEKORIGIN_BEGIN) fun s _ => (s, .ok ())

/-- `SetLength`, over the `Seek` that it calls -/
def FileState.setLengthWith (seek : FileState → Int → Nat → FileState × Except FileFailure Int)
    (now : FatTime) (s : FileState) (length : Int) : FileState × Except FileFailure Unit :=
  if length < 0 ∨ 0xFFFFFFFF < length then (s, .error .outOfRange)
  else
    let length32 := length.toNat
    if length32 = s.fileSize ∨ length32 = 0 ∧ s.fstClus = 0 then (s, .ok ())
    else if length32 ≤ s.fileSize then s.shrink seek length32
    else s.grow seek now length32

/-- `Seek`, as far as the calls of it by `SetLength` and of that by `Seek` are nested -/
def FileState.seek (now : FatTime) : Nat → FileState → Int → Nat →
    FileState × Except FileFailure Int
  | 0, s, _, _ => (s, .error .fileError)
  | depth + 1, s, offset, origin =>
      s.seekWith (FileState.setLengthWith (FileState.seek now depth) now) offset origin

def FileState.setLength (now : FatTime) (depth : Nat) (s : FileState) (length : Int) :
    FileState × Except FileFailure Unit :=
  s.setLengthWith (FileState.seek now depth) now length

def flushTimes (now : FatTime) (sector : Sector) (entry : Nat) : Sector :=
  let sector :=
    if getLstAccDate sector entry ≠ now.date then setLstAccDate sector entry now.date else sector
  setWrtTime sector entry now.date now.time

/-- `Flush`: what is written to the device was in the cache before. -/
def FileState.flush (now : FatTime) (depth : Nat) (s : FileState) :
    FileState × Except FileFailure Unit :=
  if s.handle.readWriteState &&& ReadWriteState.WRITE = 0 then (s, .ok ())
  else
    let s := s.updateEntry (flushTimes now)
    let pos := s.handle.position
    check (readWriteSeekHelper .flush s.restart none (int32 s.fileSize)) fun s _ =>
      ((FileState.seek now depth s pos SEEKORIGIN_BEGIN).1, .ok ())

end TinyClr.FatFileHandle
