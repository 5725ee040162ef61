import Mathlib.Algebra.Ring.Nat
import Mathlib.Data.List.Basic
import Mathlib.Logic.Function.Basic

/-!
# Directory entries of a FAT volume

`FAT_EntryEnumerator`'s `GetNext`, the slots' `GetNameLength`
(`DeviceCode/Drivers/FS/FAT/FAT_FS.cpp`), and `Parse`, `DeleteDirectoryEntry` and
`GetShortNameChksum` of `FAT_FILE` (`DeviceCode/Drivers/FS/FAT/FAT_File.cpp`).

A directory is the list of the slots in its clusters, in the order of the cluster chain.  A slot is
known by its number in that list, for which the source has a sector and an offset in it.
-/

namespace TinyClr.FatDirectory

/-- The 32 bytes that are read as a `FAT_Directory` or as a `FAT_LONG_Directory` -/
abbrev Slot := Fin 32 → UInt8

theorem slotNeZero : NeZero 32 := ⟨by decide⟩

attribute [scoped instance] slotNeZero

abbrev Directory := List Slot

def ATTR_LONG_NAME : UInt8 := 0x0F

def ATTR_LONG_NAME_MASK : UInt8 := 0x3F

def SLOT_EMPTY : UInt8 := 0x00

def SLOT_DELETED : UInt8 := 0xE5

def LAST_LONG_ENTRY : UInt8 := 0x40

def MAX_LONGENTRY_COUNT : Nat := 20

def WHITESPACE_CHAR : UInt8 := 0x20

namespace Slot

variable (s : Slot)

def LDIR_Ord : UInt8 := s 0

def LDIR_Attr : UInt8 := s 11

def LDIR_Chksum : UInt8 := s 13

def DIR_Name : List UInt8 := [s 0, s 1, s 2, s 3, s 4, s 5, s 6, s 7, s 8, s 9, s 10]

def IsLong : Prop := s.LDIR_Attr &&& ATTR_LONG_NAME_MASK = ATTR_LONG_NAME

instance : Decidable s.IsLong := inferInstanceAs (Decidable (_ = _))

/-- The first slot of a run of long-name slots -/
def IsLast : Prop := s.LDIR_Ord &&& LAST_LONG_ENTRY = LAST_LONG_ENTRY ∧ s.IsLong

instance : Decidable s.IsLast := inferInstanceAs (Decidable (_ ∧ _))

def markDeleted : Slot := Function.update s 0 SLOT_DELETED

def getNameLength : Nat :=
  ((s.DIR_Name.take 8).takeWhile (· ≠ WHITESPACE_CHAR)).length
    + (if s 8 ≠ WHITESPACE_CHAR then 1 else 0)
    + ((s.DIR_Name.drop 8).takeWhile (· ≠ WHITESPACE_CHAR)).length

/-- `FAT_LONG_Directory::GetNameLength`: the characters of `LDIR_Name1`, `LDIR_Name2` and
    `LDIR_Name3` in front of the first that is zero -/
def getLongNameLength : Nat :=
  (([1, 3, 5, 7, 9, 14, 16, 18, 20, 22, 24, 28, 30] : List (Fin 32)).takeWhile
    fun j => ¬ (s j = 0 ∧ s (j + 1) = 0)).length

end Slot

def getShortNameChksum (shortName : List UInt8) : UInt8 :=
  shortName.foldl (fun (sum c : UInt8) => (if sum &&& 1 ≠ 0 then (0x80 : UInt8) else 0) + (sum >>> 1) + c) 0

/-! ### `FAT_EntryEnumerator` -/

/-- `FAT_EntryEnumerator`, without `Flag_Extend` -/
structure EntryEnumerator where
  index : Nat
  first : Bool
  done : Bool

def EntryEnumerator.initial (index : Nat) : EntryEnumerator :=
  { index := index, first := true, done := false }

def EntryEnumerator.getNext (dir : Directory) (e : EntryEnumerator) :
    Option Slot × EntryEnumerator :=
  if e.first then (dir[e.index]?, { e with first := false })
  else if e.done then (none, e)
  else if dir.length ≤ e.index + 1 then (none, { e with index := e.index + 1, done := true })
  else (dir[e.index + 1]?, { e with index := e.index + 1 })

/-! ### `Parse` -/

/-- What `Parse` stores in a `FAT_FILE`.  `m_lDir` and `m_dir` are the slots where the entries of the
    file begin and where the short entry is. -/
structure FatFile where
  m_dir : Nat
  m_lDir : Nat
  m_lDirCount : Nat
  m_fileNameLength : Nat
deriving DecidableEq

/-- The loop over the deleted entries.  The first argument bounds the iterations. -/
def skipDeleted (dir : Directory) : Nat → EntryEnumerator → Option Slot × EntryEnumerator
  | 0, e => (none, e)
  | fuel + 1, e =>
      match e.getNext dir with
      | (some dirEntry, e) =>
          if dirEntry.LDIR_Ord = SLOT_DELETED then skipDeleted dir fuel e else (some dirEntry, e)
      | (none, e) => (none, e)

/-- The loop over the slots of a run, from `i` down to 1: `m_lDirCount` after it, which is 0 when
    one of the slots does not belong to the run; `none` when the directory ends. -/
def checkRun (dir : Directory) (checksum : UInt8) :
    Nat → Nat → EntryEnumerator → Option Nat × EntryEnumerator
  | 0, m_lDirCount, e => (some m_lDirCount, e)
  | i + 1, m_lDirCount, e =>
      match e.getNext dir with
      | (some lDirEntry, e) =>
          if lDirEntry.LDIR_Chksum ≠ checksum ∨ lDirEntry.LDIR_Ord.toNat ≠ i + 1 then
            checkRun dir checksum i 0 e
          else checkRun dir checksum i m_lDirCount e
      | (none, e) => (none, e)

/-- What is stored for a short entry, with `m_lDirCount` slots of a run in front of it -/
def fileOf (m_lDir m_dir m_lDirCount : Nat) (checksum : UInt8) (lastLength : Nat)
    (dirEntry : Slot) : FatFile :=
  let count := if 0 < m_lDirCount ∧ checksum ≠ getShortNameChksum dirEntry.DIR_Name then 0
    else m_lDirCount
  { m_dir := m_dir
    m_lDir := m_lDir
    m_lDirCount := count
    m_fileNameLength :=
      if count = 0 then dirEntry.getNameLength else lastLength + (m_lDirCount - 1) * 13 }

/-- `Parse`: `none` for `CLR_E_FILE_IO` -/
def parse (dir : Directory) (e : EntryEnumerator) : Option FatFile × EntryEnumerator :=
  match skipDeleted dir (dir.length + 1) e with
  | (none, e) => (none, e)
  | (some dirEntry, e) =>
      if dirEntry.LDIR_Ord = SLOT_EMPTY then (none, e)
      else if dirEntry.IsLast then
        let m_lDirCount := (dirEntry.LDIR_Ord &&& 0x3F).toNat
        if m_lDirCount > MAX_LONGENTRY_COUNT then (none, e)
        else
          match checkRun dir dirEntry.LDIR_Chksum (m_lDirCount - 1) m_lDirCount e with
          | (none, e') => (none, e')
          | (some count, e') =>
              match e'.getNext dir with
              | (none, e'') => (none, e'')
              | (some shortEntry, e'') =>
                  (some (fileOf e.index e''.index count dirEntry.LDIR_Chksum
                    dirEntry.getLongNameLength shortEntry), e'')
      else
        (some (fileOf e.index e.index 0 0 0 dirEntry), e)

/-- `Parse`, called until it fails.  The first argument bounds the calls. -/
def enumerate (dir : Directory) : Nat → EntryEnumerator → List FatFile
  | 0, _ => []
  | fuel + 1, e =>
      match parse dir e with
      | (none, _) => []
      | (some file, e) => file :: enumerate dir fuel e

def files (dir : Directory) : List FatFile := enumerate dir (dir.length + 1) (.initial 0)

/-! ### `DeleteDirectoryEntry` -/

/-- The loop of `DeleteDirectoryEntry`, with whether it comes to its end -/
def deleteSlots : Nat → Directory → EntryEnumerator → Bool × Directory
  | 0, dir, _ => (true, dir)
  | i + 1, dir, e =>
      match e.getNext dir with
      | (none, _) => (false, dir)
      | (some dirEntry, e) => deleteSlots i (dir.set e.index dirEntry.markDeleted) e

/-- `DeleteDirectoryEntry`: whether it returns `S_OK`, and the directory after it -/
def deleteDirectoryEntry (dir : Directory) (file : FatFile) : Bool × Directory :=
  deleteSlots (file.m_lDirCount + 1) dir (.initial file.m_lDir)

end TinyClr.FatDirectory
