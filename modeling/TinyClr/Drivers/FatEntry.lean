import TinyClr.Drivers.FatDirectory
import TinyClr.Drivers.FatShortName

/-!
# The fields of directory entries

`FAT_Directory` and `FAT_LONG_Directory` (`DeviceCode/Drivers/FS/FAT/FAT_FS.cpp`) with their names,
clusters and dates, and `IsFileName`, `CopyFileName`, `IsFileNameValid` and `IsFileLongName` of
`FAT_FILE` (`DeviceCode/Drivers/FS/FAT/FAT_File.cpp`).

A name is the characters from the pointer on; past the end of the string a character is 0.  A `char`
is unsigned.
-/

namespace TinyClr.FatDirectory

def ATTR_VOLUME_ID : UInt8 := 0x08

def ATTR_DIRECTORY : UInt8 := 0x10

def dot : UInt16 := 0x2E

def backslash : UInt16 := 0x5C

structure FatTime where
  date : UInt16
  time : UInt16
  timeTenth : UInt8
deriving DecidableEq, Repr

def towupper (c : UInt16) : UInt16 := if 0x61 ≤ c ∧ c ≤ 0x7A then c - 32 else c

def fieldBytes (value : UInt16) : List UInt8 := [value.toUInt8, (value >>> 8).toUInt8]

def slotOf (bytes : List UInt8) : Slot := fun i => bytes.getD i 0

namespace Slot

variable (s : Slot)

def field (i : Fin 32) : UInt16 := (s i).toUInt16 ||| (s (i + 1)).toUInt16 <<< 8

/-! ### `FAT_Directory` -/

def DIR_Attr : UInt8 := s 11

/-- `Get_DIR_CrtTime` with `Get_DIR_CrtDate` and `DIR_CrtTimeTenth` -/
def creationTime : FatTime := ⟨s.field 16, s.field 14, s 13⟩

def lstAccDate : UInt16 := s.field 18

def writeTime : FatTime := ⟨s.field 24, s.field 22, 0⟩

def getFstClus : Nat := (s.field 20).toNat <<< 16 ||| (s.field 26).toNat

def fileSize : Nat := (s.field 28).toNat ||| (s.field 30).toNat <<< 16

/-- Setting the dates and times of creation, writing and access -/
def stamp (now : FatTime) : Slot := fun i =>
  match i.val with
  | 13 => now.timeTenth
  | 14 | 22 => now.time.toUInt8
  | 15 | 23 => (now.time >>> 8).toUInt8
  | 16 | 18 | 24 => now.date.toUInt8
  | 17 | 19 | 25 => (now.date >>> 8).toUInt8
  | _ => s i

def setLstAccDate (date : UInt16) : Slot := fun i =>
  match i.val with
  | 18 => date.toUInt8
  | 19 => (date >>> 8).toUInt8
  | _ => s i

/-- The base name in `FAT_Directory::IsName`, from `j` on: where the comparison has come to, and
    what is left of the name -/
def isBaseName : Nat → Fin 32 → List UInt16 → Option (Fin 32 × List UInt16)
  | 0, j, name => some (j, name)
  | _ + 1, j, [] => some (j, [])
  | count + 1, j, c :: name =>
      let c := c &&& 0xFF
      if c = dot then some (j, name)
      else
        let c := if j = 0 ∧ c = 0xE5 then 0x05 else c
        if towupper (s j).toUInt16 ≠ towupper c then none else isBaseName count (j + 1) name

/-- The extension in `FAT_Directory::IsName` -/
def isExtension : Nat → Fin 32 → List UInt16 → Option (Fin 32)
  | 0, j, _ => some j
  | _ + 1, j, [] => some j
  | count + 1, j, c :: name =>
      if towupper (s j).toUInt16 ≠ towupper (c &&& 0xFF) then none
      else isExtension count (j + 1) name

/-- The bytes from `j` to `last` are blanks. -/
def blanks (j last : Fin 32) : Bool :=
  ((List.finRange 32).filter fun k => j ≤ k ∧ k < last).all fun k => s k = WHITESPACE_CHAR

/-- Skipping the `'.'` -/
def skipDot (name : List UInt16) : List UInt16 :=
  if name.head? = some dot then name.tail else name

/-- `FAT_Directory::IsName` -/
def isName (name : List UInt16) : Bool :=
  match s.isBaseName 8 0 name with
  | none => false
  | some (j, name) =>
      s.blanks j 8 &&
        match s.isExtension 3 8 (skipDot name) with
        | none => false
        | some j => s.blanks j 11

def copyName : List UInt16 :=
  ((s.DIR_Name.take 8).takeWhile (· ≠ WHITESPACE_CHAR)).mapIdx (fun j c =>
      if j = 0 ∧ c = 0x05 then 0xE5 else c.toUInt16)
    ++ (if s 8 ≠ WHITESPACE_CHAR then [dot] else [])
    ++ ((s.DIR_Name.drop 8).takeWhile (· ≠ WHITESPACE_CHAR)).map (·.toUInt16)

/-! ### `FAT_LONG_Directory` -/

/-- `LDIR_Name1`, `LDIR_Name2` and `LDIR_Name3` -/
def longChars : List UInt16 :=
  ([1, 3, 5, 7, 9, 14, 16, 18, 20, 22, 24, 28, 30] : List (Fin 32)).map s.field

/-- The loops of `FAT_LONG_Directory::IsName` -/
def isLongChars : List UInt16 → List UInt16 → Nat → Bool
  | [], _, _ => true
  | c :: chars, name, nameLen =>
      if c = 0 ∧ nameLen = 0 then true
      else if nameLen = 0 ∨ towupper c ≠ towupper (name.headD 0) then false
      else isLongChars chars name.tail (nameLen - 1)

/-- `FAT_LONG_Directory::IsName` -/
def isLongName (name : List UInt16) (nameLen : Nat) : Bool := isLongChars s.longChars name nameLen

end Slot

/-! ### New entries -/

/-- The base name in `FAT_Directory::SetName`: the bytes, and what is left of the name -/
def baseName : Nat → Nat → List UInt16 → List UInt8 × List UInt16
  | 0, _, name => ([], name)
  | _ + 1, _, [] => ([], [])
  | count + 1, j, c :: name =>
      if c &&& 0xFF = dot then ([], name)
      else
        let b := if j = 0 ∧ c &&& 0xFF = 0xE5 then 0x05 else c.toUInt8
        let rest := baseName count (j + 1) name
        (b :: rest.1, rest.2)

def setName (name : List UInt16) : List UInt8 :=
  let (base, name) := baseName 8 0 name
  ShortName.pad 8 base ++ ShortName.pad 3 (((Slot.skipDot name).take 3).map (·.toUInt8))

/-- `FAT_Directory::Initialize`, with what `Create` and `CreateNewDirectory` set -/
def shortSlot (name : List UInt8) (attributes : UInt8) (fstClus : Nat) : Slot :=
  slotOf (name ++ [attributes, 0, 0, 0, 0, 0, 0, 0, 0] ++ fieldBytes (.ofNat (fstClus >>> 16)) ++
    [0, 0, 0, 0] ++ fieldBytes (.ofNat fstClus) ++ [0, 0, 0, 0])

/-- The 13 characters that `FAT_LONG_Directory::SetName` writes: behind a shorter name, a 0 and then
    `0xFFFF` -/
def longName (name : List UInt16) (nameLen : Nat) : List UInt16 :=
  (List.range 13).map fun j =>
    if j < nameLen then name.getD j 0 else if j = nameLen then 0 else 0xFFFF

def longSlot (ord : UInt8) (name : List UInt16) (nameLen : Nat) (chksum : UInt8) : Slot :=
  let chars := longName name nameLen
  slotOf (ord :: (chars.take 5).flatMap fieldBytes ++ [ATTR_LONG_NAME, 0, chksum] ++
    ((chars.drop 5).take 6).flatMap fieldBytes ++ [0, 0] ++ (chars.drop 11).flatMap fieldBytes)

/-! ### File names -/

/-- The loop of `IsFileName` over the slots of a long name, from the number `i` down -/
def isLongFileName (dir : Directory) (name : List UInt16) : Nat → Nat → Nat → Option Bool
  | 0, _, _ => some true
  | i + 1, slot, portionLen =>
      match dir[slot]? with
      | none => none
      | some lDirEntry =>
          if lDirEntry.isLongName (name.drop (13 * i)) portionLen then
            isLongFileName dir name i (slot + 1) 13
          else some false

/-- `IsFileName`, for the first `nameLen` characters from a pointer on -/
def isFileName (dir : Directory) (file : FatFile) (name : List UInt16) (nameLen : Nat) : Bool :=
  let short := decide (nameLen ≤ 12 ∧ nameLen = file.m_fileNameLength) &&
    match dir[file.m_dir]? with
    | none => false
    | some dirEntry => dirEntry.isName (name.take nameLen)
  if 0 < file.m_lDirCount ∧ nameLen = file.m_fileNameLength then
    match isLongFileName dir name file.m_lDirCount file.m_lDir
        ((nameLen + (2 ^ 32 - 1)) % 2 ^ 32 % 13 + 1) with
    | none => false
    | some true => true
    | some false => short
  else short

/-- `CopyFileName`, for a buffer of `nameLen` characters: `none` when there is no room for the name.
    The slots of a long name hold its parts, the last one first. -/
def copyFileName (dir : Directory) (file : FatFile) (nameLen : Nat) : Option (List UInt16) :=
  if nameLen ≤ file.m_fileNameLength then none
  else if 0 < file.m_lDirCount then
    some ((((dir.drop file.m_lDir).take file.m_lDirCount).reverse.flatMap Slot.longChars).takeWhile
      (· ≠ 0))
  else (dir[file.m_dir]?).map Slot.copyName

def isFileNameValid (first : UInt16) (fileName : List UInt16) : Bool :=
  first ≠ 0 && fileName.all fun c => 0x20 ≤ c &&
    c ∉ ([0x2A, 0x7C, 0x5C, 0x3A, 0x22, 0x3C, 0x3E, 0x3F, 0x2F] : List UInt16)

def isFileLongName (first : UInt16) (fileName : List UInt16) : Bool :=
  let extLen := (ShortName.getFileNameExt fileName).length
  let baseNameLen := if extLen > 0 then fileName.length - extLen - 1 else fileName.length
  baseNameLen > 8 || extLen > 3 ||
    (fileName.filter (· ≠ dot)).any (fun c => (0x61 ≤ c ∧ c ≤ 0x7A) ∨ c > 255 ∨
      c ∈ ([0x20, 0x2B, 0x2C, 0x3B, 0x3D, 0x5B, 0x5D] : List UInt16)) ||
    fileName.count dot > 1 || first = dot

end TinyClr.FatDirectory
