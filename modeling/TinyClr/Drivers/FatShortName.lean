import Mathlib.Algebra.Ring.Nat
import Mathlib.Data.List.Basic

/-!
# Short names for long ones

`GenerateBasisName`, `SetBasisNameChar`, `CollectNumTail`, `LongToShortName`, `AttachNumTail` and
`GetFileNameExt` of `FAT_FILE` (`DeviceCode/Drivers/FS/FAT/FAT_File.cpp`).

A short name is its 11 bytes, blanks included.  The directory is the list of the entries that
`Parse` finds in it, and its sectors can be read.  `none` is an access outside of an array.
-/

namespace TinyClr.ShortName

abbrev Name := List UInt8

def WHITESPACE_CHAR : UInt8 := 0x20

def ATTR_VOLUME_ID : UInt8 := 0x08

def SHORTNAME_CONVERSION_MAP_SIZE : Nat := 512

def SHORTNAME_SIZE : Nat := 8

def SHORTNAME_FULL_SIZE : Nat := 11

def tilde : UInt8 := 0x7E

/-! ### `GenerateBasisName` -/

/-- `SetBasisNameChar`: the character, if there is one, and whether a tail is needed for it -/
def setBasisNameChar (c : UInt16) : Option UInt8 × Bool :=
  if 0x61 ≤ c ∧ c ≤ 0x7A then (some (c - 0x20).toUInt8, false)
  else if c > 255 ∨ c ∈ ([0x2B, 0x2C, 0x3B, 0x3D, 0x5B, 0x5D] : List UInt16) then
    (some 0x5F, true)
  else if c ≠ 0x20 ∧ c ≠ 0x2E then (some c.toUInt8, false)
  else (none, true)

/-- A loop of `GenerateBasisName`, which stops when there is no room left -/
def basisChars : List UInt16 → Nat → Name × Bool
  | [], _ => ([], false)
  | _ :: _, 0 => ([], false)
  | c :: cs, room + 1 =>
      match setBasisNameChar c with
      | (some b, needsTrail) =>
          let rest := basisChars cs room
          (b :: rest.1, needsTrail || rest.2)
      | (none, needsTrail) =>
          let rest := basisChars cs (room + 1)
          (rest.1, needsTrail || rest.2)

def pad (size : Nat) (chars : Name) : Name :=
  chars ++ List.replicate (size - chars.length) WHITESPACE_CHAR

/-- `GetFileNameExt`: what is behind the last dot; empty when there is none -/
def getFileNameExt (path : List UInt16) : List UInt16 :=
  if 0x2E ∈ path then (path.reverse.takeWhile (· ≠ 0x2E)).reverse else []

def generateBasisName (fileName : List UInt16) : Name × Bool :=
  let fileNameExt := getFileNameExt fileName
  let extLen := fileNameExt.length
  let baseLen := if extLen > 0 then fileName.length - extLen - 1 else fileName.length
  -- a name like ".something" has its extension as the actual name
  let (base, ext) := if baseLen = 0 then ((fileName.drop 1).take extLen, [])
    else (fileName.take baseLen, fileNameExt)
  let (baseChars, needsTrail) := basisChars base SHORTNAME_SIZE
  let (extChars, needsTrail') := basisChars ext (SHORTNAME_FULL_SIZE - SHORTNAME_SIZE)
  (pad SHORTNAME_SIZE baseChars ++ pad (SHORTNAME_FULL_SIZE - SHORTNAME_SIZE) extChars,
    needsTrail || needsTrail' || decide (base.length > 8 ∨ ext.length > 3))

/-! ### `CollectNumTail` -/

/-- The number behind a `'~'`, up to the first blank; `none` when there is something else. -/
def tailNumber : Name → Nat → Option Nat
  | [], num => some num
  | c :: cs, num =>
      if c = WHITESPACE_CHAR then some num
      else if c < 0x30 ∨ c > 0x39 then none
      else tailNumber cs (num * 10 + (c - 0x30).toNat)

/-- What a file name is to a basis name -/
inductive Tail where
  | other
  | same
  | number (num : Nat)
deriving DecidableEq

/-- The comparison in `CollectNumTail` -/
def tailOf (fileName basisName : Name) : Tail :=
  if fileName.drop 8 ≠ basisName.drop 8 then .other
  else
    match (List.range 8).find? fun i => fileName.getD i 0 ≠ basisName.getD i 0 with
    | none => .same
    | some i =>
        if fileName.getD i 0 = tilde ∧
            (basisName.getD i 0 = WHITESPACE_CHAR ∨ fileName.getD 7 0 ≠ 0x20) ∧ i ≠ 0 then
          match tailNumber ((fileName.take 8).drop (i + 1)) 0 with
          | some num => .number num
          | none => .other
        else .other

/-- `availableMap`, bit by bit: bit `j` of the byte `i` is number `8 * i + j`. -/
abbrev Map := List Bool

/-- `CollectNumTail`: whether the names are the same, and the map after it -/
def collectNumTail (fileName basisName : Name) (availableMap : Map) : Option (Bool × Map) :=
  match tailOf fileName basisName with
  | .other => some (false, availableMap)
  | .same => some (true, availableMap)
  | .number num =>
      if num ≤ SHORTNAME_CONVERSION_MAP_SIZE then
        let num := (num + (2 ^ 32 - 1)) % 2 ^ 32
        if num < SHORTNAME_CONVERSION_MAP_SIZE then some (false, availableMap.set num true)
        else none
      else some (false, availableMap)

/-! ### `AttachNumTail` -/

def charAt (name : Name) (i : Int) : Option UInt8 := if 0 ≤ i then name[i.toNat]? else none

def setChar (name : Name) (i : Int) (c : UInt8) : Option Name :=
  if 0 ≤ i ∧ i.toNat < name.length then some (name.set i.toNat c) else none

/-- Writing the digits from `i` to the left: the name, and the place in front of them.  The first
    argument bounds the iterations. -/
def writeDigits : Nat → Name → Nat → Int → Option (Name × Int)
  | 0, _, _, _ => none
  | fuel + 1, shortName, num, i =>
      if num > 0 then
        (setChar shortName i (.ofNat (num % 10 + 0x30))).bind fun shortName =>
          writeDigits fuel shortName (num / 10) (i - 1)
      else some (shortName, i)

def skipBlanks : Nat → Name → Int → Int → Option (Int × Int)
  | 0, _, _, _ => none
  | fuel + 1, shortName, i, shift =>
      (charAt shortName i).bind fun c =>
        if c = WHITESPACE_CHAR then skipBlanks fuel shortName (i - 1) (shift + 1)
        else some (i, shift)

/-- Shifting the tail over, and filling the rest with blanks -/
def shiftTail : Nat → Name → Int → Int → Option Name
  | 0, _, _, _ => none
  | fuel + 1, shortName, i, shift =>
      if i < SHORTNAME_SIZE then
        if i + shift < SHORTNAME_SIZE then
          (charAt shortName (i + shift)).bind fun c =>
            (setChar shortName i c).bind fun shortName =>
              shiftTail fuel shortName (i + 1) shift
        else
          (setChar shortName i WHITESPACE_CHAR).bind fun shortName =>
            shiftTail fuel shortName (i + 1) shift
      else some shortName

def attachNumTail (shortName : Name) (num : Nat) : Option Name := do
  let (shortName, i) ← writeDigits 11 shortName num (SHORTNAME_SIZE - 1)
  let shortName ← setChar shortName i tilde
  let (i, shift) ← skipBlanks 11 shortName (i - 1) 0
  if shift > 0 then shiftTail 11 shortName (i + 1) shift else some shortName

/-! ### `LongToShortName` -/

structure Entry where
  DIR_Name : Name
  DIR_Attr : UInt8
  length : DIR_Name.length = SHORTNAME_FULL_SIZE

def collectTails (shortName : Name) : List Entry → Bool → Map → Option (Bool × Map)
  | [], needsTail, availableMap => some (needsTail, availableMap)
  | dirEntry :: rest, needsTail, availableMap =>
      if dirEntry.DIR_Attr = ATTR_VOLUME_ID then collectTails shortName rest needsTail availableMap
      else
        (collectNumTail dirEntry.DIR_Name shortName availableMap).bind fun (same, availableMap) =>
          collectTails shortName rest (same || needsTail) availableMap

/-- The first number that is not in the map, byte by byte -/
def findNumber : Nat → Map → Nat → Nat
  | 0, _, num => num
  | i + 1, availableMap, num =>
      let map := availableMap.take 8
      if map.all id then findNumber i (availableMap.drop 8) (num + 8)
      else num + (map.takeWhile id).length

/-- `LongToShortName`.  In the search past the map, the `continue` behind the comparison belongs to
    the loop over the entries, so the first candidate is returned whatever there is. -/
def longToShortName (entries : List Entry) (longName : List UInt16) : Option Name := do
  let (shortName, needsTail) := generateBasisName longName
  let (needsTail, availableMap) ← collectTails shortName entries needsTail
    (List.replicate SHORTNAME_CONVERSION_MAP_SIZE false)
  if needsTail then
    let num := findNumber (SHORTNAME_CONVERSION_MAP_SIZE / 8) availableMap 1
    attachNumTail shortName num
  else some shortName

end TinyClr.ShortName
