import TinyClr.Library.MachineInt
import Mathlib.Algebra.Ring.Nat
import Mathlib.Data.List.Basic

/-!
# Block storage streams

The tables of the storage devices and the streams over them of
`DeviceCode/pal/BlockStorage/blockstoragelist.cpp`.

A device is its tables and what its driver does: what `Write` leaves in a byte, and `EraseBlock` of
the block that holds an address.  Whether the calls on devices succeed is given as a list of
answers, one after the other; a call that fails changes nothing, and a list that is too short stands
for calls that succeed.
-/

namespace TinyClr.BlockStorage

open TinyClr.Library

/-! ### Tables -/

def USAGE_MASK : Nat := 0xFF

def ANY : Nat := 0

structure BlockRange where
  rangeType : Nat
  startBlock : Nat
  endBlock : Nat
  le : startBlock ≤ endBlock

namespace BlockRange

def getBlockCount (x : BlockRange) : Nat := x.endBlock - x.startBlock + 1

def getBlockUsage (x : BlockRange) : Nat := x.rangeType &&& USAGE_MASK

end BlockRange

/-- A region lies in the 32-bit address space, and its ranges in it. -/
structure BlockRegionInfo where
  start : Nat
  numBlocks : Nat
  bytesPerBlock : Nat
  blockRanges : List BlockRange
  pos : 0 < bytesPerBlock
  fits : start + numBlocks * bytesPerBlock < 2 ^ 32
  inside : ∀ x ∈ blockRanges, x.endBlock < numBlocks

namespace BlockRegionInfo

def size (g : BlockRegionInfo) : Nat := g.numBlocks * g.bytesPerBlock

def blockAddress (g : BlockRegionInfo) (blockIndex : Nat) : Nat :=
  g.start + blockIndex * g.bytesPerBlock

def blockIndexFromAddress (g : BlockRegionInfo) (address : Nat) : Nat :=
  (address - g.start) / g.bytesPerBlock

/-- Two regions that do not meet -/
def Apart (g g' : BlockRegionInfo) : Prop :=
  g.start + g.size ≤ g'.start ∨ g'.start + g'.size ≤ g.start

end BlockRegionInfo

/-- A device: `program ReadModifyWrite old new` is what `Write` leaves in a byte. -/
structure BlockStorageDevice where
  supportsXIP : Bool
  erasedBitsAreZero : Bool
  regions : List BlockRegionInfo
  apart : regions.Pairwise BlockRegionInfo.Apart
  program : Bool → UInt8 → UInt8 → UInt8

structure Place where
  device : Nat
  address : Nat
deriving DecidableEq, Repr

abbrev Memory := Place → UInt8

/-- The list of devices; a device is its index there. -/
abbrev Devices := List BlockStorageDevice

/-! ### Calls on devices -/

namespace BlockStorageDevice

def erasedValue (dev : BlockStorageDevice) : UInt8 := if dev.erasedBitsAreZero then 0 else 0xFF

/-- The block that holds an address: where it begins, and its length -/
def findBlock (dev : BlockStorageDevice) (address : Nat) : Option (Nat × Nat) :=
  (dev.regions.find? fun g => g.start ≤ address && address < g.start + g.size).map fun g =>
    (g.blockAddress (g.blockIndexFromAddress address), g.bytesPerBlock)

end BlockStorageDevice

/-- The bytes of a device from an address on -/
def places (d address length : Nat) : List Place :=
  (List.range length).map fun i => ⟨d, address + i⟩

def Devices.program (devices : Devices) (rmw : Bool) (mem : Memory) (b : Place × UInt8) : Memory :=
  fun p =>
    if p = b.1 then
      match devices[p.device]? with
      | none => mem p
      | some dev => dev.program rmw (mem p) b.2
    else mem p

def Devices.programAll (devices : Devices) (rmw : Bool) (mem : Memory)
    (bytes : List (Place × UInt8)) : Memory :=
  bytes.foldl (devices.program rmw) mem

def Devices.write (devices : Devices) (d : Nat) (rmw : Bool) (mem : Memory) (address : Nat)
    (data : List UInt8) : Memory :=
  devices.programAll rmw mem ((places d address data.length).zip data)

def Memory.read (mem : Memory) (d address length : Nat) : List UInt8 := (places d address length).map mem

def Devices.eraseBlock (devices : Devices) (d : Nat) (mem : Memory) (address : Nat) : Memory :=
  match devices[d]? with
  | none => mem
  | some dev =>
      match dev.findBlock address with
      | none => mem
      | some (block, length) => fun p =>
          if p.device = d ∧ block ≤ p.address ∧ p.address < block + length then dev.erasedValue
          else mem p

def Devices.isBlockErased (devices : Devices) (d : Nat) (mem : Memory) (address length : Nat) : Bool :=
  match devices[d]? with
  | none => false
  | some dev => (mem.read d address length).all (· == dev.erasedValue)

/-! ### Streams -/

/-- A block range with its place in the tables, as a stream stands in it -/
structure Slot where
  device : Nat
  regionIndex : Nat
  rangeIndex : Nat
  usage : Nat
  baseAddress : Nat
  length : Nat
  blockLength : Nat
deriving DecidableEq, Repr

def slotAt (d r k : Nat) (g : BlockRegionInfo) (x : BlockRange) : Slot where
  device := d
  regionIndex := r
  rangeIndex := k
  usage := x.getBlockUsage
  baseAddress := g.blockAddress x.startBlock
  length := x.getBlockCount * g.bytesPerBlock
  blockLength := g.bytesPerBlock

/-- `BlockStorageStream`: the range it stands in, and what goes with it -/
structure Stream where
  slot : Slot
  currentIndex : Nat
  usage : Nat
  xip : Bool
  readModWrite : Bool
deriving DecidableEq, Repr

def isWanted (usage : Nat) (x : BlockRange) : Bool := x.getBlockUsage == usage || usage == ANY

/-- The inner loop of `FindNextUsageBlock`, over the ranges of a region from `j` on -/
def findRange (usage d i : Nat) (g : BlockRegionInfo) : List BlockRange → Nat → Option Slot
  | [], _ => none
  | x :: xs, j =>
      if isWanted usage x then some (slotAt d i j g x) else findRange usage d i g xs (j + 1)

/-- `FindNextUsageBlock`, over the regions from `i` on; the first one from its range `j` on -/
def findNextUsageBlock (usage d : Nat) : List BlockRegionInfo → Nat → Nat → Option Slot
  | [], _, _ => none
  | g :: gs, i, j =>
      match findRange usage d i g (g.blockRanges.drop j) j with
      | some slot => some slot
      | none => findNextUsageBlock usage d gs (i + 1) 0

/-- The flag for XIP when a stream goes to the first of the devices, if there is one -/
def xipFlag : Devices → Bool → Bool
  | [], xip => xip
  | dev :: _, _ => dev.supportsXIP

/-- The loop of `NextStream`, over the devices from `d` on; `xip` is the flag. -/
def nextFrom (usage : Nat) : Devices → Nat → Nat → Nat → Bool → Option (Slot × Bool)
  | [], _, _, _, _ => none
  | dev :: devs, d, i, j, xip =>
      match findNextUsageBlock usage d (dev.regions.drop i) i j with
      | some slot => some (slot, xip)
      | none => nextFrom usage devs (d + 1) 0 0 (xipFlag devs xip)

/-- How `PrevStream` ends; `outside`: it looks at the last region or range of an empty table. -/
inductive Back where
  | found (slot : Slot) (xip : Bool)
  | ended
  | outside
deriving DecidableEq, Repr

/-- `PrevStream` in the ranges of a region below `k` -/
def prevRange (usage d r : Nat) (g : BlockRegionInfo) : Nat → Option Slot
  | 0 => none
  | k + 1 =>
      match g.blockRanges[k]? with
      | none => none
      | some x =>
          if x.getBlockUsage = usage then some (slotAt d r k g x) else prevRange usage d r g k

/-- `PrevStream` in the regions of a device below `r` -/
def prevRegion (usage d : Nat) (dev : BlockStorageDevice) : Nat → Back
  | 0 => .ended
  | r + 1 =>
      match dev.regions[r]? with
      | none => .ended
      | some g =>
          if g.blockRanges = [] then .outside
          else
            match prevRange usage d r g g.blockRanges.length with
            | some slot => .found slot dev.supportsXIP
            | none => prevRegion usage d dev r

/-- `PrevStream` in the devices below `d` -/
def prevDevice (usage : Nat) (devices : Devices) : Nat → Back
  | 0 => .ended
  | d + 1 =>
      match devices[d]? with
      | none => .ended
      | some dev =>
          if dev.regions = [] then .outside
          else
            match prevRegion usage d dev dev.regions.length with
            | .ended => prevDevice usage devices d
            | back => back

namespace Stream

def enter (s : Stream) (slot : Slot) (xip : Bool) : Stream :=
  { s with slot := slot, currentIndex := 0, xip := xip }

def currentAddress (s : Stream) : Nat := s.slot.baseAddress + s.currentIndex

def nextStream (devices : Devices) (s : Stream) : Option Stream :=
  (nextFrom s.usage (devices.drop s.slot.device) s.slot.device s.slot.regionIndex
    (s.slot.rangeIndex + 1) s.xip).map fun n => s.enter n.1 n.2

/-- `PrevStream`; `none` when it reads outside of the tables -/
def prevStream (devices : Devices) (s : Stream) : Option (Option Stream) :=
  match devices[s.slot.device]? with
  | none => none
  | some dev =>
      match dev.regions[s.slot.regionIndex]? with
      | none => none
      | some g =>
          match prevRange s.usage s.slot.device s.slot.regionIndex g s.slot.rangeIndex with
          | some slot => some (some (s.enter slot dev.supportsXIP))
          | none =>
              match prevRegion s.usage s.slot.device dev s.slot.regionIndex with
              | .found slot xip => some (some (s.enter slot xip))
              | .outside => none
              | .ended =>
                  match prevDevice s.usage devices s.slot.device with
                  | .found slot xip => some (some (s.enter slot xip))
                  | .outside => none
                  | .ended => some none

/-! ### `Seek` -/

def STREAM_SEEK_NEXT_BLOCK : Int32 := 0x7FFFFFFF

def STREAM_SEEK_PREV_BLOCK : Int32 := 0x7FFFFFFE

end Stream

inductive SeekOrigin where
  | seekBegin
  | seekCurrent
  | seekEnd
deriving DecidableEq, Repr

namespace Stream

/-- The index that an offset counts from -/
def seekFrom (s : Stream) : SeekOrigin → Nat
  | .seekBegin => 0
  | .seekCurrent => s.currentIndex
  | .seekEnd => s.slot.length

/-- The offset, or the way to the next or the previous block boundary -/
def seekOffset (s : Stream) (offset : Int32) (origin : SeekOrigin) : Int :=
  if offset = STREAM_SEEK_NEXT_BLOCK ∨ offset = STREAM_SEEK_PREV_BLOCK then
    let blkOffset := s.seekFrom origin % s.slot.blockLength
    if offset = STREAM_SEEK_NEXT_BLOCK then int32 (s.slot.blockLength - blkOffset)
    else if blkOffset ≠ 0 then -blkOffset
    else -int32 s.slot.blockLength
  else offset.toInt

/-- The first loop of `Seek` -/
def seekForward (devices : Devices) : Nat → Stream → Int → Option (Stream × Int × Bool)
  | fuel, s, seekIndex =>
      if seekIndex ≥ int32 s.slot.length then
        match fuel with
        | 0 => none
        | fuel + 1 =>
            let seekIndex := int32 (seekIndex - s.slot.length)
            match s.nextStream devices with
            | none => some (s, seekIndex, false)
            | some s => seekForward devices fuel s seekIndex
      else some (s, seekIndex, true)

/-- The second loop of `Seek` -/
def seekBackward (devices : Devices) : Nat → Stream → Int → Option (Stream × Int × Bool)
  | fuel, s, seekIndex =>
      if seekIndex < 0 then
        match fuel with
        | 0 => none
        | fuel + 1 =>
            match s.prevStream devices with
            | none => none
            | some none => some (s, seekIndex, false)
            | some (some s) => seekBackward devices fuel s (int32 (seekIndex + s.slot.length))
      else some (s, seekIndex, true)

/-- As many ranges as the tables have -/
def rangeCount (devices : Devices) : Nat :=
  (devices.map fun dev => (dev.regions.map fun g => g.blockRanges.length).sum).sum

/-- `Seek`, from its loops on -/
def seekTo (devices : Devices) (s : Stream) (seekIndex : Int) : Option (Stream × Bool) :=
  match s.seekForward devices (rangeCount devices + 1) seekIndex with
  | none => none
  | some (s, _, false) => some (s, false)
  | some (s, seekIndex, true) =>
      match s.seekBackward devices (rangeCount devices + 1) seekIndex with
      | none => none
      | some (s, _, false) => some (s, false)
      | some (s, seekIndex, true) => some ({ s with currentIndex := uint32 seekIndex }, true)

def seek (devices : Devices) (s : Stream) (offset : Int32) (origin : SeekOrigin) :
    Option (Stream × Bool) :=
  s.seekTo devices (int32 (int32 (s.seekFrom origin) + s.seekOffset offset origin))

/-! ### `Write` and `Read` -/

/-- At the end of its range, a stream goes to the next one before it is used. -/
def ready (devices : Devices) (s : Stream) : Option Stream :=
  if s.currentIndex = s.slot.length then s.nextStream devices else some s

/-- How many of `length` bytes are in the range; the sum is one of 32 bits. -/
def chunk (s : Stream) (length : Nat) : Nat :=
  if (s.currentIndex + length) % 2 ^ 32 > s.slot.length then s.slot.length - s.currentIndex
  else length

def advance (s : Stream) (n : Nat) : Stream := { s with currentIndex := s.currentIndex + n }

def writeLoop (devices : Devices) : Nat → Stream → Memory → List UInt8 → List Bool →
    Option (Stream × Memory × Bool)
  | fuel, s, mem, data, answers =>
      if data.length = 0 then some (s, mem, true)
      else
        match fuel with
        | 0 => none
        | fuel + 1 =>
            match s.ready devices with
            | none => some (s, mem, false)
            | some s =>
                let writeLen := s.chunk data.length
                if answers.headD true then
                  writeLoop devices fuel (s.advance writeLen)
                    (devices.write s.slot.device s.readModWrite mem s.currentAddress
                      (data.take writeLen)) (data.drop writeLen) answers.tail
                else some (s, mem, false)

def write (devices : Devices) (s : Stream) (mem : Memory) (data : List UInt8) (answers : List Bool) :
    Option (Stream × Memory × Bool) :=
  s.writeLoop devices data.length mem data answers

end Stream

/-- A read: what is in the buffer, and where a device that supports XIP has the first byte -/
structure Reading where
  stream : Stream
  buffer : List UInt8
  start : Option Place
  answers : List Bool

namespace Stream

def readLoop (devices : Devices) (supportsXIP : Bool) (mem : Memory) : Nat → Reading → Nat →
    Option (Reading × Bool)
  | fuel, r, length =>
      if length = 0 then some (r, true)
      else
        match fuel with
        | 0 => none
        | fuel + 1 =>
            match r.stream.ready devices with
            | none => some (r, false)
            | some s =>
                let readLen := s.chunk length
                if supportsXIP then
                  let start := r.start.getD ⟨s.slot.device, s.currentAddress⟩
                  readLoop devices supportsXIP mem fuel
                    { r with stream := s.advance readLen, start := some start } (length - readLen)
                else if r.answers.headD true then
                  let moved := mem.read s.slot.device s.currentAddress readLen
                  readLoop devices supportsXIP mem fuel
                    ⟨s.advance readLen, r.buffer ++ moved, r.start, r.answers.tail⟩ (length - readLen)
                else some (⟨s, r.buffer, r.start, r.answers.tail⟩, false)

def read (devices : Devices) (s : Stream) (mem : Memory) (length : Nat) (answers : List Bool) :
    Option (Reading × Bool) :=
  match devices[s.slot.device]? with
  | none => none
  | some dev => readLoop devices dev.supportsXIP mem length ⟨s, [], none, answers⟩ length

def copyXIP (mem : Memory) (length : Nat) : Option Place → List UInt8
  | none => []
  | some p => mem.read p.device p.address length

def readIntoBuffer (devices : Devices) (s : Stream) (mem : Memory) (length : Nat)
    (answers : List Bool) : Option (Reading × Bool) :=
  match s.read devices mem length answers with
  | none => none
  | some (r, ok) =>
      if s.xip then
        some ({ r with buffer := if ok then copyXIP mem length r.start else [] }, ok)
      else some (r, ok)

/-! ### `Erase` and `IsErased` -/

/-- How `Erase` goes to the next block -/
def nextBlock (devices : Devices) (s : Stream) : Option (Option Stream) :=
  (s.seek devices STREAM_SEEK_NEXT_BLOCK .seekCurrent).map fun r =>
    if r.2 then some r.1 else r.1.nextStream devices

/-- The loop of `Erase`, with the way it goes to the next block: with the stream when it returns at
    once, or `none` for its end -/
def eraseLoop (devices : Devices) (next : Stream → Option (Option Stream)) : Nat → Stream → Memory →
    Int → List Bool → Option (Option Stream × Memory × Bool)
  | fuel, s, mem, len, answers =>
      if len > 0 then
        match fuel with
        | 0 => none
        | fuel + 1 =>
            if answers.headD true then
              let mem := devices.eraseBlock s.slot.device mem s.currentAddress
              let len := int32 (len - s.slot.blockLength)
              if len > 0 then
                match next s with
                | none => none
                | some none => some (none, mem, false)
                | some (some s) => eraseLoop devices next fuel s mem len answers.tail
              else some (none, mem, true)
            else some (some s, mem, false)
      else some (none, mem, true)

def erase (devices : Devices) (s : Stream) (mem : Memory) (length : UInt32) (answers : List Bool) :
    Option (Stream × Memory × Bool) :=
  match s.ready devices with
  | none => some (s, mem, false)
  | some s' =>
      match eraseLoop devices (nextBlock devices) length.toNat s' mem (int32 length.toNat) answers with
      | none => none
      | some (some s', mem, ok) => some (s', mem, ok)
      | some (none, mem, ok) => some (s, mem, ok)

/-- The loops of `IsErased` that read 512 bytes at a time; `none` when a read fails and bytes are
    compared that have not been read. -/
def readErased (devices : Devices) (mem : Memory) (compValue : UInt8) : Nat → Stream → Nat →
    List Bool → Option (Stream × List Bool × Bool)
  | fuel, s, rem, answers =>
      if rem = 0 then some (s, answers, true)
      else
        match fuel with
        | 0 => none
        | fuel + 1 =>
            let left := min rem 512
            match s.readIntoBuffer devices mem left answers with
            | none => none
            | some (_, false) => none
            | some (r, true) =>
                if r.buffer.all (· == compValue) then
                  readErased devices mem compValue fuel r.stream (rem - left) r.answers
                else some (r.stream, r.answers, false)

/-- The loop of `IsErased` over whole blocks -/
def blocksErased (devices : Devices) (mem : Memory) : Nat → Stream → Nat → Option (Stream × Nat × Bool)
  | fuel, s, len =>
      if len ≥ s.slot.blockLength then
        match fuel with
        | 0 => none
        | fuel + 1 =>
            if devices.isBlockErased s.slot.device mem s.currentAddress s.slot.blockLength then
              blocksErased devices mem fuel (s.advance s.slot.blockLength) (len - s.slot.blockLength)
            else some (s, len, false)
      else some (s, len, true)

/-- How much `IsErased` reads up to the next block boundary, and what is left behind it -/
def erasedHead (s : Stream) (length : Nat) : Nat × Nat :=
  let rem := s.currentIndex % s.slot.blockLength
  if rem ≠ 0 then
    if length > s.slot.blockLength then
      (s.slot.blockLength - rem, length - (s.slot.blockLength - rem))
    else (length, 0)
  else (0, length)

def isErased (devices : Devices) (s : Stream) (mem : Memory) (length : UInt32) (answers : List Bool) :
    Option (Stream × Bool) :=
  match devices[s.slot.device]? with
  | none => none
  | some dev =>
      let rem := (s.erasedHead length.toNat).1
      let len := (s.erasedHead length.toNat).2
      match readErased devices mem dev.erasedValue rem s rem answers with
      | none => none
      | some (s', _, false) => some (s', false)
      | some (s', answers, true) =>
          match blocksErased devices mem (len + 1) s' len with
          | none => none
          | some (s', _, false) => some (s', false)
          | some (s', len, true) =>
              -- `len > 0` of a signed `len`
              let left := if len < 2 ^ 31 then len else 0
              match readErased devices mem dev.erasedValue left s' left answers with
              | none => none
              | some (s', _, false) => some (s', false)
              | some (s', _, true) => some ({ s' with currentIndex := s.currentIndex }, true)

end Stream

end TinyClr.BlockStorage
