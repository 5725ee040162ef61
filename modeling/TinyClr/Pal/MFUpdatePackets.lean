import TinyClr.Library.Bitmap
import TinyClr.Library.MachineInt
import TinyClr.Pal.MFUpdate

/-!
# The packets of an update that are missing

`MFUpdate_GetMissingPackets` (`DeviceCode/pal/MFUpdate/MFUpdate.cpp`).

`isErased` gives, for each package, `IsErased` of its storage.  The words from `pPacketBits` on are
a function of the index; the result is none when one is written through a null pointer.
-/

namespace TinyClr.MFUpdate

open TinyClr.Library

/-- `IsErased( handleStorage, fileOffset, len )` -/
abbrev IsErased (W : Type) := Int → Int → Int → W → Bool

/-- The locals of the loops; `pCount` is how far that pointer has been moved. -/
structure Scan where
  offset : Int
  pktSize : Int
  pCount : Nat
  pPacketBits : Option (Nat → BitVec 32)

/-- The body of the loops, for bit `i` of word `partIdx` -/
def scanPacket (isErased : Option (Int → Int → Bool)) (updateSize : Int) (partIdx i : Nat)
    (s : Scan) : Option Scan :=
  let pktSize :=
    if int32 (s.offset + s.pktSize) > updateSize then int32 (updateSize - s.offset) else s.pktSize
  let offset := int32 (s.offset + pktSize)
  let erased :=
    match isErased with
    | none => false
    | some isErased => isErased s.offset pktSize
  if erased then
    -- `*pCount++` moves the pointer, and not the count behind it
    some ⟨offset, pktSize, s.pCount + 1, s.pPacketBits.map fun bits => Bitmap.setBit bits partIdx i⟩
  else
    match s.pPacketBits with
    | none => none
    | some bits => some ⟨offset, pktSize, s.pCount, some (Bitmap.clearBit bits partIdx i)⟩

/-- The loop over the bits of a word, from bit `i` on with `n` to go -/
def scanWord (isErased : Option (Int → Int → Bool)) (updateSize : Int) (partIdx : Nat) :
    Nat → Nat → Scan → Option Scan
  | 0, _, s => some s
  | n + 1, i, s =>
      if s.offset < updateSize then do
        let s ← scanPacket isErased updateSize partIdx i s
        scanWord isErased updateSize partIdx n (i + 1) s
      else some s

/-- The loop over the words, from `partIdx` on with `n` to go -/
def scanWords (isErased : Option (Int → Int → Bool)) (updateSize : Int) :
    Nat → Nat → Scan → Option Scan
  | 0, _, s => some s
  | n + 1, partIdx, s =>
      if s.offset < updateSize then do
        let s ← scanWord isErased updateSize partIdx 32 0 s
        scanWords isErased updateSize n (partIdx + 1) s
      else some s

/-- What a call leaves: its value, the count and the words -/
structure Missing where
  result : Bool
  pCount : Option Int
  pPacketBits : Option (Nat → BitVec 32)

variable {W : Type}

def getMissingPackets (packages : List (Package W)) (isErased : Nat → Option (IsErased W))
    (s : System W) (updateHandle : Int) (pPacketBits : Option (Nat → BitVec 32))
    (pCount : Option Int) : Option Missing :=
  match pCount with
  | none => some ⟨false, pCount, pPacketBits⟩
  | some count =>
      match s.getUpdate updateHandle with
      | none => some ⟨false, pCount, pPacketBits⟩
      | some (_, update) =>
          let pktSize := int32 update.header.packetSize
          let updateSize := int32 update.header.updateSize
          let cnt := if pPacketBits.isNone then int32 (updateSize + 31) >>> (5 : Nat) else count
          match providersOf packages update with
          | none => none
          | some package =>
              if package.storage.isNone then some ⟨false, pCount, pPacketBits⟩
              else if !update.flags.authenticated then some ⟨false, pCount, pPacketBits⟩
              else do
                let isErased := (update.providers.bind isErased).map fun isErased offset len =>
                  isErased update.storageHandle offset len s.world
                let scanned ← scanWords isErased updateSize cnt.toNat 0
                  ⟨0, pktSize, 0, pPacketBits⟩
                -- the count is what it was set to before the loops
                some ⟨true, some 0, scanned.pPacketBits⟩

end TinyClr.MFUpdate
