import TinyClr.Library.MachineInt
import TinyClr.Pal.BlockStorageStream

/-!
# Sectors that have not been verified

`BitFieldManager` of the boot loader (`Application/TinyBooter/Commands.cpp`) on one storage device,
and `FindRegionFromAddress` (`DeviceCode/pal/BlockStorage/blockstoragelist.cpp`).

Of the device's content there is the array `SignatureCheck` in the block with the configuration, and
the addresses that have been given to `EraseBlock` and not been written again behind it.  What is
written stays: `Write` clears bits of the array, or follows `EraseBlock`.  `private_malloc` always
finds memory.
-/

namespace TinyClr.TinyBooter

open TinyClr.Library TinyClr.BlockStorage

/-! ### Bit fields -/

def BITS_PER_UINT32 : Nat := 32

def c_MaxSectorCount : Nat := 287

def c_MaxFieldUnits : Nat := (c_MaxSectorCount + 1) / 32

def c_MaxSignatureCount : Nat := 8

abbrev SectorBitField := Fin c_MaxFieldUnits → UInt32

def lastUnit : Fin c_MaxFieldUnits := ⟨c_MaxFieldUnits - 1, by decide⟩

def firstField : Fin c_MaxSignatureCount := ⟨0, by decide⟩

def bit (j : Nat) : UInt32 := 1 <<< UInt32.ofNat j

def TINYBOOTER_SECTOR_BITFIELD_VALID_BIT : UInt32 := bit (BITS_PER_UINT32 - 1)

namespace SectorBitField

variable (f : SectorBitField)

def isValid : Bool :=
  TINYBOOTER_SECTOR_BITFIELD_VALID_BIT == f lastUnit &&& TINYBOOTER_SECTOR_BITFIELD_VALID_BIT

/-- A zero bit stands for a dirty sector. -/
def isDirty (i : Fin c_MaxFieldUnits) (j : Nat) : Bool := 0 == f i &&& bit j

def setDirty (sectorIndex : Nat) : SectorBitField := fun i =>
  if i.val = sectorIndex / BITS_PER_UINT32 then f i &&& ~~~ bit (sectorIndex % BITS_PER_UINT32)
  else f i

end SectorBitField

/-- A field of `0xFF` bytes -/
def unused : SectorBitField := fun _ => 0xFFFFFFFF

/-! ### `FindRegionFromAddress` -/

def findRangeFromAddress (g : BlockRegionInfo) (address : Nat) : List BlockRange → Nat → Nat →
    Option Nat
  | [], _, _ => none
  | x :: xs, endRangeAddr, j =>
      let endRangeAddr := uint32 (endRangeAddr + g.bytesPerBlock * x.getBlockCount : Nat)
      if address < endRangeAddr then some j else findRangeFromAddress g address xs endRangeAddr (j + 1)

/-- The index of a region and of a range in it; a region without ranges has no first one, whose
    `StartBlock` is read and not used then. -/
def findRegionFromAddress (address : Nat) : List BlockRegionInfo → Nat → Option (Nat × Nat)
  | [], _ => none
  | g :: gs, i =>
      if g.start ≤ address ∧ address < g.start + g.size then
        let startBlock := (g.blockRanges.head?.map BlockRange.startBlock).getD 0
        match findRangeFromAddress g address g.blockRanges
            (uint32 (g.start + g.bytesPerBlock * startBlock : Nat)) 0 with
        | some j => some (i, j)
        | none => findRegionFromAddress address gs (i + 1)
      else findRegionFromAddress address gs (i + 1)

/-! ### `BitFieldManager` -/

def CONFIG : Nat := 0x30

/-- What `m_signatureCheck` points to: the copy in the manager, or a field of the array -/
inductive SignatureCheck where
  | skipCfgSectorCheck
  | field (i : Fin c_MaxSignatureCount)

structure BitFieldManager where
  m_signatureCheck : Option SignatureCheck
  m_skipCfgSectorCheck : SectorBitField
  m_fSignatureCheckDirty : Bool
  m_cfgPhysicalAddress : Nat
  m_fUsingRAM : Bool

/-- The manager and what the device holds -/
structure State extends BitFieldManager where
  signatureCheck : Fin c_MaxSignatureCount → SectorBitField
  erased : List Nat

def firstValid (fields : Fin c_MaxSignatureCount → SectorBitField) :
    Option (Fin c_MaxSignatureCount) :=
  (List.finRange c_MaxSignatureCount).find? fun i => (fields i).isValid

namespace State

variable (dev : BlockStorageDevice) (s : State)

def resetBitFieldManager : State :=
  { s with
    m_signatureCheck := none
    m_fSignatureCheckDirty := false
    m_cfgPhysicalAddress := 0
    m_fUsingRAM := false }

/-- `ResetSignatureCheckArray`: the block with the configuration is read, erased, and written with
    the array reset. -/
def resetSignatureCheckArray : State :=
  if s.m_fUsingRAM then
    { s with
      m_skipCfgSectorCheck := unused
      m_signatureCheck := some .skipCfgSectorCheck }
  else { s with signatureCheck := fun _ => unused }

/-- `SetDirtySectorBit`; `none`: `m_signatureCheck` does not point to where it writes. -/
def setDirtySectorBit (sectorIndex : Nat) : Option State :=
  if sectorIndex > c_MaxSectorCount then some s
  else if s.m_fUsingRAM then
    match s.m_signatureCheck with
    | some .skipCfgSectorCheck =>
        some { s with
          m_skipCfgSectorCheck := s.m_skipCfgSectorCheck.setDirty sectorIndex
          m_fSignatureCheckDirty := true }
    | _ => none
  else
    let s := { s with m_fSignatureCheckDirty := true }
    if dev.supportsXIP then
      match s.m_signatureCheck with
      | some (.field i) =>
          some { s with
            signatureCheck :=
              Function.update s.signatureCheck i ((s.signatureCheck i).setDirty sectorIndex) }
      | _ => none
    else
      match firstValid s.signatureCheck with
      | some i =>
          some { s with
            signatureCheck :=
              Function.update s.signatureCheck i ((s.signatureCheck i).setDirty sectorIndex) }
      | none => some s

/-- `GetNextSectorSignatureCheck`; `none`: it returns without a bit field. -/
def getNextSectorSignatureCheck : Option (State × SectorBitField) :=
  match findNextUsageBlock CONFIG 0 dev.regions 0 0 with
  | none =>
      some ({ s with
        m_skipCfgSectorCheck := unused
        m_signatureCheck := some .skipCfgSectorCheck
        m_fUsingRAM := true
        m_cfgPhysicalAddress := 0 }, unused)
  | some slot =>
      let s := { s with m_cfgPhysicalAddress := slot.baseAddress }
      match findRegionFromAddress slot.baseAddress dev.regions 0 with
      | none => none
      | some _ =>
          let s := { s with m_fUsingRAM := false }
          if dev.supportsXIP then
            match firstValid s.signatureCheck with
            | some i =>
                some ({ s with m_signatureCheck := some (.field i) }, s.signatureCheck i)
            | none =>
                let s := s.resetSignatureCheckArray
                some ({ s with m_signatureCheck := some (.field firstField) },
                  s.signatureCheck firstField)
          else
            match firstValid s.signatureCheck with
            | some i =>
                some ({ s with
                  m_skipCfgSectorCheck := s.signatureCheck i
                  m_signatureCheck := some .skipCfgSectorCheck }, s.signatureCheck i)
            | none =>
                let s := { s with m_skipCfgSectorCheck := unused }.resetSignatureCheckArray
                some ({ s with m_signatureCheck := some .skipCfgSectorCheck },
                  s.m_skipCfgSectorCheck)

def invalidateSectorBitField : Option State :=
  if s.m_fSignatureCheckDirty then
    (s.setDirtySectorBit dev c_MaxSectorCount).bind fun s =>
      (s.getNextSectorSignatureCheck dev).map fun next =>
        { next.1 with m_fSignatureCheckDirty := false }
  else some s

/-- `EraseBlock` of the block that holds an address; it may be the block with the array. -/
def eraseBlock (address : Nat) : State :=
  let erasedUnit : UInt32 := if dev.erasedBitsAreZero then 0 else 0xFFFFFFFF
  let config := findNextUsageBlock CONFIG 0 dev.regions 0 0
  { s with
    erased := s.erased ++ [address]
    signatureCheck :=
      if config.bind (fun slot => dev.findBlock slot.baseAddress) = dev.findBlock address then
        fun _ _ => erasedUnit
      else s.signatureCheck }

end State

/-! ### `EraseOnSignatureCheckFail` -/

/-- The variables that are kept from one dirty sector to the next -/
structure Walk where
  iRegion : Nat
  iRange : Nat
  iAbsBlock : Int

/-- The inner loop, over the ranges of a region from `iRange` on; `none`: it reads behind them. -/
def searchRanges (blockIndex : Nat) : List BlockRange → Nat → Int → Option (Nat × Int × Bool)
  | [], _, _ => none
  | x :: xs, iRange, iAbsBlock =>
      let rangeBlocks := int32 x.getBlockCount
      if iAbsBlock ≤ blockIndex ∧ blockIndex ≤ int32 (iAbsBlock + rangeBlocks) then
        some (iRange, iAbsBlock, true)
      else if xs = [] then some (iRange + 1, int32 (iAbsBlock + rangeBlocks), false)
      else searchRanges blockIndex xs (iRange + 1) (int32 (iAbsBlock + rangeBlocks))

/-- The outer loop, over the regions from `pRegion` on, with the address to be erased.  `pRegion`
    stays at the last region when there is no other one. -/
def searchRegions (blockIndex : Nat) : List BlockRegionInfo → Walk → Option (Walk × Option Nat)
  | [], _ => none
  | g :: gs, w =>
      match searchRanges blockIndex (g.blockRanges.drop w.iRange) w.iRange w.iAbsBlock with
      | none => none
      | some (iRange, iAbsBlock, true) =>
          some (⟨w.iRegion, iRange, iAbsBlock⟩, some (g.blockAddress (blockIndex - iAbsBlock).toNat))
      | some (iRange, iAbsBlock, false) =>
          if gs = [] then some (⟨w.iRegion, iRange, iAbsBlock⟩, none)
          else searchRegions blockIndex gs ⟨w.iRegion + 1, iRange, iAbsBlock⟩

section Erase

variable (dev : BlockStorageDevice)

def search (w : Walk) (blockIndex : Nat) : Option (Walk × Option Nat) :=
  searchRegions blockIndex (dev.regions.drop w.iRegion) w

def eraseSector (f : SectorBitField) (i : Fin c_MaxFieldUnits) (s : State × Walk) (j : Nat) :
    Option (State × Walk) :=
  if f.isDirty i j then
    match search dev s.2 (i.val * BITS_PER_UINT32 + j) with
    | none => none
    | some (w, none) => some (s.1, w)
    | some (w, some eraseAddress) => some (s.1.eraseBlock dev eraseAddress, w)
  else some s

def eraseUnit (f : SectorBitField) (s : State × Walk) (i : Fin c_MaxFieldUnits) :
    Option (State × Walk) :=
  if f i ≠ 0xFFFFFFFF then
    (List.range BITS_PER_UINT32).foldlM (eraseSector dev f i)
      ({ s.1 with m_fSignatureCheckDirty := true }, s.2)
  else some s

def eraseOnSignatureCheckFail (s : State) : Option State :=
  (s.resetBitFieldManager.getNextSectorSignatureCheck dev).bind fun next =>
    ((List.finRange c_MaxFieldUnits).foldlM (eraseUnit dev next.2) (next.1, ⟨0, 0, 0⟩)).bind
      fun s => s.1.invalidateSectorBitField dev

end Erase

end TinyClr.TinyBooter
