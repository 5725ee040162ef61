import TinyClr.Core.DataType

/-!
# Heap blocks

The header every heap block starts with (`CLR/Include/TinyCLR_Runtime__HeapBlock.h`): its data
type, its flags and its size in blocks.  Without application domains.
-/

namespace TinyClr.Heap

/-- `HB_*`, the eight flags of a header -/
structure Flags where
  alive : Bool := false
  keepAlive : Bool := false
  event : Bool := false
  pinned : Bool := false
  boxed : Bool := false
  unused20 : Bool := false
  signaled : Bool := false
  signalAutoReset : Bool := false
deriving DecidableEq, Repr

/-- `CLR_RT_HeapBlock_Id` -/
structure Header where
  dataType : DataType
  flags : Flags
  dataSize : Nat
deriving DecidableEq, Repr

/-- `CLR_RT_HEAPBLOCK_RAW_ID`: the size goes into 16 bits. -/
def rawId (dataType : DataType) (flags : Flags) (size : Nat) : Header :=
  { dataType := dataType, flags := flags, dataSize := size % (HB_MaxSize + 1) }

def Header.markAlive (hb : Header) : Header := { hb with flags := { hb.flags with alive := true } }

def Header.markDead (hb : Header) : Header := { hb with flags := { hb.flags with alive := false } }

def freeId (size : Nat) : Header := rawId .freeblock { pinned := true } size

/-- The flags of a block that belongs to the event cache -/
def eventFlags : Flags := { alive := true, event := true }

/-- Memory, as far as headers go -/
abbrev Headers := Nat → Header

def Headers.set (hbs : Headers) (ptr : Nat) (id : Header) : Headers :=
  fun a => if a = ptr then id else hbs a

/-- The sizes, as they are found in memory -/
def Headers.size (hbs : Headers) (ptr : Nat) : Nat := (hbs ptr).dataSize

theorem rawId_dataSize {dataType : DataType} {flags : Flags} {size : Nat}
    (h : size ≤ HB_MaxSize) : (rawId dataType flags size).dataSize = size :=
  Nat.mod_eq_of_lt (Nat.lt_succ_of_le h)

@[simp] theorem Headers.set_self (hbs : Headers) (ptr : Nat) (id : Header) :
    hbs.set ptr id ptr = id := if_pos rfl

theorem Headers.set_of_ne (hbs : Headers) {ptr a : Nat} (id : Header) (h : a ≠ ptr) :
    hbs.set ptr id a = hbs a := if_neg h

@[simp] theorem Header.markDead_dataSize (hb : Header) : hb.markDead.dataSize = hb.dataSize := rfl

@[simp] theorem Header.markAlive_dataSize (hb : Header) : hb.markAlive.dataSize = hb.dataSize :=
  rfl

end TinyClr.Heap
