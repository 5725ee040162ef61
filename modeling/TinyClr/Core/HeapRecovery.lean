import TinyClr.Core.HeapBlock
import TinyClr.Library.Tiling
import TinyClr.Support.Crc

/-!
# Recovery of the heap after a reset

`PrepareForRecovery`, `RecoverObjects` and `InsertInPriorityOrder` of
`CLR_RT_HeapBlock_WeakReference`, and `ComputeCRC` of its identity
(`CLR/Core/HeapPersistence/Heap_Persistence.cpp`).

Memory is made of words of 32 bits, and a pointer is the number of the word it points to; a heap
block is three words.  What memory contains is arbitrary, also behind the range that is recovered.
-/

namespace TinyClr.Recovery

open TinyClr.Library TinyClr.Support

abbrev Words := Nat → UInt32

def Words.set (words : Words) (i : Nat) (value : UInt32) : Words :=
  Function.update words i value

/-! ### Headers -/

def DATATYPE_SZARRAY : Nat := 19

def DATATYPE_FREEBLOCK : Nat := 21

def DATATYPE_WEAKCLASS : Nat := 24

def dataType (id : UInt32) : Nat := id.toNat % 256

def dataSize (id : UInt32) : Nat := id.toNat / 2 ^ 16

def markAlive (id : UInt32) : UInt32 := id ||| 0x100

def changeDataType (id : UInt32) (dt : Nat) : UInt32 := .ofNat (id.toNat / 256 * 256 + dt % 256)

def freeBlockId (size : Nat) : UInt32 := .ofNat (DATATYPE_FREEBLOCK + size * 2 ^ 16)

/-- `ptr + size`, for a size in heap blocks; the addresses of bytes have 32 bits. -/
def advance (ptr size : Nat) : Nat := (ptr + 3 * size) % 2 ^ 30

def address (ptr : Nat) : UInt32 := .ofNat (4 * ptr)

/-! ### `PrepareForRecovery` -/

def WR_SurviveBoot : UInt32 := 0x00000001

def WR_Persisted : UInt32 := 0x20000000

def WR_Restored : UInt32 := 0x40000000

def WR_ExtendedType : UInt32 := 0x80000000

/-- `CONVERTFROMSIZETOHEAPBLOCKS( sizeof(CLR_RT_HeapBlock_WeakReference) )` -/
def weakReferenceBlocks : Nat := 4

/-- `CONVERTFROMSIZETOHEAPBLOCKS( tot )` of the array at `ptr`, in 32 bits -/
def arrayBlocks (words : Words) (ptr : Nat) : Nat :=
  let m_sizeOfElement : UInt32 := words (ptr + 4) >>> 8 &&& 0xFF
  let tot := 20 + m_sizeOfElement * words (ptr + 3)
  ((tot + 11) / 12).toNat

def KeptWeak (words : Words) (ptr : Nat) : Prop :=
  dataType (words ptr) = DATATYPE_WEAKCLASS ∧
    dataSize (words ptr) = weakReferenceBlocks ∧ words (ptr + 10) ≠ 0 ∧
    words (ptr + 4) &&& WR_SurviveBoot ≠ 0

def KeptArray (words : Words) (stop ptr : Nat) : Prop :=
  dataType (words ptr) = DATATYPE_SZARRAY ∧
    (words (ptr + 4) &&& 0xFF = 3 ∧ words (ptr + 4) >>> 16 &&& 0xFF = 0) ∧
    dataSize (words ptr) = arrayBlocks words ptr ∧ advance ptr (dataSize (words ptr)) ≤ stop

instance (words : Words) (ptr : Nat) : Decidable (KeptWeak words ptr) :=
  inferInstanceAs (Decidable (_ ∧ _ ∧ _ ∧ _))

instance (words : Words) (stop ptr : Nat) : Decidable (KeptArray words stop ptr) :=
  inferInstanceAs (Decidable (_ ∧ _ ∧ _ ∧ _))

/-- What is written to a weak reference that stays -/
def keepWeak (words : Words) (ptr : Nat) : Words :=
  ((((words.set (ptr + 1) 0).set (ptr + 2) 0).set (ptr + 4)
    (words (ptr + 4) &&& ~~~WR_Persisted)).set (ptr + 9) 0).set ptr (markAlive (words ptr))

def clip (stop blockSize ptr : Nat) : Nat :=
  if advance ptr blockSize > stop then (stop - ptr) / 3 else blockSize

/-- `PrepareForRecovery( ptr, end, blockSize )`; it always returns `true`.  The first argument
    bounds the iterations. -/
def prepareForRecovery (stop : Nat) : Nat → Words → Nat → Nat → Option Words
  | 0, _, _, _ => none
  | fuel + 1, words, ptr, blockSize =>
      if ptr < stop then
        if KeptWeak words ptr then
          prepareForRecovery stop fuel (keepWeak words ptr) (advance ptr (dataSize (words ptr)))
            blockSize
        else if KeptArray words stop ptr then
          prepareForRecovery stop fuel (words.set ptr (markAlive (words ptr)))
            (advance ptr (dataSize (words ptr))) blockSize
        else
          let blockSize := clip stop blockSize ptr
          prepareForRecovery stop fuel (words.set ptr (freeBlockId blockSize))
            (advance ptr blockSize) blockSize
      else some words

/-! ### `InsertInPriorityOrder` -/

/-- A cluster's `m_payloadStart` and `m_payloadEnd` -/
abbrev Payload := Nat × Nat

/-- The memory of the clusters and the engine's list `m_weakReferences`.  The nodes `Head()` and
    `Tail()` of the list overlap the engine's own fields. -/
structure Engine where
  lstHeap : List Payload
  words : Words
  m_weakReferences : List Nat
  head : Nat
  tail : Nat

namespace Engine

/-- A word lies in the heap. -/
def InHeap (e : Engine) (i : Nat) : Prop := ∃ hc ∈ e.lstHeap, hc.1 ≤ i ∧ i < hc.2

instance (e : Engine) (i : Nat) : Decidable (e.InHeap i) :=
  inferInstanceAs (Decidable (∃ hc ∈ e.lstHeap, _))

def load (e : Engine) (i : Nat) : Option UInt32 :=
  if e.InHeap i then some (e.words i) else none

def store (e : Engine) (i : Nat) (value : UInt32) : Option Engine :=
  if e.InHeap i then some { e with words := e.words.set i value } else none

/-- A store to the link of a node; the links of `Head()` and `Tail()` are the ends of the list. -/
def storeLink (e : Engine) (node offset : Nat) (value : UInt32) : Option Engine :=
  if node = e.head ∨ node = e.tail then some e else e.store (node + offset) value

def loadBytes (e : Engine) (ptr length : Nat) : Option (List UInt8) :=
  (List.range length).mapM fun i => do
    let word ← e.load (ptr + i / 4)
    some (.ofNat (word.toNat / 2 ^ (8 * (i % 4))))

def unlink (e : Engine) (node : Nat) : Option Engine := do
  let prev ← e.load (node + 2)
  let next ← e.load (node + 1)
  let e ← if prev = 0 then some e else e.storeLink (prev.toNat / 4) 1 next
  let e ← if next = 0 then some e else e.storeLink (next.toNat / 4) 2 prev
  let e ← e.store (node + 2) 0
  let e ← e.store (node + 1) 0
  some { e with m_weakReferences := e.m_weakReferences.erase node }

/-- The number of nodes in front of the first one that does not come before `pri` -/
def countBefore (e : Engine) (pri : Int) : List Nat → Option Nat
  | [] => some 0
  | ptr :: rest => do
      let m_priority ← e.load (ptr + 8)
      if int32 m_priority.toNat ≤ pri then some 0
      else (e.countBefore pri rest).map (· + 1)

/-- `Insert( prev, next, node )`, with `k` nodes in front of the new one -/
def insert (e : Engine) (k node : Nat) : Option Engine := do
  let prev := (e.m_weakReferences.take k).getLast?.getD e.head
  let next := (e.m_weakReferences.drop k).head?.getD e.tail
  let e ← e.store (node + 1) (address next)
  let e ← e.store (node + 2) (address prev)
  let e ← e.storeLink next 2 (address node)
  let e ← e.storeLink prev 1 (address node)
  some { e with m_weakReferences :=
    e.m_weakReferences.take k ++ node :: e.m_weakReferences.drop k }

def insertInPriorityOrder (e : Engine) (weak : Nat) : Option Engine := do
  let e ← e.unlink weak
  let m_flags ← e.load (weak + 4)
  if m_flags &&& WR_ExtendedType ≠ 0 then
    let pri ← e.load (weak + 8)
    let k ← e.countBefore (int32 pri.toNat) e.m_weakReferences
    e.insert k weak
  else e.insert e.m_weakReferences.length weak

/-! ### `RecoverObjects` -/

/-- `m_identity.ComputeCRC( ptr, len )`, with the CRC `g_buildCRC` of the build -/
def computeCRC (e : Engine) (g_buildCRC : UInt32) (weak ptr : Nat) (len : UInt32) :
    Option UInt32 := do
  let bytes ← e.loadBytes ptr (int32 len.toNat).toNat
  let m_selectorHash ← e.loadBytes (weak + 6) 4
  let m_id ← e.loadBytes (weak + 7) 4
  some (Support.computeCRC m_id 4 (Support.computeCRC m_selectorHash 4
    (Support.computeCRC bytes len.toNat g_buildCRC)))

/-- The walk to `target`: where it is found.  The first argument bounds the iterations. -/
def walkTo (e : Engine) (target : UInt32) : Nat → Payload → Option (Option Nat)
  | 0, _ => none
  | fuel + 1, (ptr2, end2) =>
      if ptr2 < end2 then
        if address ptr2 = target then some (some ptr2)
        else do
          let id ← e.load ptr2
          e.walkTo target fuel (advance ptr2 (dataSize id), end2)
      else some none

/-- Whether the array at `ptr2` is what the weak reference remembers -/
def remembers (e : Engine) (g_buildCRC : UInt32) (weak ptr2 : Nat) : Option Bool := do
  let m_numOfElements ← e.load (ptr2 + 3)
  let m_length ← e.load (weak + 5)
  if m_numOfElements = m_length then
    let m_crc ← e.load (weak + 3)
    let crc ← e.computeCRC g_buildCRC weak (ptr2 + 5) m_length
    some (m_crc = crc)
  else some false

/-- The loop over the clusters that may contain the target -/
def hasTarget (e : Engine) (g_buildCRC : UInt32) (fuel weak : Nat) (target : UInt32) :
    List Payload → Option Bool
  | [] => some false
  | hc2 :: rest =>
      if (address hc2.1).toNat ≤ target.toNat ∧ target.toNat < (address hc2.2).toNat then
        (e.walkTo target fuel hc2).bind fun found =>
          match found with
          | some ptr2 => e.remembers g_buildCRC weak ptr2
          | none => e.hasTarget g_buildCRC fuel weak target rest
      else e.hasTarget g_buildCRC fuel weak target rest

/-- What becomes of one weak reference -/
def recoverWeak (e : Engine) (g_buildCRC : UInt32) (fuel weak : Nat) : Option Engine := do
  let target ← e.load (weak + 10)
  let restored ← e.hasTarget g_buildCRC fuel weak target e.lstHeap
  if restored then
    let m_flags ← e.load (weak + 4)
    let e ← e.store (weak + 4) (m_flags ||| WR_Restored)
    e.insertInPriorityOrder weak
  else
    let id ← e.load weak
    e.store weak (changeDataType id DATATYPE_FREEBLOCK)

def recoverBlock (e : Engine) (g_buildCRC : UInt32) (fuel ptr : Nat) : Option Engine := do
  let id ← e.load ptr
  if dataType id = DATATYPE_WEAKCLASS then e.recoverWeak g_buildCRC fuel ptr else some e

def recoverCluster (g_buildCRC : UInt32) : Nat → Engine → Payload → Option Engine
  | 0, _, _ => none
  | fuel + 1, e, (ptr, stop) =>
      if ptr < stop then do
        let e ← e.recoverBlock g_buildCRC (fuel + 1) ptr
        let id ← e.load ptr
        recoverCluster g_buildCRC fuel e (advance ptr (dataSize id), stop)
      else some e

/-- `RecoverObjects( lstHeap )`: `none` when memory outside the heap is touched, or when a loop
    takes more rounds than the first argument allows. -/
def recoverObjects (e : Engine) (g_buildCRC : UInt32) (fuel : Nat) : Option Engine :=
  e.lstHeap.foldlM (recoverCluster g_buildCRC fuel) e

end Engine

end TinyClr.Recovery
