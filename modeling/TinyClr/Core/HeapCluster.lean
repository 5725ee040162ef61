import TinyClr.Core.HeapBlock
import Mathlib.Algebra.Ring.Nat

/-!
# Heap clusters

`CLR_RT_HeapCluster` (`CLR/Core/CLR_RT_HeapCluster.cpp`), `AllocateHeaps`' part in it
(`CLR/Core/Execution.cpp`), the event cache's `Append_Node` and `EventCache_Cleanup`
(`CLR/Core/Cache.cpp`) and `PrepareForRecovery` (`CLR/Core/HeapPersistence`).

Addresses are counted in heap blocks.  The free list is the list of its nodes' addresses; what
the blocks contain is left out.
-/

namespace TinyClr.Heap

/-! ### The cluster -/

/-- A cluster with the memory its payload lies in.  `events` are the blocks of this cluster in
    the lists of the event cache.  `relabelled` is not in the source: the blocks freed by
    `EventCache_Cleanup` since the free list was built. -/
structure HeapCluster where
  headers : Headers
  payloadStart : Nat
  payloadEnd : Nat
  freeList : List Nat
  events : List Nat
  relabelled : List Nat

/-! ### `ExtractBlocks` -/

/-- The block that is taken, and the free list after that: the last block that is large enough
    for an event, the first one for an object. -/
def HeapCluster.findBlock (hc : HeapCluster) (event : Bool) (length : Nat) : Option Nat :=
  if event then hc.freeList.reverse.find? fun ptr => length ≤ hc.headers.size ptr
  else hc.freeList.find? fun ptr => length ≤ hc.headers.size ptr

/-- `ExtractBlocks`: a block larger than asked for is split, for an event at its back, for an
    object at its front. -/
def HeapCluster.extractBlocks (hc : HeapCluster) (dataType : DataType) (flags : Flags)
    (length : Nat) : HeapCluster × Option Nat :=
  match hc.findBlock flags.event length with
  | none => (hc, none)
  | some res =>
      let available := hc.headers.size res - length
      if available ≠ 0 then
        if flags.event then
          let headers := hc.headers.set res (freeId available)
          let res := res + available
          ({ hc with headers := headers.set res (rawId dataType flags length) }, some res)
        else
          let ptr := res + length
          let headers := hc.headers.set ptr (freeId available)
          ({ hc with
              headers := headers.set res (rawId dataType flags length)
              freeList := hc.freeList.map fun a => if a = res then ptr else a }, some res)
      else
        ({ hc with
            headers := hc.headers.set res (rawId dataType flags length)
            freeList := hc.freeList.erase res }, some res)

/-! ### `RecoverFromGC` -/

/-- The run of dead blocks that starts at `next`: where it ends, and how long it is.  The first
    argument bounds the iterations. -/
def deadRun (headers : Headers) (payloadEnd : Nat) : Nat → Nat → Nat → Option (Nat × Nat)
  | 0, _, _ => none
  | fuel + 1, next, lenTot =>
      let len := headers.size next
      let next := next + len
      let lenTot := lenTot + len
      if next < payloadEnd ∧ (headers next).flags.alive = false then
        deadRun headers payloadEnd fuel next lenTot
      else some (next, lenTot)

/-- The loop of `RecoverFromGC`, with the free list up to `ptr`. -/
def recoverLoop (payloadEnd : Nat) :
    Nat → Nat → Headers → List Nat → Option (Headers × List Nat)
  | 0, _, _, _ => none
  | fuel + 1, ptr, headers, free =>
      if ptr < payloadEnd then
        if (headers ptr).flags.alive = false then do
          let (next, lenTot) ← deadRun headers payloadEnd (payloadEnd + 1) ptr 0
          recoverLoop payloadEnd fuel next (headers.set ptr (freeId lenTot)) (free ++ [ptr])
        else
          let headers :=
            if (headers ptr).flags.event then headers else headers.set ptr (headers ptr).markDead
          recoverLoop payloadEnd fuel (ptr + headers.size ptr) headers free
      else some (headers, free)

def HeapCluster.recoverFromGC (hc : HeapCluster) : Option HeapCluster := do
  let (headers, free) ← recoverLoop hc.payloadEnd (hc.payloadEnd + 1) hc.payloadStart hc.headers []
  some { hc with headers := headers, freeList := free, relabelled := [] }

/-- Marking, as far as this cluster sees it: the objects among `alive` become alive. -/
def HeapCluster.mark (hc : HeapCluster) (alive : List Nat) : HeapCluster :=
  { hc with
    headers := fun a =>
      if a ∈ alive ∧ (hc.headers a).dataType ≠ .freeblock then (hc.headers a).markAlive
      else hc.headers a }

/-! ### `InsertInOrder` -/

/-- Coalescing `size` blocks that end at `next` with the following free block: the size, and what
    is left of the list behind the node. -/
def coalesceFollowing (headers : Headers) (next size : Nat) : List Nat → Nat × List Nat
  | [] => (size, [])
  | ptr :: rest =>
      if next = ptr then (size + headers.size ptr, rest) else (size, ptr :: rest)

/-- Coalescing with the preceding free block: the node, its size, and what is left of the list in
    front of the node. -/
def coalescePreceding (headers : Headers) (node size : Nat) (before : List Nat) :
    Nat × Nat × List Nat :=
  match before.getLast? with
  | none => (node, size, before)
  | some ptr =>
      if ptr + headers.size ptr = node then (ptr, size + headers.size ptr, before.dropLast)
      else (node, size, before)

/-- `InsertInOrder( node, size )`, with the block it returns: the node goes in front of the first
    free block behind it, and is merged with its neighbours in the list where they touch it. -/
def HeapCluster.insertInOrder (hc : HeapCluster) (node size : Nat) : HeapCluster × Nat :=
  let before := hc.freeList.takeWhile fun ptr => ¬ ptr > node
  let behind := hc.freeList.dropWhile fun ptr => ¬ ptr > node
  let (size, behind) := coalesceFollowing hc.headers (node + size) size behind
  let (node, size, before) := coalescePreceding hc.headers node size before
  ({ hc with headers := hc.headers.set node (freeId size), freeList := before ++ node :: behind },
    node)

/-! ### The event cache -/

def HeapCluster.appendNode (hc : HeapCluster) (node : Nat) : HeapCluster :=
  { hc with
    headers := hc.headers.set node
      { hc.headers node with dataType := .cachedblock, flags := eventFlags }
    events := hc.events ++ [node] }

/-- `EventCache_Cleanup`: the blocks become free without being linked. -/
def HeapCluster.eventCacheCleanup (hc : HeapCluster) : HeapCluster :=
  { hc with
    headers := hc.events.foldl (fun headers ptr => headers.set ptr (freeId (headers.size ptr)))
      hc.headers
    events := []
    relabelled := hc.relabelled ++ hc.events }

/-! ### `HeapCluster_Initialize` -/

/-- What is left in memory at an address: a header, and what a weak reference or an array would
    have behind it. -/
structure Remains where
  header : Header
  targetSerialized : Bool
  surviveBoot : Bool
  typeOfElement : DataType
  fReference : UInt8
  sizeOfElement : UInt8
  numOfElements : UInt32

def sizeofHeapCluster : Nat := 32

/-- `CONVERTFROMSIZETOHEAPBLOCKS( sizeof(CLR_RT_HeapBlock_WeakReference) )` -/
def weakReferenceBlocks : Nat := 4

/-- `CONVERTFROMSIZETOHEAPBLOCKS( tot )` of an array, in 32 bits -/
def Remains.arrayBlocks (r : Remains) : Nat :=
  let tot : UInt32 := 20 + r.sizeOfElement.toUInt32 * r.numOfElements
  ((tot + 11) / 12).toNat

def Remains.kept (r : Remains) (ptr payloadEnd : Nat) : Bool :=
  if r.header.dataType = .weakclass then
    r.header.dataSize = weakReferenceBlocks && r.targetSerialized && r.surviveBoot
  else if r.header.dataType = .szarray then
    r.typeOfElement = .u1 && r.fReference = 0 && r.header.dataSize = r.arrayBlocks &&
      ptr + r.header.dataSize ≤ payloadEnd
  else false

/-- `PrepareForRecovery`; it returns `true`, so the loop behind it in `HeapCluster_Initialize` is
    not reached. -/
def prepareForRecovery (memory : Nat → Remains) (payloadEnd : Nat) :
    Nat → Nat → Nat → Headers → Option Headers
  | 0, _, _, _ => none
  | fuel + 1, ptr, blockSize, headers =>
      if ptr < payloadEnd then
        if (memory ptr).kept ptr payloadEnd then
          prepareForRecovery memory payloadEnd fuel (ptr + headers.size ptr) blockSize
            (headers.set ptr (headers ptr).markAlive)
        else
          let blockSize := if ptr + blockSize > payloadEnd then payloadEnd - ptr else blockSize
          prepareForRecovery memory payloadEnd fuel (ptr + blockSize) blockSize
            (headers.set ptr (rawId .freeblock {} blockSize))
      else some headers

/-- `HeapCluster_Initialize( size, blockSize )`, for a cluster in front of `payloadStart`. -/
def heapCluster_Initialize (memory : Nat → Remains) (payloadStart size blockSize : Nat) :
    Option HeapCluster := do
  let payloadEnd := payloadStart + (size - sizeofHeapCluster) / sizeofHeapBlock
  let headers ← prepareForRecovery memory payloadEnd (payloadEnd + 1) payloadStart blockSize
    fun a => (memory a).header
  HeapCluster.recoverFromGC
    { headers := headers, payloadStart := payloadStart, payloadEnd := payloadEnd, freeList := [],
      events := [], relabelled := [] }

/-- `AllocateHeaps`: the sizes, and the initial block sizes, of the clusters that are made from
    `heapFree` bytes.  The first argument bounds the iterations; `i` is a 32-bit integer. -/
def allocateHeaps : Nat → Nat → Int → Nat → List (Nat × Nat)
  | 0, _, _, _ => []
  | fuel + 1, heapFree, i, blockSize =>
      if heapFree > sizeofHeapCluster then
        let c_HeapClusterSize := sizeofHeapBlock * HB_MaxSize
        let size := if heapFree < c_HeapClusterSize then heapFree else c_HeapClusterSize
        let blockSize :=
          if i > 100 * 1024 * 1024 then HB_MaxSize
          else if i > 10 * 1024 * 1024 then 10 * 1024
          else if i > 1024 * 1024 then 1 * 1024
          else blockSize
        (size, blockSize) ::
          allocateHeaps fuel (heapFree - size) ((i + size).bmod (2 ^ 32)) blockSize
      else []

/-! ### Runs -/

inductive Op where
  | extractBlocks (dataType : DataType) (flags : Flags) (length : Nat)
  | insertInOrder (node size : Nat)
  | appendNode (node : Nat)
  | eventCacheCleanup
  /-- `RecoverFromGC`, after the marking has found `alive` -/
  | recoverFromGC (alive : List Nat)
deriving DecidableEq, Repr

def HeapCluster.step (hc : HeapCluster) : Op → Option (HeapCluster × Option Nat)
  | .extractBlocks dataType flags length => some (hc.extractBlocks dataType flags length)
  | .insertInOrder node size =>
      let inserted := hc.insertInOrder node size
      some (inserted.1, some inserted.2)
  | .appendNode node => some (hc.appendNode node, none)
  | .eventCacheCleanup => some (hc.eventCacheCleanup, none)
  | .recoverFromGC alive => do
      let recovered ← (hc.mark alive).recoverFromGC
      some (recovered, none)

end TinyClr.Heap
