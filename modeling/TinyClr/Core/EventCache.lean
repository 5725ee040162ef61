import TinyClr.Core.HeapCluster
import TinyClr.Library.BlockStore
import Mathlib.Logic.Function.Basic

/-!
# The event cache

`CLR_RT_EventCache` (`CLR/Core/Cache.cpp`) over the clusters of `m_heap`, with what it reaches of
`ExtractHeapBlocksForEvents`, `ExtractHeapBlocks` (`CLR/Core/Execution.cpp`) and
`ExecuteGarbageCollection` (`CLR/Core/GarbageCollector.cpp`).

A list of nodes is the list of their addresses.  The clusters' own `events` stay empty here: the
lists of the cache, in their order, are `m_events`.  The contents of the blocks are left out, and
with them `HB_InitializeToZero`; so are `m_lastHcUsed`, which events do not use, and the requests
the collector itself makes.
-/

namespace TinyClr.Heap

open TinyClr.Library

abbrev Ptr := Nat × Nat

def c_maxFastLists : Nat := 40

/-- The cache with the heap under it.  The last three are not in the source: the blocks that are
    extracted and not yet appended, the blocks taken from the heap, and the blocks freed by
    `EventCache_Cleanup`, each with its size. -/
structure EventCache where
  m_heap : List Nat
  clusters : Nat → HeapCluster
  m_events : Nat → List Ptr
  extracted : List (Block Nat)
  taken : List (Block Nat)
  freed : List (Block Nat)

def EventCache.eventCacheInitialize (m_heap : List Nat) (clusters : Nat → HeapCluster) :
    EventCache :=
  { m_heap := m_heap, clusters := clusters, m_events := fun _ => [], extracted := [], taken := [],
    freed := [] }

/-- The flags of a request, with the two that are not part of a header -/
structure RequestFlags where
  header : Flags := {}
  noGcOnFailure : Bool := false
  specialGCAllocation : Bool := false
deriving DecidableEq, Repr

def RequestFlags.noGcOnFailedAllocation (flags : RequestFlags) : Bool :=
  flags.specialGCAllocation || flags.noGcOnFailure

/-- What a collection depends on besides the cache: the objects its marking finds, and the nodes
    `RecoverEventsFromGC` gives back. -/
structure Collection where
  alive : List Ptr
  released : List Ptr
deriving DecidableEq, Repr

def Collection.aliveIn (gc : Collection) (c : Nat) : List Nat :=
  (gc.alive.filter fun ptr => ptr.1 = c).map Prod.snd

namespace EventCache

/-! ### Headers and lists -/

def header (s : EventCache) (ptr : Ptr) : Header := (s.clusters ptr.1).headers ptr.2

def dataSize (s : EventCache) (ptr : Ptr) : Nat := (s.header ptr).dataSize

def setCluster (s : EventCache) (c : Nat) (hc : HeapCluster) : EventCache :=
  { s with clusters := Function.update s.clusters c hc }

/-- `SetDataId`, `ChangeDataType`, `ChangeDataFlags` -/
def setDataId (s : EventCache) (ptr : Ptr) (id : Header) : EventCache :=
  let hc := s.clusters ptr.1
  s.setCluster ptr.1 { hc with headers := hc.headers.set ptr.2 id }

def linkAtBack (s : EventCache) (i : Nat) (ptr : Ptr) : EventCache :=
  { s with m_events := Function.update s.m_events i (s.m_events i ++ [ptr]) }

/-- `Unlink`, from the list the node is in -/
def unlink (s : EventCache) (i : Nat) (ptr : Ptr) : EventCache :=
  { s with m_events := Function.update s.m_events i ((s.m_events i).erase ptr) }

/-! ### `Append_Node` -/

def listOf (blocks : Nat) : Nat := if blocks < c_maxFastLists then blocks else 0

def appendNode (s : EventCache) (node : Ptr) : EventCache :=
  let blocks := s.dataSize node
  let id : Header := { s.header node with dataType := .cachedblock, flags := eventFlags }
  (s.setDataId node id).linkAtBack (listOf blocks) node

/-- `Append_Node`, called with a block that is extracted -/
def giveBack (s : EventCache) (node : Ptr) : EventCache :=
  { s.appendNode node with extracted := s.extracted.eraseP fun b => b.1 = node }

/-! ### `EventCache_Cleanup` -/

/-- The body of the inner loop: the block becomes free, and is not linked. -/
def freeNode (s : EventCache) (ptr : Ptr) : EventCache :=
  let hc := s.clusters ptr.1
  let size := s.dataSize ptr
  { s.setCluster ptr.1
      { hc with
        headers := hc.headers.set ptr.2 (freeId size)
        relabelled := hc.relabelled ++ [ptr.2] } with
    freed := (ptr, size) :: s.freed }

/-- The inner loop, with the sum of the sizes -/
def freeNodes : List Ptr → EventCache × UInt32 → EventCache × UInt32
  | [], r => r
  | ptr :: rest, (s, tot) =>
      let s := s.freeNode ptr
      freeNodes rest (s, tot + UInt32.ofNat (s.dataSize ptr))

/-- The outer loop, over the lists that are left -/
def cleanupLists : List Nat → EventCache × UInt32 → EventCache × UInt32
  | [], r => r
  | i :: rest, (s, tot) =>
      let (s, tot) := freeNodes (s.m_events i) (s, tot)
      cleanupLists rest ({ s with m_events := Function.update s.m_events i [] }, tot)

def eventCacheCleanup (s : EventCache) : EventCache × UInt32 :=
  cleanupLists (List.range c_maxFastLists) (s, 0)

/-! ### `PerformGarbageCollection` -/

def mark (s : EventCache) (gc : Collection) : EventCache :=
  { s with clusters := fun c => (s.clusters c).mark (gc.aliveIn c) }

/-- The last loop of `Sweep` -/
def recoverFromGC : List Nat → EventCache → Option EventCache
  | [], s => some s
  | c :: rest, s =>
      match (s.clusters c).recoverFromGC with
      | none => none
      | some hc => recoverFromGC rest (s.setCluster c hc)

def performGarbageCollection (s : EventCache) (gc : Collection) : Option EventCache :=
  let s := s.eventCacheCleanup.1
  let s := s.mark gc
  let s := gc.released.foldl giveBack s
  recoverFromGC s.m_heap s

/-! ### `ExtractHeapBlocksForEvents` -/

/-- The loop over the clusters -/
def extractBlocks (dataType : DataType) (flags : Flags) (length : Nat) :
    List Nat → EventCache → EventCache × Option Ptr
  | [], s => (s, none)
  | c :: rest, s =>
      match (s.clusters c).extractBlocks dataType flags length with
      | (hc, some res) => (s.setCluster c hc, some (c, res))
      | (_, none) => extractBlocks dataType flags length rest s

def extractHeapBlocks (s : EventCache) (dataType : DataType) (flags : RequestFlags)
    (length : Nat) (gc : Collection) : Option (EventCache × Option Ptr) :=
  match extractBlocks dataType flags.header length s.m_heap.reverse s with
  | (s, some hb) => some (s, some hb)
  | (s, none) =>
      if flags.noGcOnFailedAllocation then some (s, none)
      else
        match s.performGarbageCollection gc with
        | none => none
        | some s => some (extractBlocks dataType flags.header length s.m_heap.reverse s)

def extractHeapBlocksForEvents (s : EventCache) (dataType : DataType) (flags : RequestFlags)
    (length : Nat) (gc : Collection) : Option (EventCache × Option Ptr) :=
  if length > HB_MaxSize then some (s, none)
  else
    let flags := { flags with header := { flags.header with alive := true, event := true } }
    match s.extractHeapBlocks dataType flags length gc with
    | none => none
    | some (s, none) => some (s, none)
    | some (s, some hb) => some ({ s with taken := (hb, length) :: s.taken }, some hb)

/-! ### `Extract_Node` -/

/-- The loop of `Extract_Node_Slow`: an exact match ends it, and the first block to be chosen has
    an overhead of at most 25%. -/
def bestFit (s : EventCache) (blocks : UInt32) :
    List Ptr → Option (Ptr × Nat) → Option (Ptr × Nat)
  | [], best => best
  | ptr :: rest, best =>
      let size := s.dataSize ptr
      if size = blocks.toNat then some (ptr, blocks.toNat)
      else if size ≥ blocks.toNat then
        match best with
        | some (_, bestSize) =>
            if size < bestSize then bestFit s blocks rest (some (ptr, size))
            else bestFit s blocks rest best
        | none =>
            if size ≤ ((blocks * 20) / 16).toNat then bestFit s blocks rest (some (ptr, size))
            else bestFit s blocks rest best
      else bestFit s blocks rest best

/-- A block that is too large is split where it is, and its tail goes back to the cache. -/
def requeueTail (s : EventCache) (ptr : Ptr) (bestSize blocks : Nat) : EventCache :=
  let next := (ptr.1, ptr.2 + blocks)
  let s := s.setDataId ptr (rawId .cachedblock eventFlags blocks)
  let s := s.setDataId next (rawId .cachedblock eventFlags (bestSize - blocks))
  s.appendNode next

def takeNode (s : EventCache) (dataType : DataType) (i : Nat) (ptr : Ptr) : EventCache :=
  let s := s.unlink i ptr
  s.setDataId ptr { s.header ptr with dataType := dataType, flags := eventFlags }

def extractNodeSlow (s : EventCache) (dataType : DataType) (flags : RequestFlags)
    (blocks : UInt32) (gc : Collection) : Option (EventCache × Option Ptr) :=
  match s.bestFit blocks (s.m_events 0) none with
  | some (ptr, bestSize) =>
      let s := if bestSize > blocks.toNat then s.requeueTail ptr bestSize blocks.toNat else s
      some (s.takeNode dataType 0 ptr, some ptr)
  | none => s.extractHeapBlocksForEvents dataType flags blocks.toNat gc

def extractNodeFast (s : EventCache) (dataType : DataType) (flags : RequestFlags)
    (blocks : UInt32) (gc : Collection) : Option (EventCache × Option Ptr) :=
  match s.m_events blocks.toNat with
  | ptr :: _ => some (s.takeNode dataType blocks.toNat ptr, some ptr)
  | [] => s.extractHeapBlocksForEvents dataType flags blocks.toNat gc

def extractNode (s : EventCache) (dataType : DataType) (flags : RequestFlags) (blocks : UInt32)
    (gc : Collection) : Option (EventCache × Option Ptr) :=
  if blocks > 0 ∧ blocks.toNat < c_maxFastLists then s.extractNodeFast dataType flags blocks gc
  else s.extractNodeSlow dataType flags blocks gc

def convertFromSizeToHeapBlocks (bytes : UInt32) : UInt32 := (bytes + 12 - 1) / 12

def extractNodeBytes (s : EventCache) (dataType : DataType) (flags : RequestFlags)
    (bytes : UInt32) (gc : Collection) : Option (EventCache × Option Ptr) :=
  s.extractNode dataType flags (convertFromSizeToHeapBlocks bytes) gc

/-! ### Runs -/

/-- The calls, each with what a collection would find in it -/
inductive Call where
  | extractNode (dataType : DataType) (flags : RequestFlags) (blocks : UInt32) (gc : Collection)
  | extractNodeBytes (dataType : DataType) (flags : RequestFlags) (bytes : UInt32)
      (gc : Collection)
  | appendNode (node : Ptr)
  | eventCacheCleanup
  | performGarbageCollection (gc : Collection)
deriving DecidableEq, Repr

/-- The caller has the block that is returned, with the size it has asked for. -/
def handOut (request : Nat) : EventCache × Option Ptr → EventCache × Option Ptr
  | (s, none) => (s, none)
  | (s, some ptr) => ({ s with extracted := (ptr, request) :: s.extracted }, some ptr)

/-- The size a call asks for, in blocks; a request in bytes is rounded up. -/
def Call.request : Call → Nat
  | .extractNode _ _ blocks _ => blocks.toNat
  | .extractNodeBytes _ _ bytes _ => (bytes.toNat + 11) / 12
  | _ => 0

def step (s : EventCache) (call : Call) : Option (EventCache × Option Ptr) :=
  match call with
  | .extractNode dataType flags blocks gc =>
      (s.extractNode dataType flags blocks gc).map (handOut call.request)
  | .extractNodeBytes dataType flags bytes gc =>
      (s.extractNodeBytes dataType flags bytes gc).map (handOut call.request)
  | .appendNode node => some (s.giveBack node, none)
  | .eventCacheCleanup => some (s.eventCacheCleanup.1, none)
  | .performGarbageCollection gc => (s.performGarbageCollection gc).map fun s => (s, none)

def cached (s : EventCache) : List (Block Nat) :=
  (List.range c_maxFastLists).flatMap fun i =>
    (s.m_events i).map fun ptr => (ptr, s.dataSize ptr)

end EventCache

end TinyClr.Heap
