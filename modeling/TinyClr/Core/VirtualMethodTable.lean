import TinyClr.Core.TypeSystem
import TinyClr.Support.Crc
import TinyClr.Library.ByteFields
import Mathlib.Logic.Function.Basic

/-!
# The cache of virtual methods

`CLR_RT_EventCache::VirtualMethodTable` (`CLR/Core/Cache.cpp`), as it is built without
`TINYCLR_USE_AVLTREE_FOR_METHODLOOKUP`: a payload for each entry, a table of links for the rings of
the entries with one hash, and a table of links for the ring of all entries by their last use.  The
heads of the rings have the indices behind those of the entries.

`findVirtualMethodDef` stands for `g_CLR_RT_TypeSystem.FindVirtualMethodDef` while the assemblies
stay as they are, with `none` inside for a method that is not found and outside for a fault; `owner`
is the cross reference from methods to their types.
-/

namespace TinyClr.EventCache

open TinyClr.Library

/-- `PLATFORM_DEPENDENT_ENTRY_SIZE` and `PLATFORM_DEPENDENT_HASH_TABLE_SIZE`; indices of links are
    stored in 16 bits. -/
structure Platform where
  entrySize : Nat
  hashTableSize : Nat
  entrySize_pos : 0 < entrySize
  hashTableSize_pos : 0 < hashTableSize
  links_le : entrySize + hashTableSize ≤ 0x10000

namespace Platform

variable (p : Platform)

def linkArraySize : Nat := p.entrySize + p.hashTableSize

def linkMRUArraySize : Nat := p.entrySize + 1

def payloadArraySize : Nat := p.entrySize

end Platform

/-! ### The table -/

/-- `Link`s by their indices -/
structure LinkTable where
  m_next : Nat → UInt16
  m_prev : Nat → UInt16

structure Key where
  mdVirtual : Nat
  cls : Nat
deriving DecidableEq, Repr

structure Payload where
  key : Key
  md : MethodDefIndex
deriving DecidableEq, Repr

structure VirtualMethodTable where
  entries : LinkTable
  entriesMRU : LinkTable
  payloads : Nat → Payload

/-- `m_data` of the index of a record: `idxAssm << 16 | idxRecord`, where assemblies count from 1 -/
def data (assembly record : Nat) : Nat := (assembly + 1) * 0x10000 + record

def key (cls : TypeDefIndex) (mdVirtual : MethodDefIndex) : Key where
  mdVirtual := data mdVirtual.assembly mdVirtual.method
  cls := data cls.assembly cls.type

def Key.bytes (key : Key) : List UInt8 := bytes32 key.mdVirtual ++ bytes32 key.cls

variable (p : Platform)

/-- `SUPPORT_ComputeCRC( &key, sizeof(key), 0 ) % (LinkArraySize() - PayloadArraySize()) +
    PayloadArraySize()` -/
def idxHead (key : Key) : Nat :=
  (Support.computeCRC key.bytes 8 0).toNat % (p.linkArraySize - p.payloadArraySize) +
    p.payloadArraySize

/-! ### Links -/

namespace LinkTable

variable (links : LinkTable)

def setNext (idx next : Nat) : LinkTable :=
  { links with m_next := Function.update links.m_next idx (UInt16.ofNat next) }

def setPrev (idx prev : Nat) : LinkTable :=
  { links with m_prev := Function.update links.m_prev idx (UInt16.ofNat prev) }

def moveEntryToTop (slot idx : Nat) : LinkTable :=
  if (links.m_next slot).toNat ≠ idx then
    let next := (links.m_next idx).toNat
    let prev := (links.m_prev idx).toNat
    let links := links.setPrev next prev
    let links := links.setNext prev next
    let next := (links.m_next slot).toNat
    let links := links.setNext idx next
    let links := links.setPrev idx slot
    let links := links.setNext slot idx
    links.setPrev next idx
  else links

end LinkTable

/-! ### Calls -/

namespace VirtualMethodTable

/-- `Initialize`, on memory that holds anything -/
def init (scratch : VirtualMethodTable) : VirtualMethodTable where
  entries :=
    { m_next := fun idx => if idx < p.linkArraySize then UInt16.ofNat idx
        else scratch.entries.m_next idx
      m_prev := fun idx => if idx < p.linkArraySize then UInt16.ofNat idx
        else scratch.entries.m_prev idx }
  entriesMRU :=
    { m_next := fun idx => if idx < p.linkMRUArraySize then
          UInt16.ofNat (if idx = p.linkMRUArraySize - 1 then 0 else idx + 1)
        else scratch.entriesMRU.m_next idx
      m_prev := fun idx => if idx < p.linkMRUArraySize then
          UInt16.ofNat (if idx = 0 then p.linkMRUArraySize - 1 else idx - 1)
        else scratch.entriesMRU.m_prev idx }
  payloads := scratch.payloads

variable (t : VirtualMethodTable)

def getNewEntry : Nat := (t.entriesMRU.m_prev (p.linkMRUArraySize - 1)).toNat

/-- The `for` loop over a ring: the entry with the key, or `none` at the head -/
def search (key : Key) (idxHead : Nat) : Nat → Nat → Option (Option Nat)
  | 0, _ => none
  | fuel + 1, idx =>
      if idx ≠ idxHead then
        if (t.payloads idx).key.mdVirtual ≠ key.mdVirtual then
          search key idxHead fuel (t.entries.m_next idx).toNat
        else if (t.payloads idx).key.cls ≠ key.cls then
          search key idxHead fuel (t.entries.m_next idx).toNat
        else some (some idx)
      else some none

def toTop (idxHead idx : Nat) : VirtualMethodTable :=
  { t with
    entries := t.entries.moveEntryToTop idxHead idx
    entriesMRU := t.entriesMRU.moveEntryToTop (p.linkMRUArraySize - 1) idx }

variable (owner : MethodDefIndex → Nat)
  (findVirtualMethodDef : TypeDefIndex → MethodDefIndex → Option (Option MethodDefIndex))

/-- The shortcut for terminal virtual methods: the method is one of the class itself. -/
def terminal (cls : TypeDefIndex) (mdVirtual : MethodDefIndex) : Bool :=
  cls.assembly == mdVirtual.assembly && cls.type == owner mdVirtual

/-- `FindVirtualMethod`: `md` where it returns true, and the table -/
def findVirtualMethod (cls : TypeDefIndex) (mdVirtual : MethodDefIndex) :
    Option (Option MethodDefIndex × VirtualMethodTable) :=
  if terminal owner cls mdVirtual then some (some mdVirtual, t)
  else do
    let key := key cls mdVirtual
    let head := idxHead p key
    match ← t.search key head p.linkArraySize (t.entries.m_next head).toNat with
    | some idx => some (some (t.payloads idx).md, t.toTop p head idx)
    | none =>
        match ← findVirtualMethodDef cls mdVirtual with
        | none => some (none, t)
        | some md =>
            let idx := t.getNewEntry p
            let t := { t with payloads := Function.update t.payloads idx ⟨key, md⟩ }
            some (some md, t.toTop p head idx)

/-- What a call finds without the cache -/
def uncached (cls : TypeDefIndex) (mdVirtual : MethodDefIndex) : Option (Option MethodDefIndex) :=
  if terminal owner cls mdVirtual then some (some mdVirtual)
  else findVirtualMethodDef cls mdVirtual

end VirtualMethodTable

/-- A call, whose indices fit into the halves of their `m_data` -/
structure Call where
  cls : TypeDefIndex
  mdVirtual : MethodDefIndex
  cls_lt : cls.assembly + 1 < 0x10000 ∧ cls.type < 0x10000
  mdVirtual_lt : mdVirtual.assembly + 1 < 0x10000 ∧ mdVirtual.method < 0x10000

/-- One call after the other -/
def run (owner : MethodDefIndex → Nat)
    (findVirtualMethodDef : TypeDefIndex → MethodDefIndex → Option (Option MethodDefIndex)) :
    List Call → VirtualMethodTable → Option (List (Option MethodDefIndex) × VirtualMethodTable)
  | [], t => some ([], t)
  | call :: calls, t => do
      let (md, t) ← t.findVirtualMethod p owner findVirtualMethodDef call.cls call.mdVirtual
      let (mds, t) ← run owner findVirtualMethodDef calls t
      some (md :: mds, t)

end TinyClr.EventCache
