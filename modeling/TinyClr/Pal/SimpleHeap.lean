import TinyClr.Library.ByteFields
import TinyClr.Library.Runs

/-!
# The simple heap

`SimpleHeap_Initialize`, `_Allocate`, `_Release` and `_ReAllocate`
(`DeviceCode/pal/SimpleHeap/SimpleHeap.cpp`), built with `SIMPLE_HEAP_GUARDWORD`.

Memory is a map from addresses to bytes; pointers and `size_t` have 32 bits.  The walk along the
blocks has fuel.  `HARD_BREAKPOINT` stops the machine: the step has no result.
-/

namespace TinyClr.SimpleHeap

open TinyClr.Library

/-! ### Block headers -/

def sizeof_BlockHeader : Nat := 20

def c_Free : Nat := 0xDEADBEEF

def c_Busy : Nat := 0xDEADBE5E

def c_Guard : Nat := 0xBAB1F00D

/-- The bytes of the machine's memory -/
abbrev Memory := Nat → UInt8

namespace Memory

variable (m : Memory) (blk : Nat)

def next : Nat := word32 m blk

def prev : Nat := word32 m (blk + 4)

def length : Nat := word32 m (blk + 8)

def signature : Nat := word32 m (blk + 12)

def headGuard : Nat := word32 m (blk + 16)

/-- The last word of the block -/
def tailGuard : Nat := word32 m (blk + m.length blk - 4)

def setNext (value : Nat) : Memory := memcpy m blk (bytes32 value)

def setPrev (value : Nat) : Memory := memcpy m (blk + 4) (bytes32 value)

def setLength (value : Nat) : Memory := memcpy m (blk + 8) (bytes32 value)

def setSignature (value : Nat) : Memory := memcpy m (blk + 12) (bytes32 value)

def setHeadGuard (value : Nat) : Memory := memcpy m (blk + 16) (bytes32 value)

def setTailGuard (value : Nat) : Memory := memcpy m (blk + m.length blk - 4) (bytes32 value)

def initializeHeap (buffer length : Nat) : Memory :=
  ((((m.setLength buffer length).setNext buffer 0).setPrev buffer 0).setSignature buffer
    c_Free).setHeadGuard buffer c_Guard

/-! ### `SimpleHeap_Allocate` -/

/-- The length that is looked for: header and tail guard added, rounded up to words, with the
    wrapping of `size_t` -/
def request (len : Nat) : Nat :=
  let len := uint32 (len + sizeof_BlockHeader)
  let len := uint32 (len + 4)
  uint32 (len + 4 - 1) / 4 * 4

/-- The first free block from `ptr` on that is long enough, or NULL; nothing when the fuel runs
    out -/
def findFree (len : Nat) : Nat → Nat → Option Nat
  | 0, _ => none
  | fuel + 1, ptr =>
      if ptr = 0 then some 0
      else if m.signature ptr = c_Free ∧ m.length ptr ≥ len then some ptr
      else findFree len fuel (m.next ptr)

/-- A block of length `len` split off from the end of `prev`: its address and the memory -/
def split (prev len : Nat) : Nat × Memory :=
  let ptr := prev + m.length prev - len
  let next := m.next prev
  let m := (m.setNext ptr next).setPrev ptr prev
  let m := m.setNext prev ptr
  let m := if next ≠ 0 then m.setPrev next ptr else m
  let m := m.setLength ptr len
  (ptr, m.setLength prev (uint32 (m.length prev - len)))

/-- The block found, split unless it fits almost perfectly -/
def carve (ptr len : Nat) : Nat × Memory :=
  if m.length ptr ≤ uint32 (len + sizeof_BlockHeader * 2) then (ptr, m) else m.split ptr len

/-- The marks of a block that is handed out -/
def markBusy (ptr : Nat) : Memory :=
  let m := (m.setSignature ptr c_Busy).setHeadGuard ptr c_Guard
  m.setTailGuard ptr c_Guard

def allocate (fuel firstCluster len : Nat) : Option (Nat × Memory) :=
  let len := request len
  match m.findFree len fuel firstCluster with
  | none => none
  | some 0 => some (0, m)
  | some ptr =>
      let (ptr, m) := m.carve ptr len
      some (ptr + sizeof_BlockHeader, m.markBusy ptr)

/-! ### `SimpleHeap_Release` -/

/-- A block is joined with the one behind it. -/
def absorb (blk next : Nat) : Memory :=
  let m := m.setLength blk (m.length blk + m.length next)
  let nextnext := m.next next
  let m := m.setNext blk nextnext
  if nextnext ≠ 0 then m.setPrev nextnext blk else m

/-- The two merges of a block that has become free -/
def merge (blk : Nat) : Memory :=
  let next := m.next blk
  let m := if next ≠ 0 ∧ m.signature next = c_Free then m.absorb blk next else m
  let prev := m.prev blk
  if prev ≠ 0 ∧ m.signature prev = c_Free then m.absorb prev blk else m

def release (ptr : Nat) : Option Memory :=
  if ptr = 0 then some m
  else
    let blk := ptr - sizeof_BlockHeader
    if m.headGuard blk ≠ c_Guard then none
    else if m.tailGuard blk ≠ c_Guard then none
    else some ((m.setSignature blk c_Free).merge blk)

/-! ### `SimpleHeap_ReAllocate` -/

/-- How many bytes are copied from the block of `ptr` -/
def copyLength (ptr len : Nat) : Nat :=
  let blk := ptr - sizeof_BlockHeader
  if len > m.length blk then m.length blk else len

def reAllocate (fuel firstCluster ptr len : Nat) : Option (Nat × Memory) :=
  match m.allocate fuel firstCluster len with
  | none => none
  | some (0, m) => some (0, m)
  | some (p, m) =>
      if ptr ≠ 0 then
        let m : Memory := overlay m p (m.copyLength ptr len) fun i => m (ptr + i)
        match m.release ptr with
        | none => none
        | some m => some (p, m)
      else some (p, m)

end Memory

/-! ### The heap and its clients -/

/-- Where a heap lives: a part of the address space that does not start at NULL and has room for
    one header. -/
structure Arena where
  buffer : Nat
  length : Nat
  buffer_pos : 0 < buffer
  header_le : sizeof_BlockHeader ≤ length
  end_le : buffer + length ≤ 2 ^ 32

/-- The memory and the allocations that are in use: pointers with the lengths asked for. -/
structure Heap where
  memory : Memory
  live : List (Nat × Nat)

/-- The calls of a client, and the bytes it stores in its allocations -/
inductive Call where
  | allocate (len : UInt32)
  | release (ptr : Nat)
  | reAllocate (ptr : Nat) (len : UInt32)
  | store (ptr i : Nat) (value : UInt8)

namespace Heap

def drop (h : Heap) (ptr : Nat) : List (Nat × Nat) := h.live.filter (·.1 ≠ ptr)

def Owns (h : Heap) (ptr : Nat) : Prop := ptr = 0 ∨ ∃ len, (ptr, len) ∈ h.live

end Heap

/-- One call, with the pointer it returns -/
def step (arena : Arena) (h : Heap) : Call → Option (Heap × Nat)
  | .allocate len =>
      match h.memory.allocate arena.length arena.buffer len.toNat with
      | none => none
      | some (p, m) => some
          ({ memory := m, live := if p = 0 then h.live else (p, len.toNat) :: h.live }, p)
  | .release ptr =>
      match h.memory.release ptr with
      | none => none
      | some m => some ({ memory := m, live := h.drop ptr }, 0)
  | .reAllocate ptr len =>
      match h.memory.reAllocate arena.length arena.buffer ptr len.toNat with
      | none => none
      | some (p, m) => some
          ({ memory := m, live := if p = 0 then h.live else (p, len.toNat) :: h.drop ptr }, p)
  | .store ptr i value => some ({ h with memory := memcpy h.memory (ptr + i) [value] }, 0)

def initial (arena : Arena) (memory : Memory) : Heap :=
  { memory := memory.initializeHeap arena.buffer arena.length, live := [] }

end TinyClr.SimpleHeap
