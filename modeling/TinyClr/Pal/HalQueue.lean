import TinyClr.Library.MachineInt
import Mathlib.Data.List.Basic

/-!
# Queues of the HAL

`Hal_Queue_UnknownSize` of `DeviceCode/Include/tinyhal.h`, on which the transfers of the serial
ports, of USB and of I2C rest.

A pointer that an operation returns is the number of a slot of `m_data`; a `size_t` has 32 bits.
-/

namespace TinyClr.HalQueue

open TinyClr.Library

/-- `Hal_Queue_UnknownSize`, but for the slots -/
structure Queue where
  m_writer : Nat
  m_reader : Nat
  m_size : Nat
  m_full : Bool
deriving DecidableEq, Repr

namespace Queue

def ofSize (size : Nat) : Queue := ⟨0, 0, size, false⟩

variable (q : Queue)

def numberOfElements : Nat :=
  if q.m_writer < q.m_reader then uint32 (q.m_size + q.m_writer - q.m_reader)
  else if q.m_full then q.m_size
  else q.m_writer - q.m_reader

def isEmpty : Bool := q.m_writer = q.m_reader && !q.m_full

/-- `operator[]`, whose index is an `int` -/
def elementAt (index : Int) : Option Nat :=
  if int32 index < 0 ∨ q.numberOfElements ≤ uint32 (int32 index) then none
  else some (uint32 (q.m_reader + int32 index) % q.m_size)

/-- An index that has been moved on, back to 0 at the end -/
def wrap (index : Nat) : Nat := if index = q.m_size then 0 else index

def push : Option Nat × Queue :=
  if q.m_full then (none, q)
  else
    let writer := q.wrap (uint32 (q.m_writer + 1 : Nat))
    (some q.m_writer, { q with m_writer := writer, m_full := decide (writer = q.m_reader) })

def peek : Option Nat := if q.isEmpty then none else some q.m_reader

def pop : Option Nat × Queue :=
  if q.isEmpty then (none, q)
  else
    (some q.m_reader,
      { q with m_reader := q.wrap (uint32 (q.m_reader + 1 : Nat)), m_full := false })

/-- `Push( nElements )`, with `nElements` as it leaves it -/
def pushBlock (nElements : Nat) : Nat × Option Nat × Queue :=
  if q.m_full ∨ nElements = 0 then (0, none, q)
  else
    let max := if q.m_writer < q.m_reader then q.m_reader - q.m_writer else q.m_size - q.m_writer
    let nElements := if max < nElements then max else nElements
    let writer := q.wrap (uint32 (q.m_writer + nElements : Nat))
    (nElements, some q.m_writer,
      { q with m_writer := writer, m_full := decide (writer = q.m_reader) })

/-- `Pop( nElements )`, with `nElements` as it leaves it -/
def popBlock (nElements : Nat) : Nat × Option Nat × Queue :=
  if nElements = 0 then (0, none, q)
  else if q.isEmpty then (0, none, { q with m_reader := 0, m_writer := 0 })
  else
    let max := if q.m_writer ≤ q.m_reader then q.m_size - q.m_reader else q.m_writer - q.m_reader
    let nElements := if max < nElements then max else nElements
    (nElements, some q.m_reader,
      { q with m_reader := q.wrap (uint32 (q.m_reader + nElements : Nat)), m_full := false })

end Queue

/-! ### Users of a queue -/

variable {T : Type*}

structure Buffer (T : Type*) where
  queue : Queue
  m_data : List T

/-- What a user does; what is pushed goes to the slots at once. -/
inductive Op (T : Type*) where
  | push (x : T)
  | pop
  | peek
  | elementAt (index : Int)
  | numberOfElements
  | pushBlock (xs : List T)
  | popBlock (nElements : Nat)

/-- What a user sees: how many elements have been transferred, in which slots, and what was in the
    slots that are read -/
inductive Reply (T : Type*) where
  | pushed (nElements : Nat) (slots : List Nat)
  | popped (nElements : Nat) (slots : List Nat) (xs : List T)
  | element (found : Option (Nat × T))
  | count (n : Nat)

namespace Buffer

/-- A queue on these slots -/
def ofData (data : List T) : Buffer T := ⟨.ofSize data.length, data⟩

def read (b : Buffer T) : Option Nat → Option (Option (Nat × T))
  | none => some none
  | some slot => (b.m_data[slot]?).map fun x => some (slot, x)

/-- One operation; `none` when a slot lies outside of `m_data`. -/
def step (b : Buffer T) : Op T → Option (Buffer T × Reply T)
  | .push x =>
      match b.queue.push with
      | (none, queue) => some ({ b with queue }, .pushed 0 [])
      | (some slot, queue) =>
          if slot < b.m_data.length then some (⟨queue, b.m_data.set slot x⟩, .pushed 1 [slot])
          else none
  | .pop =>
      match b.queue.pop with
      | (none, queue) => some ({ b with queue }, .popped 0 [] [])
      | (some slot, queue) =>
          (b.m_data[slot]?).map fun x => ({ b with queue }, .popped 1 [slot] [x])
  | .peek => (b.read b.queue.peek).map fun found => (b, .element found)
  | .elementAt index =>
      (b.read (b.queue.elementAt index)).map fun found => (b, .element found)
  | .numberOfElements => some (b, .count b.queue.numberOfElements)
  | .pushBlock xs =>
      match b.queue.pushBlock xs.length with
      | (n, none, queue) => some ({ b with queue }, .pushed n [])
      | (n, some slot, queue) =>
          if slot + n ≤ b.m_data.length then
            some (⟨queue, b.m_data.take slot ++ xs.take n ++ b.m_data.drop (slot + n)⟩,
              .pushed n (List.range' slot n))
          else none
  | .popBlock nElements =>
      match b.queue.popBlock nElements with
      | (n, none, queue) => some ({ b with queue }, .popped n [] [])
      | (n, some slot, queue) =>
          if slot + n ≤ b.m_data.length then
            some ({ b with queue },
              .popped n (List.range' slot n) ((b.m_data.drop slot).take n))
          else none

end Buffer

/-! ### A bounded FIFO -/

/-- The elements of a FIFO, the first one first, each with the slot that it is in -/
abbrev Fifo (T : Type*) := List (Nat × T)

def Fifo.slots (t : Fifo T) : List Nat := t.map Prod.fst

/-- Slots of a buffer that hold no element -/
structure Free (capacity : Nat) (t : Fifo T) (slots : List Nat) : Prop where
  inside : ∀ slot ∈ slots, slot < capacity
  apart : ∀ slot ∈ slots, slot ∉ t.slots
  nodup : slots.Nodup

/-- What a FIFO with a capacity may do.  A block operation transfers a part of the request, which is
    not empty unless nothing can be transferred; slots that are filled were free before, and slots
    that are read are free afterwards. -/
def Fifo.Step (capacity : Nat) (t : Fifo T) : Op T → Fifo T → Reply T → Prop
  | .push x, t', r =>
      (t.length = capacity ∧ t' = t ∧ r = .pushed 0 []) ∨
        (t.length < capacity ∧ ∃ slot, Free capacity t [slot] ∧ t' = t ++ [(slot, x)] ∧
          r = .pushed 1 [slot])
  | .pop, t', r =>
      (t = [] ∧ t' = [] ∧ r = .popped 0 [] []) ∨
        ∃ slot x, t = (slot, x) :: t' ∧ Free capacity t' [slot] ∧ r = .popped 1 [slot] [x]
  | .peek, t', r => t' = t ∧ r = .element t.head?
  | .elementAt index, t', r =>
      t' = t ∧ r = .element (if int32 index < 0 then none else t[(int32 index).toNat]?)
  | .numberOfElements, t', r => t' = t ∧ r = .count t.length
  | .pushBlock xs, t', r =>
      ∃ slots, Free capacity t slots ∧ slots.length ≤ xs.length ∧
        t.length + slots.length ≤ capacity ∧
        (slots = [] → xs = [] ∨ t.length = capacity) ∧ t' = t ++ slots.zip xs ∧
        r = .pushed slots.length slots
  | .popBlock nElements, t', r =>
      ∃ n ≤ nElements, n ≤ t.length ∧ (n = 0 → nElements = 0 ∨ t = []) ∧ t' = t.drop n ∧
        Free capacity t' (Fifo.slots (t.take n)) ∧
        r = .popped n (Fifo.slots (t.take n)) ((t.take n).map Prod.snd)

end TinyClr.HalQueue
