import Mathlib.Algebra.Ring.Nat
import Mathlib.Logic.Function.Basic

/-!
# USB streams

The queues of packets of an USB controller and the calls of `DeviceCode/pal/COM/usb/usb.cpp` on them:
the interrupts of the driver below, which receive and send packets, and the calls on streams above.

Interrupts come between calls, and while a call of `Write` waits for room.  `Write` therefore takes
one step for each run through its loop.  What `CPU_USB_StartOutput` and `CPU_USB_RxEnable` do to the
queues is what the interrupts do.  `received` and `returned` of an endpoint, and `queued` of a write,
are not in the source: what has come in and gone out since the queue was cleared, and what the write
has put into its queue.
-/

namespace TinyClr.UsbStreams

/-! ### `Hal_Queue_KnownSize<USB_PACKET64, USB_QUEUE_PACKET_COUNT>` -/

def USB_MAX_DATA_PACKET_SIZE : Nat := 64

structure Packet64 where
  size : Nat
  buffer : List UInt8
deriving DecidableEq, Repr

structure Queue where
  writer : Nat
  reader : Nat
  full : Bool
  data : List Packet64
deriving DecidableEq, Repr

namespace Queue

def clear (q : Queue) : Queue := { q with writer := 0, reader := 0, full := false }

/-- `Push`: the place of a packet to be filled -/
def push (q : Queue) : Option (Nat × Queue) :=
  let nextWriter := if q.writer + 1 = q.data.length then 0 else q.writer + 1
  if q.full then none
  else some (q.writer, { q with writer := nextWriter, full := nextWriter = q.reader })

def peek (q : Queue) : Option Nat :=
  if q.writer = q.reader ∧ q.full = false then none else some q.reader

def pop (q : Queue) : Option (Nat × Queue) :=
  if q.reader = q.writer ∧ q.full = false then none
  else
    let nextReader := if q.reader + 1 = q.data.length then 0 else q.reader + 1
    some (q.reader, { q with reader := nextReader, full := false })

def packet (q : Queue) (i : Nat) : Packet64 := q.data.getD i ⟨0, []⟩

/-- The packet at a place is filled with bytes; what lies behind them stays. -/
def fill (q : Queue) (i : Nat) (bytes : List UInt8) : Queue :=
  { q with data :=
      q.data.set i ⟨bytes.length, bytes ++ (q.packet i).buffer.drop bytes.length⟩ }

end Queue

/-! ### State -/

inductive DeviceState where
  | detached
  | attached
  | powered
  | default
  | address
  | configured
  | suspended
  | uninitialized
deriving DecidableEq, Repr

/-- `Queues`, `CurrentPacketOffset`, `MaxPacketSize` and `IsTxQueue` at one index -/
structure Endpoint where
  queue : Option Queue
  currentPacketOffset : UInt8
  maxPacketSize : Nat
  isTxQueue : Bool
  received : List UInt8
  returned : List UInt8

structure StreamMap where
  rxEP : Nat
  txEP : Nat
deriving DecidableEq, Repr

def USB_NULL_ENDPOINT : Nat := 0xFF

def USB_MAX_QUEUES : Nat := 16

/-- The variables of a `Write` between two runs through its loop; `rest` are the last `count` bytes
    of `data`, and `waiting` says that interrupts may come. -/
structure Writing where
  endpoint : Nat
  data : List UInt8
  rest : List UInt8
  totWrite : Nat
  waitLoopCnt : Nat
  waiting : Bool
  queued : List (List UInt8)
deriving DecidableEq, Repr

structure State where
  initialized : Bool
  configuration : Bool
  currentState : DeviceState
  deviceState : DeviceState
  endpoints : Nat → Endpoint
  streams : Nat → StreamMap
  writing : Option Writing

inductive Reply where
  | done
  | bool (value : Bool)
  | enqueued (packet64 : Bool) (disableRx : Bool)
  | packet (packet64 : Option Packet64)
  | data (bytes : List UInt8) (inside : Bool)
  | written (totWrite : Nat) (queued : List (List UInt8))
  | failed
deriving DecidableEq, Repr

namespace Endpoint

/-- `Initialize` of the queue; the offset into its first packet is not touched. -/
def clear (e : Endpoint) : Endpoint :=
  { e with queue := e.queue.map Queue.clear, received := [], returned := [] }

end Endpoint

namespace State

def setEndpoint (s : State) (ep : Nat) (e : Endpoint) : State :=
  { s with endpoints := Function.update s.endpoints ep e }

def clearEndpoint (s : State) (ep : Nat) : State :=
  if ep ≠ USB_NULL_ENDPOINT ∧ (s.endpoints ep).queue.isSome then
    s.setEndpoint ep (s.endpoints ep).clear
  else s

/-! ### Interrupts -/

/-- `USB_RxEnqueue`, and the packet filled with what has been received -/
def rxEnqueue (s : State) (ep : Nat) (bytes : List UInt8) : Option (State × Reply) :=
  let e := s.endpoints ep
  match e.queue with
  | none => none
  | some q =>
      match q.push with
      | none => some (s, .enqueued false q.full)
      | some (i, q) =>
          some (s.setEndpoint ep { e with
            queue := some (q.fill i bytes)
            received := e.received ++ bytes }, .enqueued true q.full)

def txDequeue (s : State) (ep : Nat) (done : Bool) : Option (State × Reply) :=
  let e := s.endpoints ep
  match e.queue with
  | none => none
  | some q =>
      if done then
        match q.pop with
        | none => some (s, .packet none)
        | some (i, q') =>
            some (s.setEndpoint ep { e with queue := some q' }, .packet (some (q.packet i)))
      else some (s, .packet (q.peek.map q.packet))

def clearQueues (s : State) (clrRxQueue clrTxQueue : Bool) : State :=
  { s with endpoints := fun ep =>
      let e := s.endpoints ep
      if e.queue.isSome ∧ (if e.isTxQueue then clrTxQueue else clrRxQueue) then e.clear else e }

def stateCallback (s : State) : State :=
  if s.currentState = s.deviceState then s
  else
    let s := if s.currentState = .configured then s.clearQueues true true else s
    let s := { s with currentState := s.deviceState }
    if s.deviceState = .configured then s.clearQueues true false else s

/-! ### Calls -/

def openStream (s : State) (streamIndex writeEP readEP : Nat) : State × Reply :=
  let reads := readEP ≠ USB_NULL_ENDPOINT
  let writes := writeEP ≠ USB_NULL_ENDPOINT
  if !s.initialized then (s, .bool false)
  else if streamIndex ≥ USB_MAX_QUEUES ∨ (¬ reads ∧ ¬ writes) ∨
      (reads ∧ (readEP < 1 ∨ readEP ≥ USB_MAX_QUEUES)) ∨
      (writes ∧ (writeEP < 1 ∨ writeEP ≥ USB_MAX_QUEUES)) then (s, .bool false)
  else if (s.streams streamIndex).rxEP ≠ USB_NULL_ENDPOINT ∨
      (s.streams streamIndex).txEP ≠ USB_NULL_ENDPOINT then (s, .bool false)
  else if (reads ∧ (s.endpoints readEP).queue.isNone) ∨
      (writes ∧ (s.endpoints writeEP).queue.isNone) then (s, .bool false)
  else if (reads ∧ (s.endpoints readEP).isTxQueue) ∨
      (writes ∧ !(s.endpoints writeEP).isTxQueue) then (s, .bool false)
  else if (List.range USB_MAX_QUEUES).any fun stream =>
      (reads ∧ ((s.streams stream).rxEP = readEP ∨ (s.streams stream).txEP = readEP)) ∨
      (writes ∧ ((s.streams stream).rxEP = writeEP ∨ (s.streams stream).txEP = writeEP)) then
    (s, .bool false)
  else
    ({ s with streams := Function.update s.streams streamIndex ⟨readEP, writeEP⟩ }, .bool true)

def closeStream (s : State) (streamIndex : Nat) : State × Reply :=
  if !s.initialized then (s, .bool false)
  else if streamIndex ≥ USB_MAX_QUEUES then (s, .bool false)
  else
    let stream := s.streams streamIndex
    let s := (s.clearEndpoint stream.rxEP).clearEndpoint stream.txEP
    let closed : StreamMap := ⟨USB_NULL_ENDPOINT, USB_NULL_ENDPOINT⟩
    ({ s with streams := Function.update s.streams streamIndex closed }, .bool true)

/-- `USB_Driver::DiscardData`; the index of the stream is not tested. -/
def discardData (s : State) (streamIndex : Nat) (fTx : Bool) : State :=
  if !s.initialized ∨ !s.configuration then s
  else s.clearEndpoint (if fTx then (s.streams streamIndex).txEP else (s.streams streamIndex).rxEP)

/-- The loop of `Read`: `Data` from `acc` on has room for `remain` more bytes.  A run through the loop
    fills it or empties the first packet.  `inside`: only bytes of packets have been copied. -/
def readLoop : Nat → Endpoint → Queue → Nat → List UInt8 → Bool →
    Option (Endpoint × List UInt8 × Bool)
  | fuel, e, q, remain, acc, inside =>
      if remain = 0 then some ({ e with queue := some q }, acc, inside)
      else
        match fuel with
        | 0 => none
        | fuel + 1 =>
            match q.peek with
            | none => some ({ e with queue := some q }, acc, inside)
            | some i =>
                let packet64 := q.packet i
                let offset := e.currentPacketOffset.toNat
                let available := (packet64.size + 2 ^ 32 - offset) % 2 ^ 32
                let max_move := if remain < available then remain else available
                let moved := (packet64.buffer.drop offset).take max_move
                let inside := inside && decide (offset + max_move ≤ packet64.size)
                let offset := e.currentPacketOffset + UInt8.ofNat max_move
                if offset.toNat = packet64.size then
                  let q := match q.pop with
                    | none => q
                    | some (_, q) => q
                  readLoop fuel { e with currentPacketOffset := 0 } q (remain - max_move)
                    (acc ++ moved) inside
                else
                  readLoop fuel { e with currentPacketOffset := offset } q (remain - max_move)
                    (acc ++ moved) inside

def read (s : State) (streamIndex : Nat) (size : UInt32) : Option (State × Reply) :=
  if streamIndex ≥ USB_MAX_QUEUES then some (s, .data [] true)
  else if s.deviceState ≠ .configured then some (s, .data [] true)
  else
    let ep := (s.streams streamIndex).rxEP
    if ep = USB_NULL_ENDPOINT then some (s, .data [] true)
    else
      match (s.endpoints ep).queue with
      | none => some (s, .data [] true)
      | some q =>
          match readLoop (q.data.length + 1) (s.endpoints ep) q size.toNat [] true with
          | none => none
          | some (e, bytes, inside) =>
              some (s.setEndpoint ep { e with returned := e.returned ++ bytes },
                .data bytes inside)

def write (s : State) (streamIndex : Nat) (data : List UInt8) : State × Reply :=
  if streamIndex ≥ USB_MAX_QUEUES then (s, .failed)
  else if data.length = 0 then (s, .written 0 [])
  else if s.deviceState ≠ .configured then (s, .failed)
  else
    let ep := (s.streams streamIndex).txEP
    if ep = USB_NULL_ENDPOINT ∨ (s.endpoints ep).queue.isNone then (s, .failed)
    else
      let w : Writing :=
        { endpoint := ep
          data := data
          rest := data
          totWrite := 0
          waitLoopCnt := 0
          waiting := false
          queued := [] }
      ({ s with writing := some w }, .done)

def writeReturns (s : State) (w : Writing) : State × Reply :=
  ({ s with writing := none }, .written w.totWrite w.queued)

/-- One run through the loop of `Write`; `isr` and `wasDisabled` are what it is told when it has to
    wait. -/
def writeStep (s : State) (isr wasDisabled : Bool) : Option (State × Reply) :=
  match s.writing with
  | none => none
  | some w =>
      let e := s.endpoints w.endpoint
      match e.queue with
      | none => none
      | some q =>
          match q.push with
          | some (i, q) =>
              let max_move := if w.rest.length > e.maxPacketSize then e.maxPacketSize
                else w.rest.length
              let moved := w.rest.take max_move
              let s := s.setEndpoint w.endpoint { e with queue := some (q.fill i moved) }
              let w := { w with
                rest := w.rest.drop max_move
                totWrite := w.totWrite + max_move
                waitLoopCnt := 0
                waiting := false
                queued := w.queued ++ [moved] }
              -- a packet that is not full is the last one
              if max_move < e.maxPacketSize then some (s.writeReturns w)
              else some ({ s with writing := some w }, .done)
          | none =>
              let w := { w with waitLoopCnt := w.waitLoopCnt + 1, waiting := true }
              if w.waitLoopCnt > 100 then
                let s := if w.rest.length = w.data.length then
                  s.setEndpoint w.endpoint e.clear else s
                some (s.writeReturns w)
              else if isr then some (s.writeReturns w)
              else if wasDisabled then some (s.writeReturns w)
              else if s.deviceState ≠ .configured then some (s.writeReturns w)
              else some ({ s with writing := some w }, .done)

end State

/-! ### Events -/

inductive Event where
  | rxEnqueue (ep : Nat) (bytes : List UInt8)
  | txDequeue (ep : Nat) (done : Bool)
  | deviceState (state : DeviceState)
  | stateCallback
  | clearQueues (clrRxQueue clrTxQueue : Bool)
  | openStream (streamIndex writeEP readEP : Nat)
  | closeStream (streamIndex : Nat)
  | discardData (streamIndex : Nat) (fTx : Bool)
  | read (streamIndex : Nat) (size : UInt32)
  | write (streamIndex : Nat) (data : List UInt8)
  | writeStep (isr wasDisabled : Bool)
deriving DecidableEq, Repr

def step (s : State) : Event → Option (State × Reply)
  | .rxEnqueue ep bytes => s.rxEnqueue ep bytes
  | .txDequeue ep done => s.txDequeue ep done
  | .deviceState state => some ({ s with deviceState := state }, .done)
  | .stateCallback => some (s.stateCallback, .done)
  | .clearQueues clrRxQueue clrTxQueue => some (s.clearQueues clrRxQueue clrTxQueue, .done)
  | .openStream streamIndex writeEP readEP => some (s.openStream streamIndex writeEP readEP)
  | .closeStream streamIndex => some (s.closeStream streamIndex)
  | .discardData streamIndex fTx => some (s.discardData streamIndex fTx, .done)
  | .read streamIndex size => s.read streamIndex size
  | .write streamIndex data => some (s.write streamIndex data)
  | .writeStep isr wasDisabled => s.writeStep isr wasDisabled

/-- How the driver below sets up an endpoint: a packet is not empty and fits its buffer. -/
structure EndpointSetup where
  isTxQueue : Bool
  maxPacketSize : Nat
  pos : 0 < maxPacketSize
  le : maxPacketSize ≤ USB_MAX_DATA_PACKET_SIZE

/-- The controller as the driver below sets it up, with queues of `packetCount` packets -/
structure Setup where
  packetCount : Nat
  pos : 0 < packetCount
  endpoints : Nat → Option EndpointSetup
  initialized : Bool
  configuration : Bool

def emptyQueue (packetCount : Nat) : Queue where
  writer := 0
  reader := 0
  full := false
  data := List.replicate packetCount ⟨0, List.replicate USB_MAX_DATA_PACKET_SIZE 0⟩

def initial (setup : Setup) : State where
  initialized := setup.initialized
  configuration := setup.configuration
  currentState := .uninitialized
  deviceState := .uninitialized
  endpoints ep :=
    match setup.endpoints ep with
    | none => ⟨none, 0, 0, false, [], []⟩
    | some e => ⟨some (emptyQueue setup.packetCount), 0, e.maxPacketSize, e.isTxQueue, [], []⟩
  streams _ := ⟨USB_NULL_ENDPOINT, USB_NULL_ENDPOINT⟩
  writing := none

end TinyClr.UsbStreams
