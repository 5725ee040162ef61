import TinyClr.Library.Ring
import Mathlib.Tactic.Common

/-!
# Serial ports

Reception with software flow control of `DeviceCode/pal/COM/usart/usart.cpp`, on the queues
`Hal_Queue_UnknownSize` of `DeviceCode/Include/tinyhal.h`.

The flags of `HAL_USART_STATE` are a record, `c_RX_XOFFSTATE` of which is two reasons.  The
interrupts of the hardware and the events for the users of a port are left out.
-/

namespace TinyClr.Usart

open TinyClr.Library

/-! ### Queues -/

/-- `Hal_Queue_UnknownSize<UINT8>` -/
structure Queue where
  writer : Nat
  reader : Nat
  full : Bool
  data : List UInt8
deriving DecidableEq, Repr

namespace Queue

def size (q : Queue) : Nat := q.data.length

/-- `Initialize` -/
def ofData (data : List UInt8) : Queue := ⟨0, 0, false, data⟩

def numberOfElements (q : Queue) : Nat :=
  if q.writer < q.reader then q.size + q.writer - q.reader
  else if q.full then q.size
  else q.writer - q.reader

def wrap (q : Queue) (index : Nat) : Nat := if index = q.size then 0 else index

/-- `Push` of one element, with the store through the pointer it returns; `none` for NULL -/
def push (q : Queue) (c : UInt8) : Option Queue :=
  if q.full then none
  else
    let writer := q.wrap (q.writer + 1)
    some ⟨writer, q.reader, decide (writer = q.reader), q.data.set q.writer c⟩

/-- `Push` of several elements, as far as they fit in one piece, with the copy to the pointer it
    returns; the number is 0 for NULL. -/
def pushPiece (q : Queue) (src : List UInt8) : Nat × Queue :=
  if q.full ∨ src = [] then (0, q)
  else
    let max := if q.writer < q.reader then q.reader - q.writer else q.size - q.writer
    let nElements := if max < src.length then max else src.length
    let writer := q.wrap (q.writer + nElements)
    (nElements, ⟨writer, q.reader, decide (writer = q.reader),
      q.data.take q.writer ++ src.take nElements ++ q.data.drop (q.writer + nElements)⟩)

def pop (q : Queue) : Option (UInt8 × Queue) :=
  if q.reader = q.writer ∧ q.full = false then none
  else (q.data[q.reader]?).map fun c => (c, { q with reader := q.wrap (q.reader + 1), full := false })

/-- `Pop` of several elements, as far as they lie in one piece; the elements are those that the
    pointer it returns points to, none for NULL. -/
def popPiece (q : Queue) (nElements : Nat) : List UInt8 × Queue :=
  if nElements = 0 then ([], q)
  else if q.reader = q.writer ∧ q.full = false then ([], { q with reader := 0, writer := 0 })
  else
    let max := if q.writer ≤ q.reader then q.size - q.reader else q.writer - q.reader
    let nElements := if max < nElements then max else nElements
    ((q.data.drop q.reader).take nElements,
      { q with reader := q.wrap (q.reader + nElements), full := false })

end Queue

/-! ### The state of a port -/

def XON : UInt8 := 17

def XOFF : UInt8 := 19

/-- The reasons of `RX_XOFF_STATE` -/
inductive Reason where
  | flagFull
  | clockHalt
deriving DecidableEq, Repr

structure Port where
  txQueue : Queue
  txBufferXOFF : Bool
  txBufferXON : Bool
  txSwFlowCtrl : Bool
  txXonState : Bool
  rxSwFlowCtrl : Bool
  rxXoffState : Reason → Bool
  powersave : Bool
  initialized : Bool
  rxQueue : Queue
  rxBufferHighWaterMark : Nat
  rxBufferLowWaterMark : Nat

def highWaterMark (size : Nat) : Nat := size * 3 / 4

def lowWaterMark (size : Nat) : Nat := size * 1 / 4

/-- A port after `Initialize`, over the memory of its two buffers -/
def opened (txBuffer rxBuffer : List UInt8) (swIn swOut : Bool) : Port where
  txQueue := Queue.ofData txBuffer
  txBufferXOFF := false
  txBufferXON := false
  txSwFlowCtrl := swOut
  txXonState := true
  rxSwFlowCtrl := swIn
  rxXoffState := fun _ => false
  powersave := false
  initialized := true
  rxQueue := Queue.ofData rxBuffer
  rxBufferHighWaterMark := highWaterMark rxBuffer.length
  rxBufferLowWaterMark := lowWaterMark rxBuffer.length

namespace Port

def noReason (p : Port) : Bool := !p.rxXoffState .flagFull && !p.rxXoffState .clockHalt

def setReason (p : Port) (flag : Reason) (value : Bool) : Port :=
  { p with rxXoffState := fun reason => if reason = flag then value else p.rxXoffState reason }

def sendXOFF (p : Port) (flag : Reason) : Port :=
  if p.powersave then p
  else
    let p := if p.noReason then { p with txBufferXOFF := true } else p
    p.setReason flag true

def sendXON (p : Port) (flag : Reason) : Port :=
  if p.powersave then p
  else
    let p := p.setReason flag false
    if p.noReason then { p with txBufferXON := true } else p

end Port

/-- What goes out on the line -/
inductive Sent where
  | flow (c : UInt8)
  | data (c : UInt8)
deriving DecidableEq, Repr

namespace Port

def addCharToRxBuffer (p : Port) (c : UInt8) : Port × Bool :=
  if p.txSwFlowCtrl ∧ c = XOFF then ({ p with txXonState := false }, true)
  else if p.txSwFlowCtrl ∧ c = XON then ({ p with txXonState := true }, true)
  else
    match p.rxQueue.push c with
    | none => (p, false)
    | some q =>
        let p := { p with rxQueue := q }
        if p.rxQueue.numberOfElements ≥ p.rxBufferHighWaterMark ∧ p.rxSwFlowCtrl then
          (p.sendXOFF .flagFull, true)
        else (p, true)

def removeCharFromTxBuffer (p : Port) : Port × Option Sent :=
  if p.txBufferXOFF then ({ p with txBufferXOFF := false }, some (.flow XOFF))
  else if p.txBufferXON then ({ p with txBufferXON := false }, some (.flow XON))
  else
    match p.txQueue.pop with
    | none => (p, none)
    | some (c, q) => ({ p with txQueue := q }, some (.data c))

/-- A run through the loop of `Write`, with interrupts off, for what is left of the data -/
def writePiece (p : Port) (src : List UInt8) : Port × Nat :=
  if p.powersave ∨ ¬ p.initialized then (p, 0)
  else ({ p with txQueue := (p.txQueue.pushPiece src).2 }, (p.txQueue.pushPiece src).1)

/-- A run through the loop of `Read`, with interrupts off: at most `toRead` characters.  A call
    `Read( Data, size )` is such runs, each for what is left of `size`, until one finds nothing;
    anything else may happen between them. -/
def readPiece (p : Port) (toRead : Nat) : Port × List UInt8 :=
  if p.powersave ∨ ¬ p.initialized then (p, [])
  else
    let (src, q) := p.rxQueue.popPiece toRead
    let p := { p with rxQueue := q }
    if src = [] then (p, [])
    else if q.numberOfElements ≤ p.rxBufferLowWaterMark ∧
        q.numberOfElements + src.length > p.rxBufferLowWaterMark ∧ p.rxSwFlowCtrl then
      (p.sendXON .flagFull, src)
    else (p, src)

/-- The two pops of `DiscardBuffer` -/
def discardQueue (q : Queue) : Queue :=
  let q := (q.popPiece q.numberOfElements).2
  (q.popPiece q.numberOfElements).2

def discardBuffer (p : Port) (fRx : Bool) : Port :=
  if fRx then
    let p := { p with rxQueue := discardQueue p.rxQueue }
    if p.rxSwFlowCtrl then p.sendXON .flagFull else p
  else { p with txQueue := discardQueue p.txQueue }

def prepareForClockStop (p : Port) : Port := if p.rxSwFlowCtrl then p.sendXOFF .clockHalt else p

def clockStopFinished (p : Port) : Port := if p.rxSwFlowCtrl then p.sendXON .clockHalt else p

end Port

/-! ### Calls and interrupts -/

inductive Event where
  | addChar (c : UInt8)
  | readPiece (toRead : Nat)
  | writePiece (src : List UInt8)
  | discardBuffer (fRx : Bool)
  | prepareForClockStop
  | clockStopFinished
  | removeChar
deriving DecidableEq, Repr

inductive Reply where
  | added (value : Bool)
  | read (data : List UInt8)
  | written (nWritten : Nat)
  | sent (what : Option Sent)
  | done
deriving DecidableEq, Repr

def step (p : Port) : Event → Option (Port × Reply)
  | .addChar c => some ((p.addCharToRxBuffer c).1, .added (p.addCharToRxBuffer c).2)
  | .readPiece toRead => some ((p.readPiece toRead).1, .read (p.readPiece toRead).2)
  | .writePiece src => some ((p.writePiece src).1, .written (p.writePiece src).2)
  | .discardBuffer fRx => some (p.discardBuffer fRx, .done)
  | .prepareForClockStop => some (p.prepareForClockStop, .done)
  | .clockStopFinished => some (p.clockStopFinished, .done)
  | .removeChar => some (p.removeCharFromTxBuffer.1, .sent p.removeCharFromTxBuffer.2)

end TinyClr.Usart
