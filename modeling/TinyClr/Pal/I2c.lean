import TinyClr.Pal.Usart
import Mathlib.Logic.Function.Basic

/-!
# I2C transactions

The driver of `DeviceCode/pal/COM/i2c/i2c.cpp` over the controller of
`Targets/Native/AT91/DeviceCode/AT91_I2C/AT91__I2C.cpp`, with the continuations of
`DeviceCode/pal/AsyncProcCall/Continuations.cpp` as far as they are transactions.

Of the registers of the controller only the direction in `TWI_MMR` and whether its interrupts are
enabled are kept; addresses and clock rates are left out.  A step that would follow a pointer
outside an array or NULL, or relink a node without unlinking it, is `none`.
-/

namespace TinyClr.I2c

open TinyClr.Usart (Queue)

/-- The states `c_Status_...` of a transaction -/
inductive Status where
  | idle
  | scheduled
  | processing
  | completed
  | aborted
  | cancelled
deriving DecidableEq, Repr

structure XActionUnit where
  dataQueue : Queue
  bytesTransferred : Nat
  bytesToTransfer : Nat
  fRead : Bool
deriving DecidableEq, Repr

/-- The loop of `I2C_HAL_XACTION_UNIT::Initialize`, which pushes until there is no slot -/
def fill : Queue → List UInt8 → Queue
  | q, [] => q
  | q, c :: src =>
      match q.push c with
      | none => q
      | some q => fill q src

/-- The arguments of `PrepareXActionUnit`, for a buffer that is not empty, and the memory that is
    allocated for it -/
structure Request where
  src : List UInt8
  dst : List UInt8
  fRead : Bool
  length_pos : 0 < dst.length
  length_eq : src.length = dst.length

def XActionUnit.ofRequest (request : Request) : XActionUnit where
  dataQueue :=
    if request.fRead then Queue.ofData request.dst
    else fill (Queue.ofData request.dst) request.src
  bytesTransferred := 0
  bytesToTransfer := request.dst.length
  fRead := request.fRead

structure XAction where
  xActionUnits : List XActionUnit
  current : Nat
  status : Status
deriving DecidableEq, Repr

namespace XAction

/-- `I2C_HAL_XACTION::Initialize`, over units that have been initialised -/
def ofRequests (requests : List Request) : XAction :=
  ⟨requests.map XActionUnit.ofRequest, 0, .idle⟩

def numXActionUnits (xAction : XAction) : Nat := xAction.xActionUnits.length

def processingLastUnit (xAction : XAction) : Bool :=
  decide (xAction.current = xAction.numXActionUnits)

end XAction

/-- `g_I2C_Driver`, `g_AT91_I2C_Driver` and the transactions in the memory; the unit that is being
    transferred is given by its transaction and its index. -/
structure Driver (κ : Type) where
  xActions : List κ
  continuations : List κ
  xAction : κ → XAction
  currentXAction : Option κ
  currentXActionUnit : Option (κ × Nat)
  mread : Bool
  interrupts : Bool

/-- What is started: a transaction by `StartNext`, or a unit by `MasterXAction_Start` -/
inductive Started (κ : Type) where
  | next (x : κ)
  | unit (x : κ) (index : Nat)
deriving DecidableEq, Repr

namespace Driver

variable {κ : Type} [DecidableEq κ]

def setXAction (d : Driver κ) (x : κ) (xAction : XAction) : Driver κ :=
  { d with xAction := Function.update d.xAction x xAction }

def setState (d : Driver κ) (x : κ) (status : Status) : Driver κ :=
  d.setXAction x { d.xAction x with status := status }

/-! ### The controller -/

def masterXActionStart (d : Driver κ) (x : κ) : Option (Driver κ × List (Started κ)) :=
  let xAction := d.xAction x
  (xAction.xActionUnits[xAction.current]?).map fun unit =>
    ({ d.setXAction x { xAction with current := xAction.current + 1 } with
        currentXAction := some x
        currentXActionUnit := some (x, xAction.current)
        mread := unit.fRead
        interrupts := true },
      [.unit x xAction.current])

def masterXActionStop (d : Driver κ) : Driver κ :=
  { d with interrupts := false, currentXAction := none, currentXActionUnit := none }

def unlink (d : Driver κ) (x : κ) : Driver κ :=
  { d with xActions := d.xActions.erase x, continuations := d.continuations.erase x }

/-- `Signal`, with `signal` TRUE; linking the node to the continuations takes it from its list. -/
def signal (d : Driver κ) (x : κ) (state : Status) : Driver κ :=
  let d := (d.setState x state).unlink x
  let d := { d with continuations := d.continuations ++ [x] }
  if (d.xAction x).status ≠ .cancelled then d.masterXActionStop else d

/-! ### The driver -/

def startNext (d : Driver κ) : Option (Driver κ × List (Started κ)) :=
  match d.xActions with
  | [] => some (d, [])
  | x :: _ =>
      ((d.setState x .processing).masterXActionStart x).map fun (d, started) =>
        (d, .next x :: started)

/-- `Enqueue`; `SetCallback` clears the links of the node. -/
def enqueue (d : Driver κ) (x : κ) : Option (Driver κ × List (Started κ)) :=
  if x ∈ d.xActions ∨ x ∈ d.continuations then none
  else
    let d := d.setState x .scheduled
    { d with xActions := d.xActions ++ [x] }.startNext

def cancel (d : Driver κ) (x : κ) : Option (Driver κ × List (Started κ)) :=
  match (d.xAction x).status with
  | .processing => ((d.masterXActionStop.unlink x).setState x .cancelled).startNext
  | .scheduled | .completed | .aborted => ((d.unlink x).setState x .cancelled).startNext
  | .idle | .cancelled => some (d, [])

def completedCallback (d : Driver κ) (x : κ) : Option (Driver κ × List (Started κ)) :=
  let xAction := d.xAction x
  if xAction.current = xAction.numXActionUnits ∨ xAction.status = .aborted ∨
      xAction.status = .cancelled then
    d.startNext
  else some (d, [])

def dequeueAndExecute (d : Driver κ) : Option (Driver κ × List (Started κ)) :=
  match d.continuations with
  | [] => some (d, [])
  | x :: continuations => { d with continuations := continuations }.completedCallback x

end Driver

/-! ### The interrupt -/

def TWI_SR_TXCOMP : UInt32 := 1

def TWI_SR_RXRDY : UInt32 := 2

def TWI_SR_NACK : UInt32 := 256

namespace XActionUnit

def writeToSubordinate (unit : XActionUnit) : Option XActionUnit :=
  unit.dataQueue.pop.map fun (_, dataQueue) =>
    { unit with
      dataQueue := dataQueue
      bytesTransferred := unit.bytesTransferred + 1
      bytesToTransfer := unit.bytesToTransfer - 1 }

def readFromSubordinate (unit : XActionUnit) (data : UInt8) : Option XActionUnit :=
  (unit.dataQueue.push data).map fun dataQueue =>
    { unit with
      dataQueue := dataQueue
      bytesTransferred := unit.bytesTransferred + 1
      bytesToTransfer := unit.bytesToTransfer - 1 }

end XActionUnit

namespace Driver

variable {κ : Type} [DecidableEq κ]

/-- A unit of a transaction, after a byte -/
def setUnit (d : Driver κ) (x : κ) (index : Nat) (unit : XActionUnit) : Driver κ :=
  d.setXAction x
    { d.xAction x with xActionUnits := (d.xAction x).xActionUnits.set index unit }

/-- The first branch of `ISR`; `status && TWI_SR_TXRDY` is whether any bit of the status is set. -/
def isrTx (d : Driver κ) (x : κ) (unitOf : κ) (index : Nat) (unit : XActionUnit) (status : UInt32) :
    Option (Driver κ × List (Started κ)) :=
  if status &&& TWI_SR_NACK ≠ 0 then some (d.signal x .aborted, [])
  else if unit.bytesToTransfer = 0 then
    if status &&& TWI_SR_TXCOMP ≠ 0 then
      if (d.xAction x).processingLastUnit then some (d.signal x .completed, [])
      else d.masterXActionStart x
    else some (d, [])
  else if unit.fRead then some (d, [])
  else if status ≠ 0 then
    unit.writeToSubordinate.map fun unit => (d.setUnit unitOf index unit, [])
  else some (d, [])

/-- The second branch of `ISR` -/
def isrRx (d : Driver κ) (x : κ) (unitOf : κ) (index : Nat) (unit : XActionUnit) (status : UInt32)
    (data : UInt8) : Option (Driver κ × List (Started κ)) :=
  if status &&& TWI_SR_TXCOMP ≠ 0 ∧ unit.bytesToTransfer > 0 then some (d.signal x .aborted, [])
  else
    let lastUnit := (d.xAction x).processingLastUnit
    let unit' :=
      if unit.bytesToTransfer > 0 ∧ status &&& TWI_SR_RXRDY ≠ 0 then unit.readFromSubordinate data
      else some unit
    match unit' with
    | none => none
    | some unit =>
        let d := d.setUnit unitOf index unit
        if unit.bytesToTransfer = 0 ∧ status &&& TWI_SR_TXCOMP ≠ 0 then
          if lastUnit then some (d.signal x .completed, []) else d.masterXActionStart x
        else some (d, [])

/-- `ISR`, with the registers `TWI_SR` and `TWI_RHR`; nothing while the interrupts are off -/
def isr (d : Driver κ) (status : UInt32) (data : UInt8) : Option (Driver κ × List (Started κ)) :=
  if d.interrupts = false then some (d, [])
  else
    match d.currentXAction, d.currentXActionUnit with
    | some x, some (unitOf, index) =>
        match (d.xAction unitOf).xActionUnits[index]? with
        | none => none
        | some unit =>
            if d.mread = false then d.isrTx x unitOf index unit status
            else d.isrRx x unitOf index unit status data
    | _, _ => none

end Driver

/-! ### Calls, interrupts and callbacks -/

inductive Event (κ : Type) where
  | enqueue (x : κ)
  | cancel (x : κ)
  | isr (status : UInt32) (data : UInt8)
  | dequeueAndExecute
deriving DecidableEq, Repr

def step {κ : Type} [DecidableEq κ] (d : Driver κ) :
    Event κ → Option (Driver κ × List (Started κ))
  | .enqueue x => d.enqueue x
  | .cancel x => d.cancel x
  | .isr status data => d.isr status data
  | .dequeueAndExecute => d.dequeueAndExecute

/-- The driver after `Initialize`, and the transactions that will be enqueued -/
def initial {κ : Type} (requests : κ → List Request) : Driver κ where
  xActions := []
  continuations := []
  xAction := fun x => XAction.ofRequests (requests x)
  currentXAction := none
  currentXActionUnit := none
  mread := false
  interrupts := false

end TinyClr.I2c
