import Mathlib.Logic.Function.Basic
import TinyClr.Library.Runs

/-!
# The completion queue

`HAL_COMPLETION` (`DeviceCode/pal/AsyncProcCall/Completions.cpp`): completions wait in one list for
the compare value of the hardware timer.

`κ` stands for the addresses of completions.  A callback that runs in an interrupt makes its own
calls as later events.  The debug build's fields are left out.
-/

namespace TinyClr.Completions

open TinyClr.Library

def HAL_Completion_IdleValue : Nat := 0x0000FFFFFFFFFFFF

/-- The fields of a `HAL_COMPLETION`; `entryPoint` is `GetEntryPoint() != NULL`. -/
structure Completion where
  eventTimeTicks : Nat
  executeInISR : Bool
  entryPoint : Bool
deriving DecidableEq, Repr

/-- The flags `c_SetCompare`, `c_ResetCompare` and `c_NilCompare` that `WaitForInterrupts` decides on
    before it sleeps. -/
structure SleepState where
  setCompare : Bool
  resetCompare : Bool
  nilCompare : Bool
deriving DecidableEq, Repr

/-- What has happened to a completion; an execution with its time and the clock's. -/
inductive Mark (κ : Type) where
  | enqueued (completion : κ)
  | executed (completion : κ) (eventTimeTicks currentTicks : Nat)
  | aborted (completion : κ)
deriving DecidableEq, Repr

/-- The two lists, the timer and its clock.  `tailTicks` is what `EventTimeTicks` reads in the list's
    tail node; `sleep` is the state of a `WaitForInterrupts` in progress.  `history`, `enqueuedAt`
    (its length at the last enqueue), the callbacks that were `called` and those `dropped` after an
    execution are only recorded. -/
structure System (κ : Type) where
  completions : κ → Completion
  list : List κ
  continuations : List κ
  compare : Nat
  currentTicks : Nat
  tailTicks : Nat
  systemTimer : Bool
  sleep : Option SleepState
  history : List (Mark κ)
  enqueuedAt : κ → Nat
  called : List κ
  dropped : List κ

variable {κ : Type} [DecidableEq κ]

namespace System

def ticks (s : System κ) (c : κ) : Nat := (s.completions c).eventTimeTicks

/-- `HAL_Time_SetCompare` -/
def setCompare (s : System κ) (compareValue : Nat) : System κ := { s with compare := compareValue }

/-- `EventTimeTicks` of a node, which may be the tail -/
def nodeTicks (s : System κ) : Option κ → Nat
  | some ptr => s.ticks ptr
  | none => s.tailTicks

/-- `HAL_CONTINUATION::Enqueue` -/
def enqueueContinuation (s : System κ) (this : κ) : System κ :=
  if (s.completions this).entryPoint then
    { s with continuations := s.continuations.filter (· ≠ this) ++ [this] }
  else { s with dropped := this :: s.dropped }

/-- The list of continuations loses a completion that is linked elsewhere or unlinked. -/
def unlinkContinuation (s : System κ) (this : κ) : System κ :=
  { s with
    continuations := s.continuations.filter (· ≠ this)
    dropped := if this ∈ s.continuations then this :: s.dropped else s.dropped }

def execute (s : System κ) (this : κ) : System κ :=
  let s : System κ := { s with history := s.history ++ [.executed this (s.ticks this) s.currentTicks] }
  if (s.completions this).executeInISR then { s with called := this :: s.called }
  else s.enqueueContinuation this

def dequeueAndExec (s : System κ) : System κ :=
  match s.list with
  | [] => s
  | ptr :: rest =>
      let s := { s with systemTimer := true, list := rest }
      let s := s.setCompare
        (match rest with
          | ptrNext :: _ => s.ticks ptrNext
          | [] => HAL_Completion_IdleValue)
      s.execute ptr

def timerInterrupt (s : System κ) : System κ :=
  if s.compare ≤ s.currentTicks then s.dequeueAndExec else s

/-- `InsertBeforeNode`; `none` is the tail. -/
def insertBeforeNode (list : List κ) (node : Option κ) (this : κ) : List κ :=
  if node = some this then list
  else
    let list := list.filter (· ≠ this)
    list.takeWhile (some · ≠ node) ++ this :: list.dropWhile (some · ≠ node)

def enqueueTicks (s : System κ) (this : κ) (eventTimeTicks : Nat) : System κ :=
  let s := { s with
    completions := Function.update s.completions this
      { s.completions this with eventTimeTicks := eventTimeTicks } }
  let ptr := s.list.find? fun ptr => eventTimeTicks < s.ticks ptr
  let s : System κ := { s.unlinkContinuation this with
    list := insertBeforeNode s.list ptr this
    enqueuedAt := Function.update s.enqueuedAt this s.history.length
    history := s.history ++ [.enqueued this] }
  if s.list.head? = some this then s.setCompare eventTimeTicks else s

def abort (s : System κ) (this : κ) : System κ :=
  let firstNode := s.list.head?
  let s : System κ := { s.unlinkContinuation this with
    list := s.list.filter (· ≠ this)
    history := if this ∈ s.list then s.history ++ [.aborted this] else s.history }
  if firstNode = some this then
    s.setCompare
      (match s.list with
        | [] => HAL_Completion_IdleValue
        | firstNode :: _ => s.ticks firstNode)
  else s

/-- `WaitForInterrupts` up to `CPU_Sleep` -/
def sleepUntil (s : System κ) (expire : Nat) : System κ :=
  let state : SleepState :=
    match s.list with
    | [] => { setCompare := true, resetCompare := false, nilCompare := true }
    | ptr :: _ =>
        if s.ticks ptr > expire then { setCompare := true, resetCompare := true, nilCompare := false }
        else { setCompare := false, resetCompare := false, nilCompare := false }
  let s := { s with sleep := some state }
  if state.setCompare then s.setCompare expire else s

/-- `WaitForInterrupts` from `CPU_Sleep` on -/
def wake (s : System κ) (state : SleepState) : System κ :=
  let s := { s with sleep := none }
  if state.resetCompare || state.nilCompare then
    s.setCompare
      (if state.resetCompare then s.nodeTicks s.list.head? else HAL_Completion_IdleValue)
  else s

/-- `HAL_CONTINUATION::Dequeue_And_Execute` -/
def dequeueContinuation (s : System κ) : System κ :=
  match s.continuations with
  | [] => s
  | ptr :: rest => { s with continuations := rest, called := ptr :: s.called }

end System

/-- What may happen next; `clock` lets the given number of ticks pass. -/
inductive Event (κ : Type) where
  | clock (ticks : Nat)
  | timerInterrupt
  | enqueueTicks (this : κ) (eventTimeTicks : Nat)
  | abort (this : κ)
  | sleepUntil (expire : Nat)
  | wake
  | dequeueContinuation
deriving DecidableEq, Repr

/-- One event.  A queued completion is not enqueued again, and there is one `WaitForInterrupts` at a
    time. -/
def step (s : System κ) : Event κ → Option (System κ × Unit)
  | .clock ticks => some ({ s with currentTicks := s.currentTicks + ticks }, ())
  | .timerInterrupt => some (s.timerInterrupt, ())
  | .enqueueTicks this eventTimeTicks =>
      if this ∈ s.list then none else some (s.enqueueTicks this eventTimeTicks, ())
  | .abort this => some (s.abort this, ())
  | .sleepUntil expire =>
      match s.sleep with
      | some _ => none
      | none => some (s.sleepUntil expire, ())
  | .wake =>
      match s.sleep with
      | some state => some (s.wake state, ())
      | none => none
  | .dequeueContinuation => some (s.dequeueContinuation, ())

/-- `InitializeList`, with the compare value of `HAL_Time_Initialize` -/
def initial (completions : κ → Completion) (currentTicks tailTicks : Nat) : System κ where
  completions := completions
  list := []
  continuations := []
  compare := HAL_Completion_IdleValue
  currentTicks := currentTicks
  tailTicks := tailTicks
  systemTimer := false
  sleep := none
  history := []
  enqueuedAt := fun _ => 0
  called := []
  dropped := []

end TinyClr.Completions
