import TinyClr.Core.HResult
import TinyClr.Core.Scheduler
import TinyClr.Library.ListWalk

/-!
# Waiting for objects

`CLR_RT_HeapBlock_WaitForObject` (`CLR/Core/CLR_RT_HeapBlock_WaitForObject.cpp`), `Suspend`,
`Resume` and `Restart` (`CLR/Core/Thread.cpp`), `PutInProperList` and the wait timeouts of
`CheckThreads` (`CLR/Core/Execution.cpp`), and the call of a native method that waits
(`CLR/Core/Interpreter.cpp`).

Of the lists of threads only `m_threadsWaiting` is kept: no thread in another list has a wait.
Waits for events, locks and constraints are not part of a thread here.  A walk along the list has
fuel, and is `none` where that has run out.
-/

namespace TinyClr.WaitForObject

open TinyClr.Library
open TinyClr.ExecutionEngine (Status)

/-! ### State -/

/-- `HB_Signaled` and `HB_SignalAutoReset` of an object -/
structure WaitObject where
  signaled : Bool
  autoReset : Bool
deriving DecidableEq, Repr

abbrev Objects : Type := Nat → WaitObject

structure Wait where
  timeExpire : Int
  objects : List Nat
  waitAll : Bool
deriving DecidableEq, Repr

inductive WaitResult where
  | init
  | handle (i : Nat)
  | timeout
  | handleAll
deriving DecidableEq, Repr

/-- What a thread keeps of its wait; no wait is NULL.  `customState` is `m_customState` of the frame of
    the native method that waits, and 0 where there is no such frame. -/
structure Thread where
  status : Status
  suspended : Bool
  waitForObject : Option Wait
  waitForObject_Result : WaitResult
  customState : Nat
deriving DecidableEq, Repr

variable {n : Nat}

structure Engine (n : Nat) where
  objects : Objects
  threads : Fin n → Thread
  threadsWaiting : List (Fin n)

def Engine.initial (objects : Objects) : Engine n where
  objects := objects
  threads := fun _ =>
    { status := .ready, suspended := false, waitForObject := none, waitForObject_Result := .init,
      customState := 0 }
  threadsWaiting := []

def Engine.setThread (s : Engine n) (th : Fin n) (thread : Thread) : Engine n :=
  { s with threads := Function.update s.threads th thread }

def Engine.setCustomState (s : Engine n) (th : Fin n) (customState : Nat) : Engine n :=
  s.setThread th { s.threads th with customState }

/-! ### Lists -/

def Engine.insertReady (s : Engine n) (th : Fin n) : Engine n :=
  { s with threadsWaiting := s.threadsWaiting.filter (· ≠ th) }.setThread th
    { s.threads th with waitForObject := none }

def Engine.putInProperList (s : Engine n) (th : Fin n) : Engine n :=
  match (s.threads th).status, (s.threads th).suspended with
  | .ready, false => s.insertReady th
  | .ready, true => { s with threadsWaiting := linkAtBack s.threadsWaiting th }
  | .waiting, _ => { s with threadsWaiting := linkAtBack s.threadsWaiting th }
  | .terminated, _ => { s with threadsWaiting := s.threadsWaiting.filter (· ≠ th) }
  | .unstarted, _ => { s with threadsWaiting := s.threadsWaiting.filter (· ≠ th) }

def Engine.restart (s : Engine n) (th : Fin n) : Engine n :=
  (s.setThread th { s.threads th with status := .ready }).putInProperList th

def Engine.suspend (s : Engine n) (th : Fin n) : Engine n :=
  if (s.threads th).suspended = false ∧ (s.threads th).status ≠ .terminated then
    (s.setThread th { s.threads th with suspended := true }).putInProperList th
  else s

def Engine.resume (s : Engine n) (th : Fin n) : Engine n :=
  if (s.threads th).suspended = true ∧ (s.threads th).status ≠ .terminated then
    (s.setThread th { s.threads th with suspended := false }).putInProperList th
  else s

/-! ### `TryWaitForSignal` -/

def take (objects : Objects) (x : Nat) : Objects :=
  if (objects x).autoReset then
    Function.update objects x { objects x with signaled := false }
  else objects

/-- The loop where any object will do, from the `i`-th one on -/
def tryAny (objects : Objects) : List Nat → Nat → Option (Objects × WaitResult)
  | [], _ => none
  | x :: rest, i =>
      if (objects x).signaled then some (take objects x, .handle i)
      else tryAny objects rest (i + 1)

/-- `TryWaitForSignal`: the objects afterwards and the result, where the wait is satisfied -/
def tryWaitForSignal (objects : Objects) (waitFor : List Nat) (waitAll : Bool) :
    Option (Objects × WaitResult) :=
  if waitAll then
    if waitFor.all fun x => (objects x).signaled then some (waitFor.foldl take objects, .handleAll)
    else none
  else tryAny objects waitFor 0

/-- The results that are set, in order -/
abbrev Results (n : Nat) : Type := List (Fin n × WaitResult)

def Engine.tryThread (s : Engine n) (th : Fin n) : Engine n × Results n :=
  match (s.threads th).waitForObject with
  | none => (s, [])
  | some wait =>
      match tryWaitForSignal s.objects wait.objects wait.waitAll with
      | none => (s, [])
      | some (objects, result) =>
          (({ s with objects }.setThread th
            { s.threads th with waitForObject_Result := result }).restart th, [(th, result)])

/-! ### Calls -/

/-- An iteration of `SignalObject` -/
def signalNext (x : Nat) (s : Engine n × Results n) (th : Fin n) : (Engine n × Results n) × Bool :=
  let (engine, results) := s.1.tryThread th
  ((engine, s.2 ++ results), (engine.objects x).signaled)

/-- The thread after one in `m_threadsWaiting` -/
def nextWaiting (s : Engine n × Results n) (th : Fin n) : Option (Fin n) :=
  following s.1.threadsWaiting th

def setSignaled (objects : Objects) (x : Nat) (signaled : Bool) : Objects :=
  Function.update objects x { objects x with signaled }

def signalObject (fuel : Nat) (s : Engine n) (x : Nat) : Option (Engine n × Results n) :=
  walk nextWaiting (signalNext x) fuel ({ s with objects := setSignaled s.objects x true }, [])
    s.threadsWaiting.head?

def resetObject (s : Engine n) (x : Nat) : Engine n :=
  { s with objects := setSignaled s.objects x false }

/-- An iteration of `CheckThreads`; `debugging` is `TINYCLR_ENABLE_SOURCELEVELDEBUGGING`. -/
def checkThread (debugging : Bool) (machineTime : Int) (s : Engine n × Results n) (th : Fin n) :
    (Engine n × Results n) × Bool :=
  if debugging ∧ (s.1.threads th).suspended then (s, true)
  else
    match (s.1.threads th).waitForObject with
    | none => (s, true)
    | some wait =>
        if wait.timeExpire ≤ machineTime then
          (((s.1.setThread th { s.1.threads th with waitForObject_Result := .timeout }).restart th,
            s.2 ++ [(th, .timeout)]), true)
        else (s, true)

def checkThreads (fuel : Nat) (debugging : Bool) (s : Engine n) (machineTime : Int) :
    Option (Engine n × Results n) :=
  walk nextWaiting (checkThread debugging machineTime) fuel (s, []) s.threadsWaiting.head?

/-- What `WaitForSignal` returns, with `m_waitForObject_Result` where it is `S_OK` -/
inductive WaitReturn where
  | ok (result : WaitResult)
  | threadWaiting
  | failed (code : Failure)
deriving DecidableEq, Repr

def createInstance (s : Engine n) (caller : Fin n) (wait : Wait) : Engine n :=
  s.setThread caller { s.threads caller with
    status := .waiting, waitForObject := some wait, waitForObject_Result := .init }

/-- `WaitForSignal`, given whether the event cache has room for the wait; an object may be NULL. -/
def waitForSignal (s : Engine n) (caller : Fin n) (timeExpire : Int) (objects : List (Option Nat))
    (waitAll allocated : Bool) : Engine n × WaitReturn :=
  if (s.threads caller).customState = 0 then
    let s := s.setCustomState caller 1
    if objects.length > 64 then (s, .failed .invalidParameter)
    else
      match objects.mapM id with
      | none => (s, .failed .nullReference)
      | some waitFor =>
          match tryWaitForSignal s.objects waitFor waitAll with
          | some (objects, result) =>
              ({ s with objects }.setThread caller
                { s.threads caller with waitForObject_Result := result }, .ok result)
          | none =>
              if allocated then
                (createInstance s caller { timeExpire, objects := waitFor, waitAll },
                  .threadWaiting)
              else (s, .failed .outOfMemory)
  else (s, .ok (s.threads caller).waitForObject_Result)

/-- The loop of `Execute_Inner` over a native method that waits: with
    `c_CompactAndRestartOnOutOfMemory` (`restarts`) the method is called once more on its frame after
    a compaction of the heap.  The frame is popped then, unless the thread is to wait and put into
    its list. -/
def executeWait (s : Engine n) (caller : Fin n) (timeExpire : Int) (objects : List (Option Nat))
    (waitAll allocated restarts : Bool) : Engine n × WaitReturn :=
  let (s, value) := waitForSignal s caller timeExpire objects waitAll allocated
  let (s, value) :=
    if value = .failed .outOfMemory ∧ restarts then
      waitForSignal s caller timeExpire objects waitAll allocated
    else (s, value)
  match value with
  | .threadWaiting => (s.putInProperList caller, value)
  | _ => (s.setCustomState caller 0, value)

/-! ### Runs -/

inductive Op (n : Nat) where
  | waitForSignal (caller : Fin n) (timeExpire : Int) (objects : List (Option Nat))
      (waitAll allocated restarts : Bool)
  | signalObject (x : Nat)
  | reset (x : Nat)
  | checkThreads (machineTime : Int)
  | suspend (th : Fin n)
  | resume (th : Fin n)
deriving DecidableEq, Repr

inductive Answer (n : Nat) where
  | unit
  | returned (value : WaitReturn)
  | results (results : Results n)
deriving DecidableEq, Repr

/-- A call; `none`: its walk has not come to an end. -/
def step (fuel : Nat) (debugging : Bool) (s : Engine n) : Op n → Option (Engine n × Answer n)
  | .waitForSignal caller timeExpire objects waitAll allocated restarts =>
      let (s, value) := executeWait s caller timeExpire objects waitAll allocated restarts
      some (s, .returned value)
  | .signalObject x => (signalObject fuel s x).map fun (s, results) => (s, .results results)
  | .reset x => some (resetObject s x, .unit)
  | .checkThreads machineTime =>
      (checkThreads fuel debugging s machineTime).map fun (s, results) => (s, .results results)
  | .suspend th => some (s.suspend th, .unit)
  | .resume th => some (s.resume th, .unit)

end TinyClr.WaitForObject
