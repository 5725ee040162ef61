import TinyClr.Library.MachineInt
import Mathlib.Data.List.Sort

/-!
# The scheduler

`ScheduleThreads`, `PutInProperList` and `InsertThreadRoundRobin` (`CLR/Core/Execution.cpp`) and
the thread operations that reach them (`CLR/Core/Thread.cpp`), without static constructors and
without the debugger.

The three lists link the threads themselves, so a thread is in one list at a time and `Unlink`
takes it out of whichever it is in; here a thread is known by its `pid`.  Between the two halves
of an iteration of `ScheduleThreads` the selected thread runs: it is still linked, and everything
that happens meanwhile is an event of its own.
-/

namespace TinyClr.ExecutionEngine

/-! ### Threads -/

/-- `TH_S_*` -/
inductive Status where
  | ready
  | waiting
  | terminated
  | unstarted
deriving DecidableEq, Repr

def System_Highest : Nat := 5

def TIMEOUT_INFINITE : Int := 0x7FFFFFFFFFFFFFFF

/-- `CLR_RT_Thread`.  The priority is the one of the current subthread, from `Lowest` to
    `System_Highest`; `suspended` and `system` are the flags of these names.  `insertedAt` is not
    in the source: it numbers the insertions into the list of ready threads. -/
structure Thread where
  pid : Nat
  priority : Fin (System_Highest + 1)
  executionCounter : Int
  status : Status
  suspended : Bool
  system : Bool
  waitForEvents : UInt32
  waitForEvents_Timeout : Int
  insertedAt : Nat
deriving DecidableEq, Repr

def Thread.getExecutionCounter (th : Thread) : Int := th.priority.val + th.executionCounter

def Thread.getQuantumDebit (th : Thread) : Int := 1 <<< (System_Highest - th.priority.val)

/-- How far a counter may be ahead: `(1 << ThreadPriority::System_Highest) + 1`. -/
def maxCredit : Int := (1 <<< System_Highest) + 1

/-- `BringExecCounterToDate`; its second argument is not used. -/
def Thread.bringExecCounterToDate (th : Thread) (globalExecutionCounter : Int) : Thread :=
  if th.executionCounter - globalExecutionCounter > maxCredit then
    { th with executionCounter := globalExecutionCounter + maxCredit }
  else th

/-! ### The engine -/

/-- What the engine keeps for scheduling.  `running` is `th` of `ScheduleThreads` while
    `th->Execute()` is on its way, and `contextSwitches` what is left of `maxContextSwitch`.
    `clock` counts the insertions into the list of ready threads. -/
structure Engine where
  threadsReady : List Thread
  threadsWaiting : List Thread
  threadsZombie : List Thread
  globalExecutionCounter : Int
  running : Option Nat
  contextSwitches : Nat
  clock : Nat
deriving DecidableEq, Repr

def Engine.initial : Engine :=
  { threadsReady := [], threadsWaiting := [], threadsZombie := [], globalExecutionCounter := 0,
    running := none, contextSwitches := 0, clock := 0 }

def Engine.threads (s : Engine) : List Thread :=
  s.threadsReady ++ s.threadsWaiting ++ s.threadsZombie

def Engine.find (s : Engine) (pid : Nat) : Option Thread := s.threads.find? (·.pid = pid)

def Engine.unlink (s : Engine) (pid : Nat) : Engine :=
  { s with
    threadsReady := s.threadsReady.filter (·.pid ≠ pid)
    threadsWaiting := s.threadsWaiting.filter (·.pid ≠ pid)
    threadsZombie := s.threadsZombie.filter (·.pid ≠ pid) }

def changeThread (pid : Nat) (f : Thread → Thread) (th : Thread) : Thread :=
  if th.pid = pid then f th else th

def Engine.change (s : Engine) (pid : Nat) (f : Thread → Thread) : Engine :=
  { s with
    threadsReady := s.threadsReady.map (changeThread pid f)
    threadsWaiting := s.threadsWaiting.map (changeThread pid f)
    threadsZombie := s.threadsZombie.map (changeThread pid f) }

/-- The search of `InsertThreadRoundRobin` stops at the first thread that `thTarget` goes before:
    `th->GetExecutionCounter() < priTarget`. -/
def Goes (thTarget th : Thread) : Prop := th.getExecutionCounter < thTarget.getExecutionCounter

instance : DecidableRel Goes := fun thTarget th =>
  inferInstanceAs (Decidable (th.getExecutionCounter < thTarget.getExecutionCounter))

/-- `InsertThreadRoundRobin( m_threadsReady, thTarget )` after the `Unlink`; the node of
    `m_waitForObject` goes back to the event cache. -/
def Engine.insertThreadRoundRobin (s : Engine) (thTarget : Thread) : Engine :=
  { s with
    threadsReady := s.threadsReady.orderedInsert Goes
      { thTarget with
        waitForEvents := 0, waitForEvents_Timeout := TIMEOUT_INFINITE, insertedAt := s.clock }
    clock := s.clock + 1 }

/-- What `Passivate` leaves of a thread; locks, subthreads and callbacks are separate events. -/
def Thread.passivate (th : Thread) : Thread :=
  { th with
    suspended := false, waitForEvents := 0, waitForEvents_Timeout := TIMEOUT_INFINITE
    status := if th.system then .unstarted else .terminated }

/-- The list an unlinked thread belongs in. -/
def Engine.link (s : Engine) (th : Thread) : Engine :=
  match th.status with
  | .ready =>
      if th.suspended then { s with threadsWaiting := s.threadsWaiting ++ [th] }
      else s.insertThreadRoundRobin th
  | .waiting => { s with threadsWaiting := s.threadsWaiting ++ [th] }
  | .terminated => { s with threadsZombie := th.passivate :: s.threadsZombie }
  | .unstarted => { s with threadsZombie := th :: s.threadsZombie }

/-- `PutInProperList`; every list operation unlinks its thread first. -/
def Engine.putInProperList (s : Engine) (th : Thread) : Engine := (s.unlink th.pid).link th

/-! ### `ScheduleThreads` -/

def EXECUTION_COUNTER_MAXIMUM : Int := 0x70000000

def EXECUTION_COUNTER_ADJUSTMENT : Int := 0x60000000

def Thread.adjust (globalExecutionCounter iUpdateValue : Int) (th : Thread) : Thread :=
  { th with executionCounter := th.executionCounter + iUpdateValue }.bringExecCounterToDate
    globalExecutionCounter

def Engine.renormalise (s : Engine) : Engine :=
  if s.globalExecutionCounter < -EXECUTION_COUNTER_MAXIMUM then
    let globalExecutionCounter := s.globalExecutionCounter + EXECUTION_COUNTER_ADJUSTMENT
    let adjust := List.map (Thread.adjust globalExecutionCounter EXECUTION_COUNTER_ADJUSTMENT)
    { s with
      globalExecutionCounter := globalExecutionCounter
      threadsReady := adjust s.threadsReady
      threadsWaiting := adjust s.threadsWaiting
      threadsZombie := adjust s.threadsZombie }
  else s

def Thread.debit (globalExecutionCounter : Int) (th : Thread) : Thread :=
  let th := th.bringExecCounterToDate globalExecutionCounter
  { th with executionCounter := th.executionCounter - th.getQuantumDebit }

/-- An iteration of `ScheduleThreads` up to `th->Execute()`, with the thread selected.  Without
    a ready thread `ScheduleThreads` returns. -/
def Engine.select (s : Engine) : Engine × Option Thread :=
  match s.threadsReady with
  | [] => ({ s with contextSwitches := 0 }, none)
  | th :: threads =>
      let debited := th.debit s.globalExecutionCounter
      ({ s with
          threadsReady := debited :: threads
          running := some th.pid
          contextSwitches := s.contextSwitches - 1
          globalExecutionCounter := min s.globalExecutionCounter debited.executionCounter },
        some th)

/-- What `th->Execute()` returns, as far as `ScheduleThreads` tells it apart. -/
inductive ExecuteResult where
  | succeeded
  | reschedule
  | threadWaiting
  | otherFailure
deriving DecidableEq, Repr

def ExecuteResult.status (hr : ExecuteResult) (status : Status) : Status :=
  match hr with
  | .succeeded => status
  | .reschedule => status
  | .threadWaiting => .waiting
  | .otherFailure => .terminated

/-! ### Events -/

/-- What happens to the engine.  The thread operations may come from the running thread, from
    timers or from interrupts. -/
inductive Event where
  /-- `ScheduleThreads( maxContextSwitch )` is called. -/
  | schedule (maxContextSwitch : UInt16)
  | select
  /-- `Execute` returns. -/
  | finish (hr : ExecuteResult)
  /-- The running thread sets its own status: it ends, or is about to wait. -/
  | setStatus (status : Status)
  /-- `UpdateToLowestExecutionCounter`, of the running thread in `Thread.Sleep( 0 )` -/
  | updateToLowestExecutionCounter
  /-- `NewThread`, with a delegate or without -/
  | newThread (pid : Nat) (priority : Fin (System_Highest + 1)) (system delegate : Bool)
  | pushThreadProcDelegate (pid : Nat)
  | restart (pid : Nat) (fDeleteEvent : Bool)
  | suspend (pid : Nat)
  | resume (pid : Nat)
  | terminate (pid : Nat)
  /-- `ReleaseWhenDead` -/
  | release (pid : Nat)
deriving DecidableEq, Repr

def Thread.createInstance (pid : Nat) (priority : Fin (System_Highest + 1)) (system : Bool) : Thread :=
  { pid := pid, priority := priority, executionCounter := 0, status := .unstarted,
    suspended := false, system := system, waitForEvents := 0,
    waitForEvents_Timeout := TIMEOUT_INFINITE, insertedAt := 0 }

/-- The thread an event hands to `PutInProperList`. -/
def Event.put (s : Engine) : Event → Option Thread
  | .finish hr => do
      let pid ← s.running
      let th ← s.find pid
      some { th with status := hr.status th.status }
  | .newThread pid priority system delegate =>
      if (s.find pid).isSome then none
      else some { Thread.createInstance pid priority system with
        status := if delegate then .ready else .unstarted }
  | .pushThreadProcDelegate pid => (s.find pid).map ({ · with status := .ready })
  | .restart pid _ => (s.find pid).map ({ · with status := .ready })
  | .suspend pid => (s.find pid).map ({ · with suspended := true })
  | .resume pid => (s.find pid).map ({ · with suspended := false })
  | .terminate pid => (s.find pid).map ({ · with status := .terminated })
  | _ => none

/-- One event, with the thread selected by it; `none` where the event cannot happen. -/
def step (s : Engine) (e : Event) : Option (Engine × Option Thread) :=
  match e with
  | .schedule maxContextSwitch =>
      if s.running = none then
        some ({ s.renormalise with contextSwitches := maxContextSwitch.toNat }, none)
      else none
  | .select => if s.running = none ∧ 0 < s.contextSwitches then some s.select else none
  | .finish _ =>
      (e.put s).map fun th => ({ s.putInProperList th with running := none }, none)
  | .setStatus status => s.running.map fun pid => (s.change pid ({ · with status := status }), none)
  | .updateToLowestExecutionCounter =>
      s.running.map fun pid =>
        (s.change pid ({ · with executionCounter := s.globalExecutionCounter - 1 }), none)
  | .newThread _ _ _ delegate =>
      -- with a delegate, `PushThreadProcDelegate` has put the thread in its list before
      (e.put s).map fun th =>
        ((if delegate then s.putInProperList th else s).putInProperList th, none)
  | .pushThreadProcDelegate _ => (e.put s).map fun th => (s.putInProperList th, none)
  | .restart pid fDeleteEvent =>
      (e.put s).map fun th =>
        (if fDeleteEvent then
          (s.putInProperList th).change pid
            ({ · with waitForEvents := 0, waitForEvents_Timeout := TIMEOUT_INFINITE })
        else s.putInProperList th, none)
  | .suspend pid => do
      let th ← s.find pid
      if th.suspended = false ∧ th.status ≠ .terminated then
        (e.put s).map fun th => (s.putInProperList th, none)
      else some (s, none)
  | .resume pid => do
      let th ← s.find pid
      if th.suspended ∧ th.status ≠ .terminated then
        (e.put s).map fun th => (s.putInProperList th, none)
      else some (s, none)
  | .terminate _ => (e.put s).map fun th => (s.putInProperList th, none)
  | .release pid => if s.running = some pid then none else some (s.unlink pid, none)

end TinyClr.ExecutionEngine
