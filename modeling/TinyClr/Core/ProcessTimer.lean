import TinyClr.Core.WaitForObject
import TinyClr.Library.MachineInt

/-!
# Timers, timeouts and sleep

`WaitForActivity`, `ProcessTimer`, `CheckTimers` and `CheckThreads` (`CLR/Core/Execution.cpp`) with
the thread operations they reach, built with `TINYCLR_ENABLE_SOURCELEVELDEBUGGING`.

`UpdateTime` and `ProcessHardware` have been called: what they change is an event of its own.
`DestroyInstance` of a subthread is a parameter.  A walk along a list of threads has fuel.
-/

namespace TinyClr.ProcessTimer

open TinyClr.Library
open TinyClr.ExecutionEngine (Status TIMEOUT_INFINITE)
open TinyClr.WaitForObject (Wait WaitResult)

/-! ### State -/

/-- `CLR_RT_HeapBlock_Timer`; `referenced` is `m_references` with an element. -/
structure Timer where
  id : Nat
  enabled : Bool
  absolute : Bool
  executing : Bool
  triggered : Bool
  referenced : Bool
  timeExpire : Int
deriving DecidableEq, Repr

variable {n : Nat}

/-- `CLR_RT_HeapBlock_LockRequest`; a subthread is known by the thread that owns it and its place in
    `m_subThreads`. -/
structure LockRequest (n : Nat) where
  owningThread : Fin n
  subthreadWaiting : Nat
  timeExpire : Int
deriving DecidableEq, Repr

structure Lock (n : Nat) where
  requests : List (LockRequest n)
deriving DecidableEq, Repr

structure SubThread where
  lockRequestsCount : Int
  timeConstraint : Int
  triggered : Bool
deriving DecidableEq, Repr

/-- `CLR_RT_Thread`; `executionCounter` is `GetExecutionCounter`. -/
structure Thread (n : Nat) where
  status : Status
  suspended : Bool
  executionCounter : Int
  waitForEvents : UInt32
  waitForEvents_Timeout : Int
  waitForEvents_IdleTimeWorkItem : Int
  waitForObject : Option Wait
  waitForObject_Result : WaitResult
  locks : List (Lock n)
  lockRequestsCount : Int
  subThreads : List SubThread
deriving DecidableEq, Repr

/-- The execution engine; `systemTimer` is `SYSTEM_EVENT_FLAG_SYSTEM_TIMER` of `m_wakeupEvents`,
    `stopped` and `pauseTimers` are conditions of the debugger. -/
structure Engine (n : Nat) where
  threads : Fin n → Thread n
  threadsReady : List (Fin n)
  threadsWaiting : List (Fin n)
  timers : List Timer
  currentMachineTime : Int
  currentLocalTime : Int
  maximumTimeToActive : Int
  timerCache : Bool
  timerCacheNextTimeout : Int
  compensation : Int
  systemTimer : Bool
  stopped : Bool
  pauseTimers : Bool

def Engine.setThread (s : Engine n) (th : Fin n) (thread : Thread n) : Engine n :=
  { s with threads := Function.update s.threads th thread }

/-! ### Lists -/

def Engine.unlink (s : Engine n) (th : Fin n) : Engine n :=
  { s with
    threadsReady := s.threadsReady.filter (· ≠ th)
    threadsWaiting := s.threadsWaiting.filter (· ≠ th) }

def Engine.insertThreadRoundRobin (s : Engine n) (thTarget : Fin n) : Engine n :=
  let s := s.unlink thTarget
  { s with
    threadsReady := s.threadsReady.orderedInsert
      (fun thTarget th => (s.threads th).executionCounter < (s.threads thTarget).executionCounter)
      thTarget }.setThread thTarget
    { s.threads thTarget with
      waitForEvents := 0, waitForEvents_Timeout := TIMEOUT_INFINITE, waitForObject := none }

def Engine.linkWaiting (s : Engine n) (th : Fin n) : Engine n :=
  let s := s.unlink th
  { s with threadsWaiting := s.threadsWaiting ++ [th] }

def Engine.putInProperList (s : Engine n) (th : Fin n) : Engine n :=
  match (s.threads th).status, (s.threads th).suspended with
  | .ready, false => s.insertThreadRoundRobin th
  | .ready, true => s.linkWaiting th
  | .waiting, _ => s.linkWaiting th
  | .terminated, _ => s.unlink th
  | .unstarted, _ => s.unlink th

def Engine.restart (s : Engine n) (th : Fin n) (fDeleteEvent : Bool) : Engine n :=
  let s := (s.setThread th { s.threads th with status := .ready }).putInProperList th
  if fDeleteEvent then
    s.setThread th
      { s.threads th with waitForEvents := 0, waitForEvents_Timeout := TIMEOUT_INFINITE }
  else s

def Engine.suspend (s : Engine n) (th : Fin n) : Engine n :=
  if (s.threads th).suspended = false ∧ (s.threads th).status ≠ .terminated then
    (s.setThread th { s.threads th with suspended := true }).putInProperList th
  else s

def Engine.resume (s : Engine n) (th : Fin n) : Engine n :=
  if (s.threads th).suspended = true ∧ (s.threads th).status ≠ .terminated then
    (s.setThread th { s.threads th with suspended := false }).putInProperList th
  else s

def Engine.passivate (s : Engine n) (th : Fin n) : Engine n :=
  (s.unlink th).setThread th { s.threads th with suspended := false }

/-! ### Expiry -/

def isTimeExpired (cmp timeExpire timeoutMin : Int) : Bool × Int :=
  if timeExpire ≤ cmp then (true, timeoutMin)
  else (false, if timeExpire - cmp < timeoutMin then timeExpire - cmp else timeoutMin)

def Engine.timerClock (s : Engine n) (timer : Timer) : Int :=
  if timer.absolute then s.currentLocalTime else s.currentMachineTime

def Timer.trigger (timer : Timer) : Timer :=
  if ¬ timer.referenced then timer
  else if timer.executing then timer
  else { timer with triggered := true }

/-- A timer in the loop of `CheckTimers`: what becomes of it, and whether `fAnyTimersExpired` is
    set -/
def Engine.checkTimer (s : Engine n) (timer : Timer) (timeoutMin : Int) : Timer × Bool × Int :=
  if timer.enabled then
    match isTimeExpired (s.timerClock timer) timer.timeExpire timeoutMin with
    | (true, timeoutMin) =>
        if s.pauseTimers then (timer, false, timeoutMin) else (timer.trigger, true, timeoutMin)
    | (false, timeoutMin) => (timer, false, timeoutMin)
  else (timer, false, timeoutMin)

/-- The loop of `CheckTimers` -/
def Engine.checkTimerList (s : Engine n) : List Timer → Int → List Timer × Bool × Int
  | [], timeoutMin => ([], false, timeoutMin)
  | timer :: rest, timeoutMin =>
      let (timer, expired, timeoutMin) := s.checkTimer timer timeoutMin
      let (rest, anyExpired, timeoutMin) := s.checkTimerList rest timeoutMin
      (timer :: rest, expired || anyExpired, timeoutMin)

/-- What `SpawnTimer` depends on: the thread of timers, where it is there and can be reused, and
    whether `PushThreadProcDelegate` succeeds -/
structure TimerThread (n : Nat) where
  thread : Option (Fin n)
  pushed : Bool

/-- `SpawnTimer` of the engine: one timer that has been triggered is started and goes to the back of
    the queue. -/
def Engine.spawnTimer (s : Engine n) (timerThread : TimerThread n) : Engine n :=
  match s.timers.find? (·.triggered), timerThread.thread with
  | none, _ => s
  | some _, none => s
  | some timer, some th =>
      let started : Timer :=
        if timerThread.pushed then
          { timer with timeExpire := TIMEOUT_INFINITE, executing := true, triggered := false }
        else { timer with timeExpire := TIMEOUT_INFINITE }
      let s := { s with timers := s.timers.erase timer ++ [started] }
      if timerThread.pushed then
        (s.setThread th { s.threads th with status := .ready }).putInProperList th
      else s

def Engine.checkTimers (s : Engine n) (timerThread : TimerThread n) (timeoutMin : Int) :
    Engine n × Int :=
  let (timers, anyExpired, timeoutMin) := s.checkTimerList s.timers timeoutMin
  let s := { s with timers }
  (if anyExpired then s.spawnTimer timerThread else s, timeoutMin)

/-! ### `CheckThreads` -/

def Thread.changeSubThread (thread : Thread n) (k : Nat) (f : SubThread → SubThread) : Thread n :=
  { thread with subThreads := thread.subThreads.modify k f }

def Engine.decrementLockRequestCount (s : Engine n) (req : LockRequest n) : Engine n :=
  let th := req.owningThread
  let thread := (s.threads th).changeSubThread req.subthreadWaiting fun sth =>
    { sth with lockRequestsCount := sth.lockRequestsCount - 1 }
  let thread := { thread with lockRequestsCount := thread.lockRequestsCount - 1 }
  if thread.lockRequestsCount = 0 then (s.setThread th thread).restart th false
  else s.setThread th { thread with status := .waiting }

/-- The requests of a lock: what remains of them, and what the expired ones do -/
def checkRequests (s : Engine n) : List (LockRequest n) → Int →
    Engine n × List (LockRequest n) × Int
  | [], timeoutMin => (s, [], timeoutMin)
  | req :: rest, timeoutMin =>
      match isTimeExpired s.currentMachineTime req.timeExpire timeoutMin with
      | (true, timeoutMin) => checkRequests (s.decrementLockRequestCount req) rest timeoutMin
      | (false, timeoutMin) =>
          let (s, rest, timeoutMin) := checkRequests s rest timeoutMin
          (s, req :: rest, timeoutMin)

/-- The locks of a thread, in the same way -/
def checkLocks (s : Engine n) : List (Lock n) → Int → Engine n × List (Lock n) × Int
  | [], timeoutMin => (s, [], timeoutMin)
  | lock :: rest, timeoutMin =>
      let (s, requests, timeoutMin) := checkRequests s lock.requests timeoutMin
      let (s, rest, timeoutMin) := checkLocks s rest timeoutMin
      (s, { lock with requests } :: rest, timeoutMin)

def TIME_CONVERSION_TO_MILLISECONDS : Int := 10000

abbrev DestroyInstance (n : Nat) : Type := Engine n → Fin n → Nat → Engine n

def Engine.adjust (s : Engine n) (time : Int) : Int := time + s.compensation

def checkConstraint (destroyInstance : DestroyInstance n) (th : Fin n) (s : Engine n × Int)
    (k : Nat) : Engine n × Int :=
  match (s.1.threads th).subThreads[k]? with
  | none => s
  | some sth =>
      if sth.timeConstraint ≠ TIMEOUT_INFINITE then
        match isTimeExpired s.1.currentMachineTime (s.1.adjust sth.timeConstraint) s.2 with
        | (true, timeoutMin) =>
            if ¬ sth.triggered then
              let thread := (s.1.threads th).changeSubThread k fun sth =>
                { sth with
                  triggered := true
                  timeConstraint := sth.timeConstraint + TIME_CONVERSION_TO_MILLISECONDS * 500 }
              (({ s.1.setThread th thread with timerCache := false }).restart th true, timeoutMin)
            else
              let destroyed := destroyInstance s.1 th k
              let thread := (destroyed.threads th).changeSubThread k fun sth =>
                { sth with timeConstraint := TIMEOUT_INFINITE }
              ((destroyed.setThread th thread).restart th true, timeoutMin)
        | (false, timeoutMin) => (s.1, timeoutMin)
      else s

def checkEvents (th : Fin n) (s : Engine n × Int) : Engine n × Int :=
  match isTimeExpired s.1.currentMachineTime (s.1.threads th).waitForEvents_Timeout s.2 with
  | (true, timeoutMin) =>
      ((s.1.setThread th { s.1.threads th with
        waitForEvents_Timeout := TIMEOUT_INFINITE }).restart th false, timeoutMin)
  | (false, timeoutMin) => (s.1, timeoutMin)

def checkWait (th : Fin n) (s : Engine n × Int) : Engine n × Int :=
  match (s.1.threads th).waitForObject with
  | none => s
  | some wait =>
      match isTimeExpired s.1.currentMachineTime wait.timeExpire s.2 with
      | (true, timeoutMin) =>
          ((s.1.setThread th { s.1.threads th with
            waitForObject_Result := .timeout }).restart th true, timeoutMin)
      | (false, timeoutMin) => (s.1, timeoutMin)

def checkLockRequests (th : Fin n) (s : Engine n × Int) : Engine n × Int :=
  let (engine, locks, timeoutMin) := checkLocks s.1 (s.1.threads th).locks s.2
  (engine.setThread th { engine.threads th with locks }, timeoutMin)

/-- The constraints, from the last subthread on -/
def checkConstraints (destroyInstance : DestroyInstance n) (th : Fin n) (s : Engine n × Int) :
    Engine n × Int :=
  (List.range (s.1.threads th).subThreads.length).reverse.foldl
    (checkConstraint destroyInstance th) s

def checkThread (destroyInstance : DestroyInstance n) (s : Engine n × Int) (th : Fin n) :
    (Engine n × Int) × Bool :=
  if (s.1.threads th).suspended then (s, true)
  else
    (checkConstraints destroyInstance th (checkLockRequests th (checkWait th (checkEvents th s))),
      true)

/-- `Next` of a thread, in the list it is linked into -/
def nextThread (s : Engine n × Int) (th : Fin n) : Option (Fin n) :=
  if th ∈ s.1.threadsReady then following s.1.threadsReady th
  else following s.1.threadsWaiting th

def checkThreads (destroyInstance : DestroyInstance n) (fuel : Nat) (s : Engine n × Int)
    (first : Option (Fin n)) : Option (Engine n × Int) :=
  walk nextThread (checkThread destroyInstance) fuel s first

/-! ### `WaitForActivity` -/

def processTimer (destroyInstance : DestroyInstance n) (timerThread : TimerThread n) (fuel : Nat)
    (s : Engine n) : Option (Engine n × Int) := do
  let timeoutMin := s.maximumTimeToActive
  let (s, timeoutMin) ←
    (if s.stopped ∧ s.threadsWaiting = [] then some (s, timeoutMin)
    else do
      let timeoutMin :=
        if s.timerCache ∧ s.timerCacheNextTimeout > s.currentMachineTime then
          s.timerCacheNextTimeout - s.currentMachineTime
        else timeoutMin
      let s := s.checkTimers timerThread timeoutMin
      let s ← checkThreads destroyInstance fuel s s.1.threadsReady.head?
      let s ← checkThreads destroyInstance fuel s s.1.threadsWaiting.head?
      let timerCacheNextTimeout := int64 (s.2 + s.1.currentMachineTime)
      some ({ s.1 with
        timerCacheNextTimeout
        timerCache := timerCacheNextTimeout > s.1.currentMachineTime }, s.2))
  some (s, if s.systemTimer then timeoutMin else s.maximumTimeToActive)

/-- What `WaitForActivity` does: a thread is ready or there is nothing to wait for, an idle thread
    is woken up, or the engine sleeps. -/
inductive Activity (n : Nat) where
  | none
  | idle (th : Fin n)
  | sleep (timeout : Int)
deriving DecidableEq, Repr

def c_Event_IdleCPU : UInt32 := 0x40000000

def waitForActivity (destroyInstance : DestroyInstance n) (timerThread : TimerThread n)
    (fuel : Nat) (s : Engine n) : Option (Engine n × Activity n) := do
  let (s, timeoutMin) ← processTimer destroyInstance timerThread fuel s
  if s.threadsReady ≠ [] then some (s, .none)
  else if timeoutMin > 0 then
    match s.threadsWaiting.find? fun th =>
      (s.threads th).waitForEvents &&& c_Event_IdleCPU ≠ 0 ∧
        (s.threads th).waitForEvents_IdleTimeWorkItem < timeoutMin with
    | some th =>
        some ((s.setThread th { s.threads th with
          waitForEvents_IdleTimeWorkItem := 0 }).restart th true, .idle th)
    | none => some (s, .sleep timeoutMin)
  else some (s, .none)

end TinyClr.ProcessTimer
