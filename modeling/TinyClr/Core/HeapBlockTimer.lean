import TinyClr.Core.Scheduler
import TinyClr.Pal.TimeDriver
import Mathlib.Logic.Function.Basic

/-!
# Timers and their reconfiguration

`CLR_RT_HeapBlock_Timer` (`CLR/Core/CLR_RT_HeapBlock_Timer.cpp`) with `SpawnTimer`, `CheckTimers`,
`ProcessTimeEvent` and `UpdateTime` of the execution engine (`CLR/Core/Execution.cpp`).

What the engine asks elsewhere comes with the events: whether memory and a thread are to be had, and
the time.  The cache of the next timeout is left out.
`none` is a division by zero, or what the calendar conversion does not survive.
-/

namespace TinyClr.HeapBlockTimer

open TinyClr.Library
open TinyClr.ExecutionEngine (TIMEOUT_INFINITE)
open TinyClr.TimeDriver (SystemTime toSystemTime fromSystemTime)

/-! ### Timers -/

inductive AnyChange where
  | noFixedChange
  | secondChange
  | minuteChange
  | hourChange
  | dayChange
  | timeZoneChange
  | setTimeChange
deriving DecidableEq, Repr

structure Flags where
  anyChange : AnyChange
  triggered : Bool
  executing : Bool
  absoluteTimer : Bool
  recurring : Bool
  enabledTimer : Bool
deriving DecidableEq, Repr

/-- `CLR_RT_HeapBlock_Timer`; `referenced` is `m_references` with an element. -/
structure Timer where
  referenced : Bool
  m_flags : Flags
  m_timeExpire : Int
  m_timeFrequency : Int
  m_timeLastExpiration : Int
  m_ticksLastExpiration : Int
deriving DecidableEq, Repr

/-- `TIME_CONVERSION__TO_MILLISECONDS`, and `c_TickPerMillisecond` -/
def timeConversionToMilliseconds : Int := 10000

def timeConversionToSeconds : Int := 10000000

def minTime : Int := 0
def maxTime : Int := 0x7FFFFFFF * timeConversionToMilliseconds

namespace Timer

def createInstance : Timer where
  referenced := true
  m_flags := ⟨.noFixedChange, false, false, false, false, false⟩
  m_timeExpire := TIMEOUT_INFINITE
  m_timeFrequency := TIMEOUT_INFINITE
  m_timeLastExpiration := 0
  m_ticksLastExpiration := 0

def trigger (t : Timer) : Timer :=
  if !t.referenced then t
  else if t.m_flags.executing then t
  else { t with m_flags := { t.m_flags with triggered := true } }

/-- `SpawnTimer`; `pushed` is whether `PushThreadProcDelegate` succeeds. -/
def spawnTimer (pushed : Bool) (currentMachineTime : Int) (t : Timer) : Timer :=
  let t := { t with
    m_ticksLastExpiration := currentMachineTime
    m_timeLastExpiration := t.m_timeExpire
    m_timeExpire := TIMEOUT_INFINITE }
  if pushed then { t with m_flags := { t.m_flags with executing := true, triggered := false } }
  else t

def reschedule (cmp : Int) (t : Timer) : Option Timer :=
  if t.m_flags.recurring && t.m_flags.enabledTimer then
    let expire := int64 (t.m_timeLastExpiration + t.m_timeFrequency)
    if expire < cmp then
      if t.m_timeFrequency = 0 then none
      else
        let expire := int64
          (int64 (cmp - (int64 (cmp - expire)).tmod t.m_timeFrequency) + t.m_timeFrequency)
        some { t with m_timeExpire := expire }
    else some { t with m_timeExpire := expire }
  else some t

/-- The cases of `AdjustNextFixedExpire`: the period, and the time with its lower fields cleared -/
def fixedPeriod (st : SystemTime) : AnyChange → Option (Int × SystemTime)
  | .secondChange => some (1 * timeConversionToSeconds, st)
  | .minuteChange => some (60 * timeConversionToSeconds, { st with wSecond := 0 })
  | .hourChange => some (3600 * timeConversionToSeconds, { st with wSecond := 0, wMinute := 0 })
  | .dayChange =>
      some (86400 * timeConversionToSeconds, { st with wSecond := 0, wMinute := 0, wHour := 0 })
  | _ => none

def adjustNextFixedExpire (systemTime : SystemTime) (fNext : Bool) (t : Timer) : Option Timer :=
  match fixedPeriod systemTime t.m_flags.anyChange with
  | none => some t
  | some (add, st) => do
      let baseTime ← fromSystemTime { st with wMilliseconds := 0 }
      some { t with
        m_timeExpire := if fNext then int64 (baseTime + add) else baseTime
        m_timeFrequency := add
        m_flags := { t.m_flags with recurring := true } }

end Timer

/-! ### `ConfigureObject` -/

/-- The arguments of a change, in the format that the flags name; none is what is neither a
`TimeSpan` nor a `DateTime`. -/
inductive Input where
  | int32 (due period : Int)
  | timeSpan (due period : Option Int)
  | absolute (due period : Option Int)
deriving DecidableEq, Repr

namespace Input

def isInt32 : Input → Bool
  | .int32 _ _ => true
  | _ => false

def isAbsolute : Input → Bool
  | .absolute _ _ => true
  | _ => false

end Input

namespace Timer

/-- The arguments are stored; the result is false when the call fails here. -/
def storeInput (t : Timer) : Input → Timer × Bool
  | .int32 due period =>
      if t.m_flags.absoluteTimer then (t, false)
      else
        ({ t with
          m_timeExpire := if due = -1 then TIMEOUT_INFINITE else due
          m_timeFrequency := if period = -1 then TIMEOUT_INFINITE else period }, true)
  | .timeSpan due period =>
      if t.m_flags.absoluteTimer then (t, false)
      else
        match due with
        | none => (t, false)
        | some due =>
            let t := { t with
              m_timeExpire :=
                if due = -timeConversionToMilliseconds then TIMEOUT_INFINITE else due }
            match period with
            | none => (t, false)
            | some period =>
                ({ t with
                  m_timeFrequency :=
                    if period = -timeConversionToMilliseconds then TIMEOUT_INFINITE
                    else period }, true)
  | .absolute due period =>
      if !t.m_flags.absoluteTimer then (t, false)
      else
        match due with
        | none => (t, false)
        | some due =>
            let t := { t with m_timeExpire := due }
            match period with
            | none => (t, false)
            | some period => ({ t with m_timeFrequency := period }, true)

/-- The expiry that has been stored is checked, and the timer enabled or not. -/
def enable (input : Input) (now : Int) (t : Timer) : Timer × Bool :=
  if t.m_timeExpire = TIMEOUT_INFINITE then
    ({ t with m_flags := { t.m_flags with enabledTimer := false } }, true)
  else if input.isAbsolute then
    ({ t with m_flags := { t.m_flags with enabledTimer := true } }, true)
  else
    let t :=
      if input.isInt32 then
        { t with m_timeExpire := int64 (t.m_timeExpire * timeConversionToMilliseconds) }
      else t
    if minTime ≤ t.m_timeExpire ∧ t.m_timeExpire ≤ maxTime then
      ({ t with
        m_timeExpire := int64 (t.m_timeExpire + now)
        m_flags := { t.m_flags with enabledTimer := true } }, true)
    else (t, false)

/-- The period that has been stored is checked, and the timer made recurring or not. -/
def recur (input : Input) (t : Timer) : Timer × Bool :=
  if t.m_timeFrequency = 0 ∨ t.m_timeFrequency = TIMEOUT_INFINITE then
    ({ t with m_flags := { t.m_flags with recurring := false } }, true)
  else
    let t :=
      if input.isInt32 then
        { t with m_timeFrequency := int64 (t.m_timeFrequency * timeConversionToMilliseconds) }
      else t
    if minTime ≤ t.m_timeFrequency ∧ t.m_timeFrequency ≤ maxTime then
      ({ t with m_flags := { t.m_flags with recurring := true } }, true)
    else (t, false)

def change (input : Input) (now : Int) (t : Timer) : Timer × Bool :=
  if t.m_flags.anyChange ≠ .noFixedChange then (t, false)
  else
    let (t, ok) := t.storeInput input
    if !ok then (t, false)
    else
      let (t, ok) := t.enable input now
      if !ok then (t, false) else t.recur input

end Timer

/-! ### The engine -/

/-- `timers` are the timers in the order of their construction, `m_timers` is the list of the
engine; `timerThread` is the timer whose callback `m_timerThread` executes. -/
structure Engine where
  count : Nat
  timers : Nat → Timer
  m_timers : List Nat
  timerThread : Option Nat
  m_currentMachineTime : Int
  m_currentLocalTime : Int

namespace Engine

def set (s : Engine) (i : Nat) (t : Timer) : Engine :=
  { s with timers := Function.update s.timers i t }

/-- What expiries of the timer are compared with -/
def timeOf (s : Engine) (t : Timer) : Int :=
  if t.m_flags.absoluteTimer then s.m_currentLocalTime else s.m_currentMachineTime

/-- A walk over timers -/
def forEach (f : Timer → Option Timer) : List Nat → Engine → Option Engine
  | [], s => some s
  | i :: is, s => do
      let t ← f (s.timers i)
      forEach f is (s.set i t)

/-- `SpawnTimer` of the engine; `created` is whether there is, or can be, a thread for timers. -/
def spawnTimer (created pushed : Bool) (s : Engine) : Engine :=
  match s.m_timers.find? fun i => (s.timers i).m_flags.triggered with
  | none => s
  | some i =>
      if created && s.timerThread.isNone then
        let s := s.set i ((s.timers i).spawnTimer pushed s.m_currentMachineTime)
        { s with
          m_timers := s.m_timers.erase i ++ [i]
          timerThread := if pushed then some i else none }
      else s

def checkTimers (pauseTimers created pushed : Bool) (s : Engine) : Option Engine := do
  let expired (t : Timer) : Bool :=
    t.m_flags.enabledTimer && decide (t.m_timeExpire ≤ s.timeOf t) && !pauseTimers
  let fAnyTimersExpired := s.m_timers.any fun i => expired (s.timers i)
  let s ← s.forEach (fun t => some (if expired t then t.trigger else t)) s.m_timers
  some (if fAnyTimersExpired then s.spawnTimer created pushed else s)

/-- `ProcessTimeEvent`, after its `UpdateTime` -/
def processTimeEvent (event : AnyChange) (created pushed : Bool) (s : Engine) : Option Engine := do
  let systemTime ← toSystemTime s.m_currentLocalTime
  let s ← s.forEach (fun t =>
    if t.m_flags.enabledTimer && t.m_flags.anyChange ≠ .noFixedChange then do
      let t ← t.adjustNextFixedExpire systemTime true
      some (if t.m_flags.anyChange = event && !t.m_flags.recurring then t.trigger else t)
    else some t) s.m_timers
  some (s.spawnTimer created pushed)

/-- `UpdateTime`; `offsetChanged` is whether the offset of the time zone is another. -/
def updateTime (machineTime localTime : Int) (offsetChanged : Bool) (s : Engine) :
    Option Engine := do
  let s := { s with m_currentMachineTime := machineTime, m_currentLocalTime := localTime }
  if offsetChanged then
    let systemTime ← toSystemTime localTime
    s.forEach (fun t =>
      if t.m_flags.enabledTimer && t.m_flags.anyChange ≠ .noFixedChange then
        t.adjustNextFixedExpire systemTime false
      else some t) s.m_timers
  else some s

def link (s : Engine) (t : Timer) : Engine :=
  { s.set s.count t with count := s.count + 1, m_timers := s.m_timers ++ [s.count] }

end Engine

/-! ### Events -/

/-- What happens to timers.  `callback` is whether the delegate is there, `allocated` whether
`CreateInstance` succeeds, and `now` is `Time_GetMachineTime()`; the object of a timer that is
released is gone. -/
inductive Event where
  | construct (callback allocated : Bool) (input : Input) (now : Int)
  | constructFixed (callback allocated : Bool) (anyChange : AnyChange)
  | change (i : Nat) (input : Input) (now : Int)
  | dispose (i : Nat)
  | release (i : Nat)
  | updateTime (machineTime localTime : Int) (offsetChanged : Bool)
  | checkTimers (pauseTimers created pushed : Bool)
  | processTimeEvent (event : AnyChange) (created pushed : Bool)
  | threadTerminationCallback (created pushed : Bool)
deriving DecidableEq, Repr

/-- A timer before the change that its construction makes -/
def constructed (input : Input) : Timer :=
  { Timer.createInstance with
    m_flags := { Timer.createInstance.m_flags with absoluteTimer := input.isAbsolute } }

/-- One event, with the success of the call; an event that cannot happen has no result. -/
def step (s : Engine) : Event → Option (Engine × Bool)
  | .construct callback allocated input now =>
      if !callback || !allocated then some (s, false)
      else
        let (t, ok) := (constructed input).change input now
        some (s.link t, ok)
  | .constructFixed callback allocated anyChange =>
      if !callback || !allocated then some (s, false)
      else do
        let systemTime ← toSystemTime s.m_currentLocalTime
        let t ← Timer.adjustNextFixedExpire systemTime true
          { Timer.createInstance with m_flags := ⟨anyChange, false, false, true, false, true⟩ }
        some (s.link t, true)
  | .change i input now =>
      if s.count ≤ i then none
      else
        let (t, ok) := (s.timers i).change input now
        some (s.set i t, ok)
  | .dispose i =>
      if s.count ≤ i then none
      else
        let t := s.timers i
        some (s.set i { t with m_flags := { t.m_flags with enabledTimer := false } }, true)
  | .release i =>
      if s.count ≤ i then none
      else some (s.set i { s.timers i with referenced := false }, true)
  | .updateTime machineTime localTime offsetChanged =>
      (s.updateTime machineTime localTime offsetChanged).map fun s => (s, true)
  | .checkTimers pauseTimers created pushed =>
      (s.checkTimers pauseTimers created pushed).map fun s => (s, true)
  | .processTimeEvent event created pushed =>
      (s.processTimeEvent event created pushed).map fun s => (s, true)
  | .threadTerminationCallback created pushed =>
      match s.timerThread with
      | none => none
      | some i => do
          let t := s.timers i
          let t := { t with m_flags := { t.m_flags with executing := false } }
          let t ← t.reschedule (s.timeOf t)
          some (({ s.set i t with timerThread := none }).spawnTimer created pushed, true)

def initial : Engine := ⟨0, fun _ => Timer.createInstance, [], none, 0, 0⟩

end TinyClr.HeapBlockTimer
