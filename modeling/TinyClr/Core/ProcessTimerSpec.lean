import TinyClr.Core.ProcessTimer
import Mathlib.Data.List.Sort
import Mathlib.Tactic.Common

/-!
# Sleep does not outlast a deadline

Either a thread becomes ready, and then the engine does not sleep, or `CheckThreads` leaves the lists
as they are, and the timeout is not longer than what is left to each deadline it has passed by.
-/

namespace TinyClr.ProcessTimer

open TinyClr.Library
open TinyClr.ExecutionEngine (Status TIMEOUT_INFINITE)
open TinyClr.WaitForObject (Wait WaitResult)

variable {n : Nat} {s s' s'' : Engine n} {th : Fin n}

/-! ### Links -/

structure Engine.Linked (s : Engine n) : Prop where
  nodup : (s.threadsReady ++ s.threadsWaiting).Nodup
  running : ∀ q ∈ s.threadsReady, (s.threads q).suspended = false

def Engine.Awake (s : Engine n) : Prop :=
  ∃ q ∈ s.threadsReady, (s.threads q).suspended = false

/-- What holds between the states before and after a part of `CheckThreads` -/
structure Engine.Leads (s s' : Engine n) : Prop where
  suspended : ∀ q, (s'.threads q).suspended = (s.threads q).suspended
  linked : s.Linked → s'.Linked
  awake : s.Awake → s'.Awake
  machineTime : s'.currentMachineTime = s.currentMachineTime
  localTime : s'.currentLocalTime = s.currentLocalTime
  compensation : s'.compensation = s.compensation
  systemTimer : s'.systemTimer = s.systemTimer

theorem Engine.Leads.refl (s : Engine n) : s.Leads s :=
  ⟨fun _ => rfl, id, id, rfl, rfl, rfl, rfl⟩

theorem Engine.Leads.trans (h : s.Leads s') (h' : s'.Leads s'') : s.Leads s'' :=
  ⟨fun q => (h'.suspended q).trans (h.suspended q), h'.linked ∘ h.linked, h'.awake ∘ h.awake,
    h'.machineTime.trans h.machineTime, h'.localTime.trans h.localTime,
    h'.compensation.trans h.compensation, h'.systemTimer.trans h.systemTimer⟩

theorem Engine.setThread_self (s : Engine n) (th : Fin n) (thread : Thread n) :
    (s.setThread th thread).threads th = thread := Function.update_self ..

theorem Engine.setThread_other (s : Engine n) {q : Fin n} (hne : q ≠ th) (thread : Thread n) :
    (s.setThread th thread).threads q = s.threads q := Function.update_of_ne hne ..

theorem Engine.setThread_leads (s : Engine n) {thread : Thread n}
    (hsuspended : thread.suspended = (s.threads th).suspended) :
    s.Leads (s.setThread th thread) := by
  have hflags : ∀ q, ((s.setThread th thread).threads q).suspended =
      (s.threads q).suspended := by
    intro q
    rcases eq_or_ne q th with rfl | hne
    · rw [Engine.setThread_self, hsuspended]
    · rw [Engine.setThread_other s hne]
  refine ⟨hflags, fun h => ⟨h.nodup, fun q hq => ?_⟩, ?_, rfl, rfl, rfl, rfl⟩
  · rw [hflags]
    exact h.running q hq
  · rintro ⟨q, hq, hrunning⟩
    exact ⟨q, hq, (hflags q).trans hrunning⟩

theorem Engine.Linked.unlink (h : s.Linked) (th : Fin n) : (s.unlink th).Linked := by
  refine ⟨?_, fun q hq => h.running q (mem_filter_ne.mp hq).1⟩
  have hnodup := h.nodup.filter (· ≠ th)
  rwa [List.filter_append] at hnodup

theorem Engine.not_mem_unlink (s : Engine n) (th : Fin n) :
    th ∉ (s.unlink th).threadsReady ++ (s.unlink th).threadsWaiting := by
  rw [List.mem_append, not_or]
  exact ⟨fun h => (mem_filter_ne.mp h).2 rfl, fun h => (mem_filter_ne.mp h).2 rfl⟩

theorem Engine.putInProperList_linked (hnodup : (s.threadsReady ++ s.threadsWaiting).Nodup)
    (hrunning : ∀ q ∈ s.threadsReady, q ≠ th → (s.threads q).suspended = false) :
    (s.putInProperList th).Linked := by
  have hunlink : (s.unlink th).Linked := by
    refine ⟨?_, fun q hq => ?_⟩
    · have hfilter := hnodup.filter (· ≠ th)
      rwa [List.filter_append] at hfilter
    · obtain ⟨hq, hne⟩ := mem_filter_ne.mp hq
      exact hrunning q hq hne
  have hlink : (s.linkWaiting th).Linked := by
    refine ⟨?_, hunlink.running⟩
    rw [Engine.linkWaiting]
    dsimp only
    rw [← List.append_assoc]
    exact List.nodup_append_comm.mp (List.nodup_cons.mpr ⟨s.not_mem_unlink th, hunlink.nodup⟩)
  rw [Engine.putInProperList]
  split
  · rename_i hsuspended
    have hperm : (s.insertThreadRoundRobin th).threadsReady.Perm
        (th :: (s.unlink th).threadsReady) := List.perm_orderedInsert _ _ _
    refine ⟨(hperm.append_right _).nodup_iff.mpr
      (List.nodup_cons.mpr ⟨s.not_mem_unlink th, hunlink.nodup⟩), fun q hq => ?_⟩
    rcases eq_or_ne q th with rfl | hne
    · have hself : (s.insertThreadRoundRobin q).threads q = { s.threads q with
          waitForEvents := 0, waitForEvents_Timeout := TIMEOUT_INFINITE, waitForObject := none } :=
        Function.update_self ..
      rw [hself]
      exact hsuspended
    · have hother : (s.insertThreadRoundRobin th).threads q = s.threads q :=
        Function.update_of_ne hne ..
      rw [hother]
      rcases List.mem_cons.mp (hperm.mem_iff.mp hq) with heq | hq
      · exact absurd heq hne
      · exact hunlink.running q hq
  · exact hlink
  · exact hlink
  · exact hunlink
  · exact hunlink

theorem Engine.insertThreadRoundRobin_leads (s : Engine n)
    (hrunning : (s.threads th).suspended = false) :
    s.Leads (s.insertThreadRoundRobin th) ∧ (s.insertThreadRoundRobin th).Awake := by
  have hperm : (s.insertThreadRoundRobin th).threadsReady.Perm
      (th :: (s.unlink th).threadsReady) := List.perm_orderedInsert _ _ _
  have hflags : ∀ q, ((s.insertThreadRoundRobin th).threads q).suspended =
      (s.threads q).suspended := by
    intro q
    rcases eq_or_ne q th with rfl | hne
    · have hself : (s.insertThreadRoundRobin q).threads q = { s.threads q with
          waitForEvents := 0, waitForEvents_Timeout := TIMEOUT_INFINITE, waitForObject := none } :=
        Function.update_self ..
      rw [hself]
    · have hother : (s.insertThreadRoundRobin th).threads q = s.threads q :=
        Function.update_of_ne hne ..
      rw [hother]
  have hawake : (s.insertThreadRoundRobin th).Awake :=
    ⟨th, hperm.mem_iff.mpr List.mem_cons_self, (hflags th).trans hrunning⟩
  refine ⟨⟨hflags, fun h => ⟨?_, fun q hq => ?_⟩, fun _ => hawake, rfl, rfl, rfl, rfl⟩, hawake⟩
  · refine (hperm.append_right _).nodup_iff.mpr ?_
    exact List.nodup_cons.mpr ⟨s.not_mem_unlink th, (h.unlink th).nodup⟩
  · rw [hflags]
    rcases List.mem_cons.mp (hperm.mem_iff.mp hq) with rfl | hq
    · exact hrunning
    · exact (h.unlink th).running q hq

theorem Engine.unlink_leads (s : Engine n) (hidle : (s.threads th).suspended = true)
    {waiting : List (Fin n)} (hwaiting : waiting = [] ∨ waiting = [th]) :
    s.Leads { s.unlink th with
      threadsWaiting := (s.unlink th).threadsWaiting ++ waiting } := by
  refine ⟨fun _ => rfl, fun h => ⟨?_, (h.unlink th).running⟩, ?_, rfl, rfl, rfl, rfl⟩
  · dsimp only
    rcases hwaiting with rfl | rfl
    · rw [List.append_nil]
      exact (h.unlink th).nodup
    · rw [← List.append_assoc]
      exact (List.nodup_append_comm.mp (List.nodup_cons.mpr
        ⟨s.not_mem_unlink th, (h.unlink th).nodup⟩))
  · rintro ⟨q, hq, hrunning⟩
    refine ⟨q, mem_filter_ne.mpr ⟨hq, ?_⟩, hrunning⟩
    rintro rfl
    rw [hidle] at hrunning
    exact Bool.noConfusion hrunning

theorem Engine.restart_leads (s : Engine n) (th : Fin n) (fDeleteEvent : Bool) :
    s.Leads (s.restart th fDeleteEvent) ∧
      ((s.threads th).suspended = false → (s.restart th fDeleteEvent).Awake) := by
  obtain ⟨s₁, hs₁⟩ : ∃ s₁, s₁ = s.setThread th { s.threads th with status := .ready } := ⟨_, rfl⟩
  have hset : s.Leads s₁ := by
    rw [hs₁]
    exact s.setThread_leads rfl
  have hstatus : (s₁.threads th).status = .ready := by
    rw [hs₁, Engine.setThread_self]
  have hput : s₁.Leads (s₁.putInProperList th) ∧
      ((s₁.threads th).suspended = false → (s₁.putInProperList th).Awake) := by
    rw [Engine.putInProperList, hstatus]
    rcases hsuspended : (s₁.threads th).suspended with _ | _
    · obtain ⟨hleads, hawake⟩ := s₁.insertThreadRoundRobin_leads hsuspended
      exact ⟨hleads, fun _ => hawake⟩
    · exact ⟨s₁.unlink_leads hsuspended (Or.inr rfl), fun h => Bool.noConfusion h⟩
  rw [Engine.restart, ← hs₁]
  dsimp only
  rw [← hset.suspended th]
  split_ifs
  · have hdelete : (s₁.putInProperList th).Leads ((s₁.putInProperList th).setThread th
        { (s₁.putInProperList th).threads th with
          waitForEvents := 0, waitForEvents_Timeout := TIMEOUT_INFINITE }) :=
      (s₁.putInProperList th).setThread_leads rfl
    exact ⟨(hset.trans hput.1).trans hdelete, fun h => hdelete.awake (hput.2 h)⟩
  · exact ⟨hset.trans hput.1, hput.2⟩

theorem Engine.Leads.restart (h : s.Leads s') (hrunning : (s.threads th).suspended = false)
    (fDeleteEvent : Bool) :
    s.Leads (s'.restart th fDeleteEvent) ∧ (s'.restart th fDeleteEvent).Awake := by
  obtain ⟨hleads, hawake⟩ := s'.restart_leads th fDeleteEvent
  exact ⟨h.trans hleads, hawake ((h.suspended th).trans hrunning)⟩

/-! ### Expiry -/

theorem isTimeExpired_cases (cmp timeExpire timeoutMin : Int) :
    (timeExpire ≤ cmp ∧ isTimeExpired cmp timeExpire timeoutMin = (true, timeoutMin)) ∨
    ∃ timeoutMin', cmp < timeExpire ∧ timeoutMin' ≤ timeoutMin ∧ timeoutMin' ≤ timeExpire - cmp ∧
      isTimeExpired cmp timeExpire timeoutMin = (false, timeoutMin') := by
  rw [isTimeExpired]
  split_ifs with hexpired hless
  · exact Or.inl ⟨hexpired, rfl⟩
  · exact Or.inr ⟨_, by omega, by omega, Int.le_refl _, rfl⟩
  · exact Or.inr ⟨_, by omega, Int.le_refl _, by omega, rfl⟩

/-- Where no thread has been restarted: the lists and the deadlines are as before, those of locks
    apart. -/
structure Engine.Quiet (s s' : Engine n) : Prop where
  ready : s'.threadsReady = s.threadsReady
  waiting : s'.threadsWaiting = s.threadsWaiting
  timers : s'.timers = s.timers
  events : ∀ q, (s'.threads q).waitForEvents_Timeout = (s.threads q).waitForEvents_Timeout
  wait : ∀ q, (s'.threads q).waitForObject = (s.threads q).waitForObject
  constraints : ∀ q, (s'.threads q).subThreads.map (·.timeConstraint) =
    (s.threads q).subThreads.map (·.timeConstraint)

theorem Engine.Quiet.refl (s : Engine n) : s.Quiet s :=
  ⟨rfl, rfl, rfl, fun _ => rfl, fun _ => rfl, fun _ => rfl⟩

theorem Engine.Quiet.trans (h : s.Quiet s') (h' : s'.Quiet s'') : s.Quiet s'' :=
  ⟨h'.ready.trans h.ready, h'.waiting.trans h.waiting, h'.timers.trans h.timers,
    fun q => (h'.events q).trans (h.events q), fun q => (h'.wait q).trans (h.wait q),
    fun q => (h'.constraints q).trans (h.constraints q)⟩

theorem Engine.setThread_quiet (s : Engine n) {thread : Thread n}
    (hevents : thread.waitForEvents_Timeout = (s.threads th).waitForEvents_Timeout)
    (hwait : thread.waitForObject = (s.threads th).waitForObject)
    (hconstraints : thread.subThreads.map (·.timeConstraint) =
      (s.threads th).subThreads.map (·.timeConstraint)) : s.Quiet (s.setThread th thread) := by
  refine ⟨rfl, rfl, rfl, fun q => ?_, fun q => ?_, fun q => ?_⟩
  · rcases eq_or_ne q th with rfl | hne
    · rw [Engine.setThread_self, hevents]
    · rw [Engine.setThread_other s hne]
  · rcases eq_or_ne q th with rfl | hne
    · rw [Engine.setThread_self, hwait]
    · rw [Engine.setThread_other s hne]
  · rcases eq_or_ne q th with rfl | hne
    · rw [Engine.setThread_self, hconstraints]
    · rw [Engine.setThread_other s hne]

def Engine.SameLocks (s s' : Engine n) : Prop := ∀ q, (s'.threads q).locks = (s.threads q).locks

theorem map_modify_constraint (subThreads : List SubThread) (k : Nat) (f : SubThread → SubThread)
    (hf : ∀ sth, (f sth).timeConstraint = sth.timeConstraint) :
    (subThreads.modify k f).map (·.timeConstraint) = subThreads.map (·.timeConstraint) := by
  induction subThreads generalizing k with
  | nil => simp
  | cons sth rest ih =>
    cases k with
    | zero => simp [hf]
    | succ k => simp [ih]

/-- One request less: the thread is restarted or goes on to wait. -/
theorem decrement_spec (s : Engine n) (req : LockRequest n) :
    s.Leads (s.decrementLockRequestCount req) ∧
      ((s.threads req.owningThread).suspended = false →
        (s.decrementLockRequestCount req).Awake ∨
          (s.Quiet (s.decrementLockRequestCount req) ∧
            s.SameLocks (s.decrementLockRequestCount req))) := by
  rw [Engine.decrementLockRequestCount]
  dsimp only
  split_ifs with hcount
  · obtain ⟨s₁, hs₁⟩ : ∃ s₁, s₁ = s.setThread req.owningThread
        { (s.threads req.owningThread).changeSubThread req.subthreadWaiting fun sth =>
          { sth with lockRequestsCount := sth.lockRequestsCount - 1 } with
          lockRequestsCount := (s.threads req.owningThread).lockRequestsCount - 1 } := ⟨_, rfl⟩
    have hset : s.Leads s₁ := by
      rw [hs₁]
      exact s.setThread_leads rfl
    obtain ⟨hleads, hawake⟩ := s₁.restart_leads req.owningThread false
    rw [hset.suspended] at hawake
    rw [hs₁] at hleads hawake hset
    exact ⟨hset.trans hleads, fun hrunning => Or.inl (hawake hrunning)⟩
  · refine ⟨s.setThread_leads rfl, fun _ => Or.inr ⟨s.setThread_quiet rfl rfl ?_, fun q => ?_⟩⟩
    · exact map_modify_constraint _ _ _ fun _ => rfl
    · rcases eq_or_ne q req.owningThread with rfl | hne
      · rw [Engine.setThread_self]
        rfl
      · rw [Engine.setThread_other s hne]

def Unsuspended (s : Engine n) (requests : List (LockRequest n)) : Prop :=
  ∀ req ∈ requests, req.timeExpire ≤ s.currentMachineTime →
    (s.threads req.owningThread).suspended = false

theorem Unsuspended.leads {requests : List (LockRequest n)} (h : Unsuspended s requests)
    (hleads : s.Leads s') : Unsuspended s' requests := by
  intro req hreq hexpired
  rw [hleads.machineTime] at hexpired
  rw [hleads.suspended]
  exact h req hreq hexpired

def Engine.unexpired (s : Engine n) (requests : List (LockRequest n)) : List (LockRequest n) :=
  requests.filter fun req => s.currentMachineTime < req.timeExpire

theorem checkRequests_spec (requests : List (LockRequest n)) (s : Engine n) (timeoutMin : Int) :
    ∃ s' timeoutMin', checkRequests s requests timeoutMin =
        (s', s.unexpired requests, timeoutMin') ∧
      s.Leads s' ∧ timeoutMin' ≤ timeoutMin ∧
      (∀ req ∈ s.unexpired requests, timeoutMin' ≤ req.timeExpire - s.currentMachineTime) ∧
      (Unsuspended s requests → s'.Awake ∨ (s.Quiet s' ∧ s.SameLocks s')) := by
  induction requests generalizing s timeoutMin with
  | nil => exact ⟨s, timeoutMin, rfl, Engine.Leads.refl s, Int.le_refl _,
      fun req hreq => absurd hreq List.not_mem_nil,
      fun _ => Or.inr ⟨Engine.Quiet.refl s, fun _ => rfl⟩⟩
  | cons req rest ih =>
    have hrest : ∀ {s₁ : Engine n}, Unsuspended s (req :: rest) → s.Leads s₁ →
        Unsuspended s₁ rest := fun hun hleads req' hreq' =>
      (hun.leads hleads) req' (List.mem_cons_of_mem _ hreq')
    rw [checkRequests]
    rcases isTimeExpired_cases s.currentMachineTime req.timeExpire timeoutMin with
      ⟨hexpired, heq⟩ | ⟨timeoutMin₁, hlater, hle, hdiff, heq⟩
    · rw [heq]
      dsimp only
      obtain ⟨hleads, hcases⟩ := decrement_spec s req
      obtain ⟨s', timeoutMin', hcheck, hleads', hle', hall, hquiet⟩ :=
        ih (s.decrementLockRequestCount req) timeoutMin
      have hfilter : s.unexpired (req :: rest) =
          (s.decrementLockRequestCount req).unexpired rest := by
        rw [Engine.unexpired, List.filter_cons_of_neg (by simpa using hexpired), Engine.unexpired,
          hleads.machineTime]
      rw [hcheck, hfilter]
      rw [hleads.machineTime] at hall
      refine ⟨s', timeoutMin', rfl, hleads.trans hleads', hle', hall, fun hun => ?_⟩
      rcases hcases (hun req List.mem_cons_self hexpired) with hawake | ⟨hq, hl⟩
      · exact Or.inl (hleads'.awake hawake)
      · rcases hquiet (hrest hun hleads) with hawake | ⟨hq', hl'⟩
        · exact Or.inl hawake
        · exact Or.inr ⟨hq.trans hq', fun q => (hl' q).trans (hl q)⟩
    · rw [heq]
      dsimp only
      obtain ⟨s', timeoutMin', hcheck, hleads', hle', hall, hquiet⟩ := ih s timeoutMin₁
      have hfilter : s.unexpired (req :: rest) = req :: s.unexpired rest := by
        rw [Engine.unexpired, List.filter_cons_of_pos (by simpa using hlater), Engine.unexpired]
      rw [hcheck, hfilter]
      refine ⟨s', timeoutMin', rfl, hleads', Int.le_trans hle' hle, fun req' hreq' => ?_,
        fun hun => hquiet (hrest hun (Engine.Leads.refl s))⟩
      rcases List.mem_cons.mp hreq' with rfl | hreq'
      · exact Int.le_trans hle' hdiff
      · exact hall req' hreq'

def Engine.unexpiredLocks (s : Engine n) (locks : List (Lock n)) : List (Lock n) :=
  locks.map fun lock => { lock with requests := s.unexpired lock.requests }

theorem checkLocks_spec (locks : List (Lock n)) (s : Engine n) (timeoutMin : Int) :
    ∃ s' timeoutMin', checkLocks s locks timeoutMin =
        (s', s.unexpiredLocks locks, timeoutMin') ∧
      s.Leads s' ∧ timeoutMin' ≤ timeoutMin ∧
      (∀ lock ∈ locks, ∀ req ∈ s.unexpired lock.requests,
        timeoutMin' ≤ req.timeExpire - s.currentMachineTime) ∧
      ((∀ lock ∈ locks, Unsuspended s lock.requests) →
        s'.Awake ∨ (s.Quiet s' ∧ s.SameLocks s')) := by
  induction locks generalizing s timeoutMin with
  | nil => exact ⟨s, timeoutMin, rfl, Engine.Leads.refl s, Int.le_refl _,
      fun lock hlock => absurd hlock List.not_mem_nil,
      fun _ => Or.inr ⟨Engine.Quiet.refl s, fun _ => rfl⟩⟩
  | cons lock rest ih =>
    obtain ⟨s₁, timeoutMin₁, hcheck, hleads, hle, hall, hquiet⟩ :=
      checkRequests_spec lock.requests s timeoutMin
    obtain ⟨s', timeoutMin', hcheck', hleads', hle', hall', hquiet'⟩ := ih s₁ timeoutMin₁
    have hunexpired : s₁.unexpired = s.unexpired := by
      funext requests
      rw [Engine.unexpired, Engine.unexpired, hleads.machineTime]
    rw [checkLocks, hcheck]
    dsimp only
    rw [hcheck']
    rw [hunexpired, hleads.machineTime] at hall'
    refine ⟨s', timeoutMin', ?_, hleads.trans hleads', Int.le_trans hle' hle,
      fun lock' hlock' req hreq => ?_, fun hun => ?_⟩
    · rw [Engine.unexpiredLocks, Engine.unexpiredLocks, hunexpired]
      rfl
    · rcases List.mem_cons.mp hlock' with rfl | hlock'
      · exact Int.le_trans hle' (hall req hreq)
      · exact hall' lock' hlock' req hreq
    · rcases hquiet (hun lock List.mem_cons_self) with hawake | ⟨hq, hl⟩
      · exact Or.inl (hleads'.awake hawake)
      · have hrest : ∀ lock' ∈ rest, Unsuspended s₁ lock'.requests := fun lock' hlock' =>
          (hun lock' (List.mem_cons_of_mem _ hlock')).leads hleads
        rcases hquiet' hrest with hawake | ⟨hq', hl'⟩
        · exact Or.inl hawake
        · exact Or.inr ⟨hq.trans hq', fun q => (hl' q).trans (hl q)⟩

/-! ### A thread -/

/-- A deadline is to come, and the timeout is not longer than what is left to it. -/
def Engine.InTime (s : Engine n) (timeout deadline : Int) : Prop :=
  s.currentMachineTime < deadline ∧ timeout ≤ deadline - s.currentMachineTime

variable {timeout : Int}

theorem Engine.InTime.mono {timeout' deadline : Int} (h : s.InTime timeout deadline)
    (hle : timeout' ≤ timeout) : s.InTime timeout' deadline := ⟨h.1, Int.le_trans hle h.2⟩

/-- The timeout is in time for the deadlines of a thread; those of lock requests may have passed. -/
structure Engine.Passed (s : Engine n) (th : Fin n) (timeout : Int) : Prop where
  events : s.InTime timeout (s.threads th).waitForEvents_Timeout
  wait : ∀ wait, (s.threads th).waitForObject = some wait → s.InTime timeout wait.timeExpire
  requests : ∀ lock ∈ (s.threads th).locks, ∀ req ∈ s.unexpired lock.requests,
    timeout ≤ req.timeExpire - s.currentMachineTime
  constraints : ∀ time ∈ (s.threads th).subThreads.map (·.timeConstraint),
    time ≠ TIMEOUT_INFINITE → s.InTime timeout (s.adjust time)

theorem Engine.Passed.mono {timeout' : Int} (h : s.Passed th timeout)
    (hle : timeout' ≤ timeout) : s.Passed th timeout' :=
  ⟨h.events.mono hle, fun wait hwait => (h.wait wait hwait).mono hle,
    fun lock hlock req hreq => Int.le_trans hle (h.requests lock hlock req hreq),
    fun time htime hfinite => (h.constraints time htime hfinite).mono hle⟩

theorem Engine.Passed.before (h : s'.Passed th timeout) (hleads : s.Leads s')
    (hevents : (s'.threads th).waitForEvents_Timeout = (s.threads th).waitForEvents_Timeout)
    (hwait : (s'.threads th).waitForObject = (s.threads th).waitForObject)
    (hlocks : (s'.threads th).locks = (s.threads th).locks)
    (hconstraints : (s'.threads th).subThreads.map (·.timeConstraint) =
      (s.threads th).subThreads.map (·.timeConstraint)) : s.Passed th timeout := by
  have hin : ∀ deadline, s'.InTime timeout deadline → s.InTime timeout deadline := by
    intro deadline hin
    rw [Engine.InTime, ← hleads.machineTime]
    exact hin
  refine ⟨?_, fun wait hsome => ?_, fun lock hlock req hreq => ?_, fun time htime hfinite => ?_⟩
  · rw [← hevents]
    exact hin _ h.events
  · rw [← hwait] at hsome
    exact hin _ (h.wait wait hsome)
  · rw [← hlocks] at hlock
    rw [Engine.unexpired, ← hleads.machineTime] at hreq
    rw [← hleads.machineTime]
    exact h.requests lock hlock req hreq
  · rw [← hconstraints] at htime
    rw [Engine.adjust, ← hleads.compensation]
    exact hin _ (h.constraints time htime hfinite)

theorem checkEvents_spec (s : Engine n × Int) (hrunning : (s.1.threads th).suspended = false) :
    s.1.Leads (checkEvents th s).1 ∧ ((checkEvents th s).1.Awake ∨
      ((checkEvents th s).1 = s.1 ∧ (checkEvents th s).2 ≤ s.2 ∧
        s.1.InTime (checkEvents th s).2 (s.1.threads th).waitForEvents_Timeout)) := by
  rw [checkEvents]
  rcases isTimeExpired_cases s.1.currentMachineTime (s.1.threads th).waitForEvents_Timeout s.2 with
    ⟨_, heq⟩ | ⟨timeoutMin, hlater, hle, hdiff, heq⟩
  · rw [heq]
    have hset : s.1.Leads (s.1.setThread th { s.1.threads th with
        waitForEvents_Timeout := TIMEOUT_INFINITE }) := s.1.setThread_leads rfl
    obtain ⟨hleads, hawake⟩ := hset.restart hrunning false
    exact ⟨hleads, Or.inl hawake⟩
  · rw [heq]
    exact ⟨Engine.Leads.refl _, Or.inr ⟨rfl, hle, hlater, hdiff⟩⟩

theorem checkWait_spec (s : Engine n × Int) (hrunning : (s.1.threads th).suspended = false) :
    s.1.Leads (checkWait th s).1 ∧ ((checkWait th s).1.Awake ∨
      ((checkWait th s).1 = s.1 ∧ (checkWait th s).2 ≤ s.2 ∧
        ∀ wait, (s.1.threads th).waitForObject = some wait →
          s.1.InTime (checkWait th s).2 wait.timeExpire)) := by
  rw [checkWait]
  rcases hwait : (s.1.threads th).waitForObject with _ | wait
  · exact ⟨Engine.Leads.refl _, Or.inr ⟨rfl, Int.le_refl _, fun wait hsome => by
      simp at hsome⟩⟩
  · dsimp only
    rcases isTimeExpired_cases s.1.currentMachineTime wait.timeExpire s.2 with
      ⟨_, heq⟩ | ⟨timeoutMin, hlater, hle, hdiff, heq⟩
    · rw [heq]
      have hset : s.1.Leads (s.1.setThread th { s.1.threads th with
          waitForObject_Result := .timeout }) := s.1.setThread_leads rfl
      obtain ⟨hleads, hawake⟩ := hset.restart hrunning true
      exact ⟨hleads, Or.inl hawake⟩
    · rw [heq]
      refine ⟨Engine.Leads.refl _, Or.inr ⟨rfl, hle, fun wait' hwait' => ?_⟩⟩
      rw [← Option.some.inj hwait']
      exact ⟨hlater, hdiff⟩

/-- The locks of a thread have lost the requests that have expired, other locks are as before. -/
def Engine.Unlocks (s s' : Engine n) (th : Fin n) : Prop :=
  (s'.threads th).locks = s.unexpiredLocks (s.threads th).locks ∧
    ∀ q ≠ th, (s'.threads q).locks = (s.threads q).locks

theorem checkLockRequests_spec (s : Engine n × Int) :
    s.1.Leads (checkLockRequests th s).1 ∧ (checkLockRequests th s).2 ≤ s.2 ∧
      (∀ lock ∈ (s.1.threads th).locks, ∀ req ∈ s.1.unexpired lock.requests,
        (checkLockRequests th s).2 ≤ req.timeExpire - s.1.currentMachineTime) ∧
      ((∀ lock ∈ (s.1.threads th).locks, Unsuspended s.1 lock.requests) →
        (checkLockRequests th s).1.Awake ∨
          (s.1.Quiet (checkLockRequests th s).1 ∧ s.1.Unlocks (checkLockRequests th s).1 th)) := by
  obtain ⟨s', timeoutMin', hcheck, hleads, hle, hall, hcases⟩ :=
    checkLocks_spec (s.1.threads th).locks s.1 s.2
  rw [checkLockRequests, hcheck]
  have hset : s'.Leads (s'.setThread th
      { s'.threads th with locks := s.1.unexpiredLocks (s.1.threads th).locks }) :=
    s'.setThread_leads rfl
  refine ⟨hleads.trans hset, hle, hall, fun hun => ?_⟩
  rcases hcases hun with hawake | ⟨hquiet, hlocks⟩
  · exact Or.inl (hset.awake hawake)
  · refine Or.inr ⟨hquiet.trans (s'.setThread_quiet rfl rfl rfl), ?_, fun q hne => ?_⟩
    · dsimp only
      rw [Engine.setThread_self]
    · dsimp only
      rw [Engine.setThread_other s' hne, hlocks q]

/-- What `DestroyInstance` of a subthread keeps to -/
def Destroys (destroyInstance : DestroyInstance n) : Prop :=
  ∀ (s : Engine n) (th : Fin n) (k : Nat), s.Leads (destroyInstance s th k)

variable {destroyInstance : DestroyInstance n}

theorem checkConstraint_spec (hdestroy : Destroys destroyInstance) (s : Engine n × Int) (k : Nat)
    (hrunning : (s.1.threads th).suspended = false) :
    s.1.Leads (checkConstraint destroyInstance th s k).1 ∧
      ((checkConstraint destroyInstance th s k).1.Awake ∨
        ((checkConstraint destroyInstance th s k).1 = s.1 ∧
          (checkConstraint destroyInstance th s k).2 ≤ s.2 ∧
          ∀ sth, (s.1.threads th).subThreads[k]? = some sth →
            sth.timeConstraint ≠ TIMEOUT_INFINITE →
            s.1.InTime (checkConstraint destroyInstance th s k).2
              (s.1.adjust sth.timeConstraint))) := by
  rw [checkConstraint]
  rcases hsth : (s.1.threads th).subThreads[k]? with _ | sth
  · exact ⟨Engine.Leads.refl _, Or.inr ⟨rfl, Int.le_refl _, fun sth hsome => by
      simp at hsome⟩⟩
  · dsimp only
    by_cases hfinite : sth.timeConstraint ≠ TIMEOUT_INFINITE
    · rw [if_pos hfinite]
      rcases isTimeExpired_cases s.1.currentMachineTime (s.1.adjust sth.timeConstraint) s.2 with
        ⟨_, heq⟩ | ⟨timeoutMin, hlater, hle, hdiff, heq⟩
      · rw [heq]
        dsimp only
        by_cases htriggered : ¬ sth.triggered = true
        · rw [if_pos htriggered]
          have hset : s.1.Leads (s.1.setThread th ((s.1.threads th).changeSubThread k fun sth =>
              { sth with
                triggered := true
                timeConstraint := sth.timeConstraint + TIME_CONVERSION_TO_MILLISECONDS * 500 })) :=
            s.1.setThread_leads rfl
          have hcache : ∀ s : Engine n, s.Leads { s with timerCache := false } := fun s =>
            ⟨fun _ => rfl, fun h => ⟨h.nodup, h.running⟩, id, rfl, rfl, rfl, rfl⟩
          obtain ⟨hleads, hawake⟩ := (hset.trans (hcache _)).restart hrunning true
          exact ⟨hleads, Or.inl hawake⟩
        · rw [if_neg htriggered]
          have hset : s.1.Leads ((destroyInstance s.1 th k).setThread th
              (((destroyInstance s.1 th k).threads th).changeSubThread k fun sth =>
                { sth with timeConstraint := TIMEOUT_INFINITE })) :=
            (hdestroy s.1 th k).trans ((destroyInstance s.1 th k).setThread_leads rfl)
          obtain ⟨hleads, hawake⟩ := hset.restart hrunning true
          exact ⟨hleads, Or.inl hawake⟩
      · rw [heq]
        refine ⟨Engine.Leads.refl _, Or.inr ⟨rfl, hle, fun sth' hsth' _ => ?_⟩⟩
        rw [← Option.some.inj hsth']
        exact ⟨hlater, hdiff⟩
    · rw [if_neg hfinite]
      refine ⟨Engine.Leads.refl _, Or.inr ⟨rfl, Int.le_refl _, fun sth' hsth' hfinite' => ?_⟩⟩
      rw [← Option.some.inj hsth'] at hfinite'
      exact absurd hfinite' hfinite

theorem checkConstraints_fold (hdestroy : Destroys destroyInstance) (ks : List Nat)
    (s : Engine n × Int) (hrunning : (s.1.threads th).suspended = false) :
    s.1.Leads (ks.foldl (checkConstraint destroyInstance th) s).1 ∧
      ((ks.foldl (checkConstraint destroyInstance th) s).1.Awake ∨
        ((ks.foldl (checkConstraint destroyInstance th) s).1 = s.1 ∧
          (ks.foldl (checkConstraint destroyInstance th) s).2 ≤ s.2 ∧
          ∀ k ∈ ks, ∀ sth, (s.1.threads th).subThreads[k]? = some sth →
            sth.timeConstraint ≠ TIMEOUT_INFINITE →
            s.1.InTime (ks.foldl (checkConstraint destroyInstance th) s).2
              (s.1.adjust sth.timeConstraint))) := by
  induction ks generalizing s with
  | nil => exact ⟨Engine.Leads.refl _, Or.inr ⟨rfl, Int.le_refl _, fun k hk => by simp at hk⟩⟩
  | cons k ks ih =>
    rw [List.foldl_cons]
    obtain ⟨hleads, hcases⟩ := checkConstraint_spec hdestroy s k hrunning
    obtain ⟨hleads', hcases'⟩ := ih (checkConstraint destroyInstance th s k)
      ((hleads.suspended th).trans hrunning)
    refine ⟨hleads.trans hleads', ?_⟩
    rcases hcases with hawake | ⟨hsame, hle, hin⟩
    · exact Or.inl (hleads'.awake hawake)
    · rcases hcases' with hawake | ⟨hsame', hle', hin'⟩
      · exact Or.inl hawake
      · rw [hsame] at hsame' hin'
        refine Or.inr ⟨hsame', Int.le_trans hle' hle, fun k' hk' sth hsth hfinite => ?_⟩
        rcases List.mem_cons.mp hk' with rfl | hk'
        · exact (hin sth hsth hfinite).mono hle'
        · exact hin' k' hk' sth hsth hfinite

theorem checkConstraints_spec (hdestroy : Destroys destroyInstance) (s : Engine n × Int)
    (hrunning : (s.1.threads th).suspended = false) :
    s.1.Leads (checkConstraints destroyInstance th s).1 ∧
      ((checkConstraints destroyInstance th s).1.Awake ∨
        ((checkConstraints destroyInstance th s).1 = s.1 ∧
          (checkConstraints destroyInstance th s).2 ≤ s.2 ∧
          ∀ time ∈ (s.1.threads th).subThreads.map (·.timeConstraint), time ≠ TIMEOUT_INFINITE →
            s.1.InTime (checkConstraints destroyInstance th s).2 (s.1.adjust time))) := by
  obtain ⟨hleads, hcases⟩ := checkConstraints_fold hdestroy
    (List.range (s.1.threads th).subThreads.length).reverse s hrunning
  refine ⟨hleads, hcases.imp_right ?_⟩
  rintro ⟨hsame, hle, hin⟩
  refine ⟨hsame, hle, fun time htime hfinite => ?_⟩
  obtain ⟨sth, hsth, rfl⟩ := List.mem_map.mp htime
  obtain ⟨k, hk, hget⟩ := List.getElem_of_mem hsth
  exact hin k (List.mem_reverse.mpr (List.mem_range.mpr hk)) sth
    (List.getElem?_eq_some_iff.mpr ⟨hk, hget⟩) hfinite

end TinyClr.ProcessTimer
