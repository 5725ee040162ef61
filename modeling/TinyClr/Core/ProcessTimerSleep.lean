import TinyClr.Core.ProcessTimerSpec

/-!
# The engine sleeps in time

From one thread to the walk along the waiting ones, to `ProcessTimer` and to `WaitForActivity`.
-/

namespace TinyClr.ProcessTimer

open TinyClr.Library
open TinyClr.ExecutionEngine (Status TIMEOUT_INFINITE)

variable {n : Nat} {s s' : Engine n} {th : Fin n} {destroyInstance : DestroyInstance n}

/-! ### Threads -/

/-- No expired request for a lock of this thread is one of a suspended thread. -/
def Engine.Unsuspended (s : Engine n) (th : Fin n) : Prop :=
  ∀ lock ∈ (s.threads th).locks, ProcessTimer.Unsuspended s lock.requests

theorem checkThread_suspended (s : Engine n × Int) (hsuspended : (s.1.threads th).suspended = true) :
    (checkThread destroyInstance s th).1 = s := by
  rw [checkThread, if_pos hsuspended]

/-- A thread that is not suspended: some thread is ready, or its deadlines are passed by. -/
theorem checkThread_spec (hdestroy : Destroys destroyInstance) (s : Engine n × Int)
    (hrunning : (s.1.threads th).suspended = false) :
    s.1.Leads (checkThread destroyInstance s th).1.1 ∧
      (s.1.Unsuspended th → (checkThread destroyInstance s th).1.1.Awake ∨
        (s.1.Quiet (checkThread destroyInstance s th).1.1 ∧
          s.1.Unlocks (checkThread destroyInstance s th).1.1 th ∧
          (checkThread destroyInstance s th).1.2 ≤ s.2 ∧
          s.1.Passed th (checkThread destroyInstance s th).1.2)) := by
  have hbody : (checkThread destroyInstance s th).1 = checkConstraints destroyInstance th
      (checkLockRequests th (checkWait th (checkEvents th s))) := by
    rw [checkThread, if_neg (by simp [hrunning])]
  rw [hbody]
  obtain ⟨hleads₁, hcases₁⟩ := checkEvents_spec s hrunning
  obtain ⟨s₁, hs₁⟩ : ∃ s₁, s₁ = checkEvents th s := ⟨_, rfl⟩
  rw [← hs₁] at hleads₁ hcases₁ ⊢
  obtain ⟨hleads₂, hcases₂⟩ := checkWait_spec s₁ ((hleads₁.suspended th).trans hrunning)
  obtain ⟨s₂, hs₂⟩ : ∃ s₂, s₂ = checkWait th s₁ := ⟨_, rfl⟩
  rw [← hs₂] at hleads₂ hcases₂ ⊢
  obtain ⟨hleads₃, hle₃, hall₃, hcases₃⟩ := @checkLockRequests_spec _ th s₂
  obtain ⟨s₃, hs₃⟩ : ∃ s₃, s₃ = checkLockRequests th s₂ := ⟨_, rfl⟩
  rw [← hs₃] at hleads₃ hle₃ hall₃ hcases₃ ⊢
  have hleads := (hleads₁.trans hleads₂).trans hleads₃
  obtain ⟨hleads₄, hcases₄⟩ := checkConstraints_spec hdestroy s₃
    ((hleads.suspended th).trans hrunning)
  refine ⟨hleads.trans hleads₄, fun hun => ?_⟩
  rcases hcases₁ with hawake | ⟨hsame₁, hle₁, hin₁⟩
  · exact Or.inl (hleads₄.awake (hleads₃.awake (hleads₂.awake hawake)))
  · rcases hcases₂ with hawake | ⟨hsame₂, hle₂, hin₂⟩
    · exact Or.inl (hleads₄.awake (hleads₃.awake hawake))
    · rw [hsame₁] at hsame₂ hin₂
      rw [hsame₂] at hall₃ hcases₃
      rcases hcases₃ hun with hawake | ⟨hquiet, hunlocks⟩
      · exact Or.inl (hleads₄.awake hawake)
      · rcases hcases₄ with hawake | ⟨hsame₄, hle₄, hin₄⟩
        · exact Or.inl hawake
        · rw [hsame₄]
          rw [hquiet.constraints] at hin₄
          have hclock : s₃.1.currentMachineTime = s.1.currentMachineTime := hleads.machineTime
          refine Or.inr ⟨hquiet, hunlocks, by omega, hin₁.mono (by omega), fun wait hwait =>
            (hin₂ wait hwait).mono (by omega), fun lock hlock req hreq => ?_,
            fun time htime hfinite => ?_⟩
          · exact Int.le_trans hle₄ (hall₃ lock hlock req hreq)
          · have hin := hin₄ time htime hfinite
            rw [Engine.InTime, Engine.adjust, hclock, hleads.compensation] at hin
            exact hin

theorem checkThread_leads (hdestroy : Destroys destroyInstance) (s : Engine n × Int) (th : Fin n) :
    s.1.Leads (checkThread destroyInstance s th).1.1 := by
  rcases hsuspended : (s.1.threads th).suspended with _ | _
  · exact (checkThread_spec hdestroy s hsuspended).1
  · rw [checkThread_suspended s hsuspended]
    exact Engine.Leads.refl _

/-! ### Walks -/

variable {fuel : Nat}

theorem checkThreads_leads (hdestroy : Destroys destroyInstance)
    {s s' : Engine n × Int} {first : Option (Fin n)}
    (h : checkThreads destroyInstance fuel s first = some s') : s.1.Leads s'.1 :=
  @walk_keeps _ _ nextThread (checkThread destroyInstance) (fun s' => s.1.Leads s'.1)
    (fun s' th hleads => hleads.trans (checkThread_leads hdestroy s' th)) fuel s s' first
    (Engine.Leads.refl s.1) h

/-- The walk along the waiting threads, with the threads still to come, where no thread has been
    made ready -/
structure Walking (s₀ : Engine n) (timeout₀ : Int) (s : Engine n × Int) (rest : List (Fin n)) : Prop where
  leads : s₀.Leads s.1
  le : s.2 ≤ timeout₀
  quiet : s₀.Quiet s.1
  comes : ∃ front, s₀.threadsWaiting = front ++ rest
  passed : ∀ q ∈ s₀.threadsWaiting, q ∉ rest → (s₀.threads q).suspended = false →
    s₀.Passed q s.2 ∧ (s.1.threads q).locks = s₀.unexpiredLocks (s₀.threads q).locks
  locks : ∀ q, q ∈ rest → (s.1.threads q).locks = (s₀.threads q).locks

section Walking

variable {s₀ : Engine n} {timeout₀ : Int} {s : Engine n × Int} {rest : List (Fin n)}

theorem Walking.not_mem (h : Walking s₀ timeout₀ s (th :: rest)) (hlinked : s₀.Linked) : th ∉ rest := by
  obtain ⟨front, hlist⟩ := h.comes
  have hnodup := (List.nodup_append.mp hlinked.nodup).2.1
  rw [hlist, List.nodup_middle, List.nodup_cons, List.mem_append, not_or] at hnodup
  exact hnodup.1.2

theorem Walking.next (h : Walking s₀ timeout₀ s (th :: rest)) (hlinked : s₀.Linked)
    (hready : s₀.threadsReady = []) : nextThread s th = rest.head? := by
  obtain ⟨front, hlist⟩ := h.comes
  have hnodup := (List.nodup_append.mp hlinked.nodup).2.1
  rw [hlist, List.nodup_middle, List.nodup_cons, List.mem_append, not_or] at hnodup
  rw [nextThread, h.quiet.ready, hready, if_neg List.not_mem_nil, h.quiet.waiting, hlist]
  exact following_append hnodup.1.1

theorem Walking.step (h : Walking s₀ timeout₀ s (th :: rest)) (hdestroy : Destroys destroyInstance)
    (hlinked : s₀.Linked)
    (hun : ∀ q ∈ s₀.threadsWaiting, (s₀.threads q).suspended = false → s₀.Unsuspended q) :
    Walking s₀ timeout₀ (checkThread destroyInstance s th).1 rest ∨
      (checkThread destroyInstance s th).1.1.Awake := by
  obtain ⟨front, hlist⟩ := h.comes
  have hcomes : ∃ front, s₀.threadsWaiting = front ++ rest :=
    ⟨front ++ [th], by rw [hlist, List.append_assoc]; rfl⟩
  have hmem : th ∈ s₀.threadsWaiting := by
    rw [hlist]
    simp
  have hnotmem := h.not_mem hlinked
  have hfront : ∀ q, q ≠ th → q ∉ rest → q ∉ th :: rest := by
    intro q hne hq hmem'
    rcases List.mem_cons.mp hmem' with heq | hmem'
    · exact hne heq
    · exact hq hmem'
  rcases hsuspended : (s.1.threads th).suspended with _ | _
  · obtain ⟨hleads, hcases⟩ := checkThread_spec hdestroy s hsuspended
    have hrunning : (s₀.threads th).suspended = false := (h.leads.suspended th).symm.trans hsuspended
    have hlocks := h.locks th List.mem_cons_self
    have hth : s.1.Unsuspended th := by
      intro lock hlock
      rw [hlocks] at hlock
      exact (hun th hmem hrunning lock hlock).leads h.leads
    rcases hcases hth with hawake | ⟨hquiet, hunlocks, hle, hpassed⟩
    · exact Or.inr hawake
    · refine Or.inl ⟨h.leads.trans hleads, Int.le_trans hle h.le, h.quiet.trans hquiet, hcomes,
        fun q hq hqrest hqrunning => ?_, fun q hq => ?_⟩
      · rcases eq_or_ne q th with rfl | hne
        · refine ⟨hpassed.before h.leads (h.quiet.events q) (h.quiet.wait q) hlocks
            (h.quiet.constraints q), ?_⟩
          rw [hunlocks.1, hlocks, Engine.unexpiredLocks, Engine.unexpiredLocks]
          have hunexpired : s.1.unexpired = s₀.unexpired := by
            funext requests
            rw [Engine.unexpired, Engine.unexpired, h.leads.machineTime]
          rw [hunexpired]
        · obtain ⟨hpassed', hlocks'⟩ := h.passed q hq (hfront q hne hqrest) hqrunning
          exact ⟨hpassed'.mono hle, (hunlocks.2 q hne).trans hlocks'⟩
      · have hne : q ≠ th := by
          rintro rfl
          exact hnotmem hq
        exact (hunlocks.2 q hne).trans (h.locks q (List.mem_cons_of_mem _ hq))
  · rw [checkThread_suspended s hsuspended]
    refine Or.inl ⟨h.leads, h.le, h.quiet, hcomes, fun q hq hqrest hqrunning => ?_,
      fun q hq => h.locks q (List.mem_cons_of_mem _ hq)⟩
    have hne : q ≠ th := by
      rintro rfl
      rw [← h.leads.suspended, hsuspended] at hqrunning
      exact Bool.noConfusion hqrunning
    exact h.passed q hq (hfront q hne hqrest) hqrunning

end Walking

/-- Along the waiting threads, where none is ready -/
theorem checkThreads_spec (hdestroy : Destroys destroyInstance)
    {s s' : Engine n × Int} (hlinked : s.1.Linked) (hready : s.1.threadsReady = [])
    (hun : ∀ q ∈ s.1.threadsWaiting, (s.1.threads q).suspended = false → s.1.Unsuspended q)
    (h : checkThreads destroyInstance fuel s s.1.threadsWaiting.head? = some s') :
    Walking s.1 s.2 s' [] ∨ s'.1.Awake := by
  refine @walk_unless _ _ nextThread (checkThread destroyInstance) (Walking s.1 s.2)
    (fun s' => s'.1.Awake) (fun s₁ th rest hwalk => hwalk.next hlinked hready) ?_
    (fun s₁ th rest hwalk => hwalk.step hdestroy hlinked hun)
    (fun s₁ th hawake => (checkThread_leads hdestroy s₁ th).awake hawake) s.1.threadsWaiting s s'
    fuel ⟨Engine.Leads.refl _, Int.le_refl _, Engine.Quiet.refl _, ⟨[], rfl⟩, fun q hq hq' => absurd hq hq',
      fun q _ => rfl⟩ h
  intro s₁ th
  rw [checkThread]
  split_ifs <;> rfl

/-! ### Timers -/

/-- A timer is in time, or it has expired and, if it is referenced, is to be started or is on. -/
def Engine.TimerPassed (s : Engine n) (timers : List Timer) (timer : Timer) (timeout : Int) :
    Prop :=
  (s.timerClock timer < timer.timeExpire ∧
      timeout ≤ timer.timeExpire - s.timerClock timer) ∨
    (timer.timeExpire ≤ s.timerClock timer ∧ (timer.referenced = true →
      ∃ timer' ∈ timers, timer'.id = timer.id ∧
        (timer'.triggered = true ∨ timer'.executing = true)))

variable {timeout : Int}

theorem Engine.TimerPassed.mono {timers timers' : List Timer} {timer : Timer}
    {timeout' : Int} (h : s.TimerPassed timers timer timeout) (hle : timeout' ≤ timeout)
    (hkept : ∀ t ∈ timers, t.triggered = true ∨ t.executing = true →
      ∃ t' ∈ timers', t'.id = t.id ∧ (t'.triggered = true ∨ t'.executing = true)) :
    s.TimerPassed timers' timer timeout' := by
  rcases h with ⟨hlater, hin⟩ | ⟨hexpired, hon⟩
  · exact Or.inl ⟨hlater, Int.le_trans hle hin⟩
  · refine Or.inr ⟨hexpired, fun hreferenced => ?_⟩
    obtain ⟨t, ht, hid, hon⟩ := hon hreferenced
    obtain ⟨t', ht', hid', hon'⟩ := hkept t ht hon
    exact ⟨t', ht', hid'.trans hid, hon'⟩

theorem checkTimer_spec (s : Engine n) (hpause : s.pauseTimers = false) (timer : Timer)
    (timeoutMin : Int) :
    (s.checkTimer timer timeoutMin).2.2 ≤ timeoutMin ∧ (timer.enabled = true →
      s.TimerPassed [(s.checkTimer timer timeoutMin).1] timer
        (s.checkTimer timer timeoutMin).2.2) := by
  rw [Engine.checkTimer]
  by_cases henabled : timer.enabled
  · rw [if_pos henabled]
    rcases isTimeExpired_cases (s.timerClock timer) timer.timeExpire timeoutMin with
      ⟨hexpired, heq⟩ | ⟨timeoutMin', hlater, hle, hdiff, heq⟩
    · rw [heq]
      dsimp only
      rw [hpause, if_neg Bool.false_ne_true]
      refine ⟨Int.le_refl _, fun _ => Or.inr ⟨hexpired, fun hreferenced =>
        ⟨_, List.mem_singleton_self _, ?_⟩⟩⟩
      rw [Timer.trigger, if_neg (by simp [hreferenced])]
      split_ifs with hexecuting
      · exact ⟨rfl, Or.inr hexecuting⟩
      · exact ⟨rfl, Or.inl rfl⟩
    · rw [heq]
      exact ⟨hle, fun _ => Or.inl ⟨hlater, hdiff⟩⟩
  · rw [if_neg henabled]
    exact ⟨Int.le_refl _, fun h => absurd h henabled⟩

theorem checkTimerList_spec (s : Engine n) (hpause : s.pauseTimers = false) (timers : List Timer)
    (timeoutMin : Int) :
    (s.checkTimerList timers timeoutMin).2.2 ≤ timeoutMin ∧
      ∀ timer ∈ timers, timer.enabled = true →
        s.TimerPassed (s.checkTimerList timers timeoutMin).1 timer
          (s.checkTimerList timers timeoutMin).2.2 := by
  induction timers generalizing timeoutMin with
  | nil => exact ⟨Int.le_refl _, fun timer htimer => absurd htimer List.not_mem_nil⟩
  | cons timer rest ih =>
    obtain ⟨hle, hpassed⟩ := checkTimer_spec s hpause timer timeoutMin
    obtain ⟨hle', hpassed'⟩ := ih (s.checkTimer timer timeoutMin).2.2
    rw [Engine.checkTimerList]
    refine ⟨Int.le_trans hle' hle, fun timer' htimer' henabled => ?_⟩
    rcases List.mem_cons.mp htimer' with rfl | htimer'
    · exact (hpassed henabled).mono hle' fun t ht hon =>
        ⟨t, List.mem_singleton.mp ht ▸ List.mem_cons_self, rfl, hon⟩
    · exact (hpassed' timer' htimer' henabled).mono (Int.le_refl _) fun t ht hon =>
        ⟨t, List.mem_cons_of_mem _ ht, rfl, hon⟩

def Engine.Keeps (s s' : Engine n) : Prop :=
  ∀ q, (s.threads q).suspended = false →
    s'.threads q = s.threads q ∧ (q ∈ s'.threadsWaiting ↔ q ∈ s.threadsWaiting)

theorem Engine.restart_keeps (s : Engine n) (th : Fin n) :
    (s.restart th false).Awake ∨ s.Keeps (s.restart th false) := by
  rcases hsuspended : (s.threads th).suspended with _ | _
  · exact Or.inl ((s.restart_leads th false).2 hsuspended)
  · refine Or.inr fun q hrunning => ?_
    have hne : q ≠ th := by
      rintro rfl
      rw [hsuspended] at hrunning
      exact Bool.noConfusion hrunning
    have hrestart : s.restart th false =
        (s.setThread th { s.threads th with status := .ready }).linkWaiting th := by
      rw [Engine.restart]
      dsimp only
      rw [if_neg Bool.false_ne_true, Engine.putInProperList, Engine.setThread_self]
      dsimp only
      rw [hsuspended]
    rw [hrestart]
    refine ⟨Function.update_of_ne hne .., ?_⟩
    rw [Engine.linkWaiting]
    dsimp only
    rw [List.mem_append, List.mem_singleton, or_iff_left hne]
    exact mem_filter_ne.trans (and_iff_left hne)

theorem Engine.putInProperList_timers (s : Engine n) (th : Fin n) :
    (s.putInProperList th).timers = s.timers := by
  rw [Engine.putInProperList]
  split <;> rfl

/-- `SpawnTimer` starts a timer that has been triggered, or leaves it so. -/
theorem spawnTimer_spec (s : Engine n) (timerThread : TimerThread n) :
    s.Leads (s.spawnTimer timerThread) ∧
      ((s.spawnTimer timerThread).Awake ∨ s.Keeps (s.spawnTimer timerThread)) ∧
      ∀ t ∈ s.timers, t.triggered = true ∨ t.executing = true →
        ∃ t' ∈ (s.spawnTimer timerThread).timers, t'.id = t.id ∧
          (t'.triggered = true ∨ t'.executing = true) := by
  have hsame : s.Leads s ∧ (s.Awake ∨ s.Keeps s) ∧
      ∀ t ∈ s.timers, t.triggered = true ∨ t.executing = true →
        ∃ t' ∈ s.timers, t'.id = t.id ∧ (t'.triggered = true ∨ t'.executing = true) :=
    ⟨Engine.Leads.refl s, Or.inr fun q _ => ⟨rfl, Iff.rfl⟩, fun t ht hon => ⟨t, ht, rfl, hon⟩⟩
  rw [Engine.spawnTimer]
  split
  · exact hsame
  · exact hsame
  · rename_i timer th hfind hthread
    dsimp only
    have htriggered : timer.triggered = true := List.find?_some hfind
    obtain ⟨started, hstarted⟩ : ∃ started : Timer, started =
        if timerThread.pushed then
          { timer with timeExpire := TIMEOUT_INFINITE, executing := true, triggered := false }
        else { timer with timeExpire := TIMEOUT_INFINITE } := ⟨_, rfl⟩
    rw [← hstarted]
    have hon : started.id = timer.id ∧ (started.triggered = true ∨ started.executing = true) := by
      rw [hstarted]
      split_ifs
      · exact ⟨rfl, Or.inr rfl⟩
      · exact ⟨rfl, Or.inl htriggered⟩
    have htimers : ∀ t ∈ s.timers, t.triggered = true ∨ t.executing = true →
        ∃ t' ∈ s.timers.erase timer ++ [started], t'.id = t.id ∧
          (t'.triggered = true ∨ t'.executing = true) := by
      intro t ht hont
      rcases eq_or_ne t timer with rfl | hne
      · exact ⟨started, List.mem_append_right _ (List.mem_singleton_self _), hon⟩
      · exact ⟨t, List.mem_append_left _ ((List.mem_erase_of_ne hne).mpr ht), rfl, hont⟩
    obtain ⟨s₁, hs₁⟩ : ∃ s₁ : Engine n, s₁ =
        { s with timers := s.timers.erase timer ++ [started] } := ⟨_, rfl⟩
    have hleads : s.Leads s₁ := by
      rw [hs₁]
      exact ⟨fun _ => rfl, fun h => ⟨h.nodup, h.running⟩, id, rfl, rfl, rfl, rfl⟩
    have hkeeps : s.Keeps s₁ := by
      rw [hs₁]
      exact fun q _ => ⟨rfl, Iff.rfl⟩
    have hlist : s₁.timers = s.timers.erase timer ++ [started] := by rw [hs₁]
    have hrestart : (s₁.setThread th { s.threads th with status := .ready }).putInProperList th =
        s₁.restart th false := by
      rw [hs₁]
      rfl
    have htimers' : (s₁.restart th false).timers = s.timers.erase timer ++ [started] := by
      rw [← hrestart, Engine.putInProperList_timers]
      exact hlist
    rw [← hs₁, hrestart]
    split_ifs with hpushed
    · rw [htimers']
      refine ⟨hleads.trans (s₁.restart_leads th false).1, ?_, htimers⟩
      refine (s₁.restart_keeps th).imp_right fun hkeeps' q hrunning => ?_
      obtain ⟨hthread, hwaiting⟩ := hkeeps q hrunning
      obtain ⟨hthread', hwaiting'⟩ := hkeeps' q ((hleads.suspended q).trans hrunning)
      exact ⟨hthread'.trans hthread, hwaiting'.trans hwaiting⟩
    · rw [hlist]
      exact ⟨hleads, Or.inr hkeeps, htimers⟩

/-- `CheckTimers` -/
theorem checkTimers_spec (s : Engine n) (timerThread : TimerThread n) (timeoutMin : Int) :
    s.Leads (s.checkTimers timerThread timeoutMin).1 ∧
      ((s.checkTimers timerThread timeoutMin).1.Awake ∨
        s.Keeps (s.checkTimers timerThread timeoutMin).1) ∧
      (s.pauseTimers = false → ∀ timer ∈ s.timers, timer.enabled = true →
        s.TimerPassed (s.checkTimers timerThread timeoutMin).1.timers timer
          (s.checkTimers timerThread timeoutMin).2) := by
  obtain ⟨result, hresult⟩ : ∃ result, result = s.checkTimerList s.timers timeoutMin := ⟨_, rfl⟩
  have hpassed : s.pauseTimers = false → ∀ timer ∈ s.timers, timer.enabled = true →
      s.TimerPassed result.1 timer result.2.2 := by
    intro hpause
    rw [hresult]
    exact (checkTimerList_spec s hpause s.timers timeoutMin).2
  have hleads : s.Leads { s with timers := result.1 } :=
    ⟨fun _ => rfl, fun h => ⟨h.nodup, h.running⟩, id, rfl, rfl, rfl, rfl⟩
  have hkeeps : s.Keeps { s with timers := result.1 } := fun q _ => ⟨rfl, Iff.rfl⟩
  rw [Engine.checkTimers, ← hresult]
  dsimp only
  split_ifs with hany
  · obtain ⟨hleads', hcases, htimers⟩ := spawnTimer_spec { s with timers := result.1 } timerThread
    exact ⟨hleads.trans hleads', hcases, fun hpause timer htimer henabled =>
      (hpassed hpause timer htimer henabled).mono (Int.le_refl _) htimers⟩
  · exact ⟨hleads, Or.inr hkeeps, hpassed⟩

/-! ### `ProcessTimer` -/

theorem Engine.cache_leads (s : Engine n) (timerCache : Bool) (timerCacheNextTimeout : Int) :
    s.Leads { s with timerCache, timerCacheNextTimeout } :=
  ⟨fun _ => rfl, fun h => ⟨h.nodup, h.running⟩, id, rfl, rfl, rfl, rfl⟩

variable {timerThread : TimerThread n}

theorem processTimer_some
    (h : processTimer destroyInstance timerThread fuel s = some (s', timeout)) :
    (s' = s ∧ s.stopped = true ∧ s.threadsWaiting = []) ∨
    ∃ timeoutMin s₁ s₂ timerCache timerCacheNextTimeout,
      checkThreads destroyInstance fuel (s.checkTimers timerThread timeoutMin)
        (s.checkTimers timerThread timeoutMin).1.threadsReady.head? = some s₁ ∧
      checkThreads destroyInstance fuel s₁ s₁.1.threadsWaiting.head? = some s₂ ∧
      s' = { s₂.1 with timerCache, timerCacheNextTimeout } ∧
      (s'.systemTimer = true → timeout = s₂.2) := by
  rw [processTimer] at h
  obtain ⟨⟨s₃, timeoutMin₃⟩, hbody, h⟩ := Option.bind_eq_some_iff.mp h
  obtain ⟨rfl, htimeout⟩ := Prod.mk.inj (Option.some.inj h)
  split_ifs at hbody with hstopped
  · obtain ⟨rfl, rfl⟩ := Prod.mk.inj (Option.some.inj hbody)
    exact Or.inl ⟨rfl, hstopped⟩
  all_goals
    obtain ⟨s₁, hready, hbody⟩ := Option.bind_eq_some_iff.mp hbody
    obtain ⟨s₂, hwaiting, hbody⟩ := Option.bind_eq_some_iff.mp hbody
    obtain ⟨hs₃, htimeout₃⟩ := Prod.mk.inj (Option.some.inj hbody)
    refine Or.inr ⟨_, s₁, s₂, _, _, hready, hwaiting, hs₃.symm, fun hsystem => ?_⟩
    rw [← htimeout, if_pos hsystem]
    exact htimeout₃.symm

theorem processTimer_leads (hdestroy : Destroys destroyInstance)
    (h : processTimer destroyInstance timerThread fuel s = some (s', timeout)) : s.Leads s' := by
  rcases processTimer_some h with ⟨rfl, _⟩ | ⟨timeoutMin, s₁, s₂, _, _, hready, hwaiting, rfl, _⟩
  · exact Engine.Leads.refl _
  · exact (((checkTimers_spec s timerThread timeoutMin).1.trans
      (checkThreads_leads hdestroy hready)).trans (checkThreads_leads hdestroy hwaiting)).trans
      (s₂.1.cache_leads _ _)

/-- What is left to the deadlines when the engine sleeps: they are to come, and the timeout is not
    longer than what is left to each.  Timers and lock requests that had expired have been dealt
    with. -/
structure SleepsInTime (s s' : Engine n) (timeout : Int) : Prop where
  timers : ∀ timer ∈ s.timers, timer.enabled = true → s.TimerPassed s'.timers timer timeout
  threads : ∀ q ∈ s.threadsReady ++ s.threadsWaiting, (s.threads q).suspended = false →
    s.Passed q timeout ∧ (s'.threads q).locks = s.unexpiredLocks (s.threads q).locks

theorem Engine.Linked.awake (h : s.Linked) (hready : s.threadsReady ≠ []) : s.Awake := by
  obtain ⟨q, hq⟩ := List.exists_mem_of_ne_nil _ hready
  exact ⟨q, hq, h.running q hq⟩

/-- `ProcessTimer` where no thread is ready afterwards -/
theorem processTimer_spec (hdestroy : Destroys destroyInstance)
    (hlinked : s.Linked) (hsystem : s.systemTimer = true)
    (hstopped : ¬ (s.stopped = true ∧ s.threadsWaiting = [])) (hpause : s.pauseTimers = false)
    (hun : ∀ q ∈ s.threadsReady ++ s.threadsWaiting, (s.threads q).suspended = false →
      s.Unsuspended q)
    (h : processTimer destroyInstance timerThread fuel s = some (s', timeout))
    (hsleeps : s'.threadsReady = []) : SleepsInTime s s' timeout := by
  have hasleep : ¬ s'.Awake := by
    rintro ⟨q, hq, _⟩
    rw [hsleeps] at hq
    exact absurd hq List.not_mem_nil
  have hleads := processTimer_leads hdestroy h
  rcases processTimer_some h with ⟨_, hstop⟩ |
    ⟨timeoutMin, s₁, s₂, timerCache, timerCacheNextTimeout, hready, hwaiting, hs', htimeout⟩
  · exact absurd hstop hstopped
  · obtain ⟨hleads₀, hcases₀, htimers₀⟩ := checkTimers_spec s timerThread timeoutMin
    have hleads₁ := checkThreads_leads hdestroy hready
    have hleads₂ := checkThreads_leads hdestroy hwaiting
    have hasleep₂ : ¬ s₂.1.Awake := fun hawake => hasleep (hs' ▸ hawake)
    have hasleep₁ : ¬ s₁.1.Awake := fun hawake => hasleep₂ (hleads₂.awake hawake)
    have hasleep₀ : ¬ (s.checkTimers timerThread timeoutMin).1.Awake :=
      fun hawake => hasleep₁ (hleads₁.awake hawake)
    obtain ⟨s₀, hs₀⟩ : ∃ s₀, s₀ = s.checkTimers timerThread timeoutMin := ⟨_, rfl⟩
    rw [← hs₀] at hready hleads₀ hleads₁ hasleep₀ hcases₀ htimers₀
    have hlinked₀ := hleads₀.linked hlinked
    have hready₀ : s₀.1.threadsReady = [] := by
      by_contra hne
      exact hasleep₀ (hlinked₀.awake hne)
    have hsame : s₁ = s₀ := by
      rw [hready₀, List.head?_nil] at hready
      cases fuel <;> exact (Option.some.inj hready).symm
    have hkeeps : s.Keeps s₀.1 := hcases₀.resolve_left hasleep₀
    have hempty : s.threadsReady = [] := by
      by_contra hne
      exact hasleep₀ (hleads₀.awake (hlinked.awake hne))
    rw [hsame] at hwaiting hleads₂
    have hwalk := checkThreads_spec hdestroy hlinked₀ hready₀ (fun q hq hrunning => ?_) hwaiting
    · have hwalk := hwalk.resolve_right hasleep₂
      have htime : timeout = s₂.2 := htimeout (hleads.systemTimer.trans hsystem)
      rw [htime, hs']
      refine ⟨fun timer htimer henabled => ?_, fun q hq hrunning => ?_⟩
      · dsimp only
        rw [hwalk.quiet.timers]
        exact (htimers₀ hpause timer htimer henabled).mono hwalk.le fun t ht hon => ⟨t, ht, rfl, hon⟩
      · rw [hempty, List.nil_append] at hq
        obtain ⟨hthread, hmem⟩ := hkeeps q hrunning
        obtain ⟨hpassed, hlocks⟩ := hwalk.passed q (hmem.mpr hq) List.not_mem_nil
          ((hleads₀.suspended q).trans hrunning)
        refine ⟨hpassed.before hleads₀ (by rw [hthread]) (by rw [hthread]) (by rw [hthread])
          (by rw [hthread]), ?_⟩
        dsimp only
        rw [hlocks, hthread, Engine.unexpiredLocks, Engine.unexpiredLocks]
        have hunexpired : s₀.1.unexpired = s.unexpired := by
          funext requests
          rw [Engine.unexpired, Engine.unexpired, hleads₀.machineTime]
        rw [hunexpired]
    · rw [hleads₀.suspended] at hrunning
      obtain ⟨hthread, hmem⟩ := hkeeps q hrunning
      intro lock hlock
      rw [hthread] at hlock
      exact (hun q (List.mem_append_right _ (hmem.mp hq)) hrunning lock hlock).leads hleads₀

/-! ### `WaitForActivity` -/

theorem waitForActivity_leads (hdestroy : Destroys destroyInstance)
    {activity : Activity n}
    (h : waitForActivity destroyInstance timerThread fuel s = some (s', activity)) :
    s.Leads s' := by
  rw [waitForActivity] at h
  obtain ⟨⟨s₁, timeoutMin⟩, hprocess, h⟩ := Option.bind_eq_some_iff.mp h
  have hleads := processTimer_leads hdestroy hprocess
  dsimp only at h
  split_ifs at h
  · rw [← (Prod.mk.inj (Option.some.inj h)).1]
    exact hleads
  · split at h
    · rename_i th _
      have hset : s₁.Leads (s₁.setThread th { s₁.threads th with
          waitForEvents_IdleTimeWorkItem := 0 }) := s₁.setThread_leads rfl
      rw [← (Prod.mk.inj (Option.some.inj h)).1]
      exact (hleads.trans hset).trans (Engine.restart_leads _ th true).1
    · rw [← (Prod.mk.inj (Option.some.inj h)).1]
      exact hleads
  · rw [← (Prod.mk.inj (Option.some.inj h)).1]
    exact hleads

theorem waitForActivity_sleep
    (h : waitForActivity destroyInstance timerThread fuel s = some (s', .sleep timeout)) :
    processTimer destroyInstance timerThread fuel s = some (s', timeout) ∧
      s'.threadsReady = [] := by
  rw [waitForActivity] at h
  obtain ⟨⟨s₁, timeoutMin⟩, hprocess, h⟩ := Option.bind_eq_some_iff.mp h
  dsimp only at h
  split_ifs at h with hready htimeout
  · exact absurd (Prod.mk.inj (Option.some.inj h)).2 (by simp)
  · split at h
    · exact absurd (Prod.mk.inj (Option.some.inj h)).2 (by simp)
    · obtain ⟨rfl, hsleep⟩ := Prod.mk.inj (Option.some.inj h)
      rw [Activity.sleep.injEq] at hsleep
      rw [← hsleep]
      exact ⟨hprocess, not_not.mp hready⟩
  · exact absurd (Prod.mk.inj (Option.some.inj h)).2 (by simp)

/-! ### Reachable states -/

/-- What the engine comes to: threads are put into their lists, suspended, resumed and released,
    `WaitForActivity` is called, and all that is not a list or a flag changes in between. -/
inductive Reachable (destroyInstance : DestroyInstance n) : Engine n → Prop where
  | initial {s : Engine n} (hready : s.threadsReady = []) (hwaiting : s.threadsWaiting = []) :
      Reachable destroyInstance s
  | change {s s' : Engine n} (h : Reachable destroyInstance s)
      (hready : s'.threadsReady = s.threadsReady) (hwaiting : s'.threadsWaiting = s.threadsWaiting)
      (hsuspended : ∀ q, (s'.threads q).suspended = (s.threads q).suspended) :
      Reachable destroyInstance s'
  | put {s : Engine n} (h : Reachable destroyInstance s) (th : Fin n) :
      Reachable destroyInstance (s.putInProperList th)
  | suspend {s : Engine n} (h : Reachable destroyInstance s) (th : Fin n) :
      Reachable destroyInstance (s.suspend th)
  | resume {s : Engine n} (h : Reachable destroyInstance s) (th : Fin n) :
      Reachable destroyInstance (s.resume th)
  | passivate {s : Engine n} (h : Reachable destroyInstance s) (th : Fin n) :
      Reachable destroyInstance (s.passivate th)
  | activity {s s' : Engine n} {timerThread : TimerThread n} {fuel : Nat} {activity : Activity n}
      (h : Reachable destroyInstance s)
      (hactivity : waitForActivity destroyInstance timerThread fuel s = some (s', activity)) :
      Reachable destroyInstance s'

theorem Engine.Linked.putFlag (h : s.Linked) (th : Fin n) (suspended : Bool) :
    ((s.setThread th { s.threads th with suspended }).putInProperList th).Linked := by
  refine Engine.putInProperList_linked h.nodup fun q hq hne => ?_
  rw [Engine.setThread_other s hne]
  exact h.running q hq

theorem Reachable.linked (hdestroy : Destroys destroyInstance)
    (h : Reachable destroyInstance s) : s.Linked := by
  induction h with
  | initial hready hwaiting =>
    refine ⟨?_, fun q hq => ?_⟩
    · rw [hready, hwaiting]
      exact List.nodup_nil
    · rw [hready] at hq
      exact absurd hq List.not_mem_nil
  | change _ hready hwaiting hsuspended ih =>
    refine ⟨?_, fun q hq => ?_⟩
    · rw [hready, hwaiting]
      exact ih.nodup
    · rw [hready] at hq
      rw [hsuspended]
      exact ih.running q hq
  | put _ th ih => exact Engine.putInProperList_linked ih.nodup fun q hq _ => ih.running q hq
  | suspend _ th ih =>
    rw [Engine.suspend]
    split_ifs
    · exact ih.putFlag th true
    · exact ih
  | resume _ th ih =>
    rw [Engine.resume]
    split_ifs
    · exact ih.putFlag th false
    · exact ih
  | @passivate s _ th ih =>
    refine ⟨(ih.unlink th).nodup, fun q hq => ?_⟩
    have hne : q ≠ th := (mem_filter_ne.mp hq).2
    rw [Engine.passivate, Engine.setThread_other _ hne]
    exact ih.running q (mem_filter_ne.mp hq).1
  | activity _ hactivity ih => exact (waitForActivity_leads hdestroy hactivity).linked ih

/-- **The engine does not oversleep.**  From every reachable state, with the system timer as a
    wakeup event and the debugger neither stopping the engine nor its timers, the timeout with which
    the engine goes to sleep is in time for the timers and for the threads that are not suspended,
    if none of the lock requests that have expired is one of a suspended thread. -/
theorem sleep_in_time (hdestroy : Destroys destroyInstance) (hreachable : Reachable destroyInstance s)
    (hsystem : s.systemTimer = true) (hstopped : ¬ (s.stopped = true ∧ s.threadsWaiting = []))
    (hpause : s.pauseTimers = false)
    (hun : ∀ q ∈ s.threadsReady ++ s.threadsWaiting, (s.threads q).suspended = false →
      s.Unsuspended q)
    {timerThread : TimerThread n} {fuel : Nat} {timeout : Int}
    (h : waitForActivity destroyInstance timerThread fuel s = some (s', .sleep timeout)) :
    SleepsInTime s s' timeout := by
  obtain ⟨hprocess, hready⟩ := waitForActivity_sleep h
  exact processTimer_spec hdestroy (hreachable.linked hdestroy) hsystem hstopped hpause hun hprocess
    hready

def waitsUntil (time : Int) : Thread n where
  status := .waiting
  suspended := false
  executionCounter := 0
  waitForEvents := 0
  waitForEvents_Timeout := time
  waitForEvents_IdleTimeWorkItem := 0
  waitForObject := none
  waitForObject_Result := .init
  locks := []
  lockRequestsCount := 0
  subThreads := []

def atHundred (threads : Fin n → Thread n) : Engine n where
  threads := threads
  threadsReady := []
  threadsWaiting := []
  timers := []
  currentMachineTime := 100
  currentLocalTime := 100
  maximumTimeToActive := 1000
  timerCache := false
  timerCacheNextTimeout := 0
  compensation := 0
  systemTimer := true
  stopped := false
  pauseTimers := false

def destroysNothing : DestroyInstance n := fun s _ _ => s

def expiresAt (time : Int) : Timer where
  id := 0
  enabled := true
  absolute := false
  executing := false
  triggered := false
  referenced := true
  timeExpire := time

/-- Thread 0 has a constraint and a lock, for which thread 1 waits until 110; thread 2 is suspended. -/
def constrained (th : Fin 3) : Thread 3 :=
  { (waitsUntil (if th = 0 then 150 else if th = 1 then TIMEOUT_INFINITE else 90) : Thread 3) with
    suspended := th = 2
    locks := if th = 0 then [⟨[⟨1, 0, 110⟩]⟩] else []
    lockRequestsCount := if th = 1 then 1 else 0
    subThreads := if th = 0 then [⟨0, 140, false⟩] else [⟨1, TIMEOUT_INFINITE, false⟩] }

def withTimer : Engine 3 :=
  ((({ atHundred constrained with timers := [expiresAt 130] }).putInProperList 0).putInProperList
    1).putInProperList 2

/-- Of a timer, a constraint and two waits the nearest deadline is that of a lock request. -/
theorem sleep_in_time_ten : ∃ s',
    waitForActivity destroysNothing ⟨none, false⟩ 4 withTimer = some (s', .sleep 10) ∧
    SleepsInTime withTimer s' 10 := by
  obtain ⟨s', hsleep⟩ : ∃ s',
      waitForActivity destroysNothing ⟨none, false⟩ 4 withTimer = some (s', .sleep 10) := ⟨_, rfl⟩
  have hreachable : Reachable destroysNothing { atHundred constrained with
      timers := [expiresAt 130] } := Reachable.initial rfl rfl
  refine ⟨s', hsleep, sleep_in_time (fun s _ _ => Engine.Leads.refl s)
    (((hreachable.put 0).put 1).put 2) rfl (fun h => absurd h.1 Bool.false_ne_true) rfl ?_ hsleep⟩
  simp only [Engine.Unsuspended, ProcessTimer.Unsuspended]
  decide

def suspendedOwner (th : Fin 2) : Thread 2 :=
  { (waitsUntil TIMEOUT_INFINITE : Thread 2) with
    suspended := th = 0
    locks := if th = 0 then [⟨[⟨1, 0, 110⟩]⟩] else []
    lockRequestsCount := if th = 1 then 1 else 0 }

/-- The request of thread 1, which is suspended, has expired; thread 2 waits until 110. -/
def suspendedRequest (th : Fin 3) : Thread 3 :=
  { (waitsUntil (if th = 2 then 110 else TIMEOUT_INFINITE) : Thread 3) with
    suspended := th = 1
    locks := if th = 0 then [⟨[⟨1, 0, 90⟩]⟩] else []
    lockRequestsCount := if th = 1 then 1 else 0 }

/-- Engines that sleep for longer than what is left to a deadline: the system timer is not a wakeup
    event; the debugger has stopped the engine, or its timers; a lock is owned by a suspended
    thread; a lock request of a suspended thread has expired. -/
theorem sleeps_too_long :
    (waitForActivity destroysNothing ⟨none, false⟩ 4
      { (atHundred fun _ : Fin 1 => waitsUntil 110).putInProperList 0 with
        systemTimer := false }).map Prod.snd = some (.sleep 1000) ∧
    (waitForActivity destroysNothing ⟨none, false⟩ 4
      { atHundred (fun _ : Fin 1 => waitsUntil 110) with
        stopped := true, timers := [expiresAt 110] }).map Prod.snd = some (.sleep 1000) ∧
    (waitForActivity destroysNothing ⟨none, false⟩ 4
      { atHundred (fun _ : Fin 1 => waitsUntil 110) with
        pauseTimers := true, timers := [expiresAt 90] }).map Prod.snd = some (.sleep 1000) ∧
    (waitForActivity destroysNothing ⟨none, false⟩ 4
      (((atHundred suspendedOwner).putInProperList 0).putInProperList 1)).map Prod.snd =
        some (.sleep 1000) ∧
    (waitForActivity destroysNothing ⟨none, false⟩ 4
      ((((atHundred suspendedRequest).putInProperList 0).putInProperList 1).putInProperList
        2)).map Prod.snd = some (.sleep 1000) := by
  refine ⟨by decide, by decide, by decide, by decide, by decide⟩

end TinyClr.ProcessTimer
