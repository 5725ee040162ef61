import TinyClr.Core.WaitForObjectSpec
import Mathlib.Algebra.Ring.Nat

/-!
# Runs of waits and signals

Every call follows the waits, and so does a run of calls by any number of threads.
-/

namespace TinyClr.WaitForObject

open TinyClr.Library
open TinyClr.ExecutionEngine (Status)

variable {n : Nat} {objects : Objects}

/-! ### The other calls -/

section Calls

variable {s : Engine n} {t : Waits n}

theorem Waits.Unblocked.mono (h : t.Unblocked) (hbelow : Below objects t.objects) :
    Waits.Unblocked { t with objects } :=
  fun th wait hpending hsatisfied => h th wait hpending (hsatisfied.mono hbelow)

theorem Engine.Has.setObjects (h : s.Has t) (objects : Objects) :
    Engine.Has { s with objects } { t with objects } :=
  ⟨rfl, h.pending, h.granted, h.suspended, h.nodup, h.linked, h.status, h.registered, h.waiting⟩

theorem resetObject_spec (h : s.Has t) (hunblocked : t.Unblocked) (x : Nat) :
    (resetObject s x).Has { t with objects := setSignaled t.objects x false } ∧
      Waits.Unblocked { t with objects := setSignaled t.objects x false } := by
  refine ⟨?_, hunblocked.mono fun y hy => ?_⟩
  · rw [resetObject, ← h.objects]
    exact h.setObjects _
  · rcases eq_or_ne y x with rfl | hne
    · simp [setSignaled] at hy
    · rwa [setSignaled, Function.update_of_ne hne] at hy

theorem update_same {α : Type} {f : Fin n → α} {th : Fin n} {value : α} (h : f th = value) :
    Function.update f th value = f := by
  rw [← h, Function.update_eq_self]

theorem Engine.Has.link (h : s.Has t) (th : Fin n) (thread : Thread)
    (hlinked : thread.status = .waiting ∨ (thread.status = .ready ∧ thread.suspended = true))
    (hwaiting : thread.status = .waiting → thread.customState ≠ 0) :
    ((s.setThread th thread).putInProperList th).Has
      ⟨t.objects, Function.update t.pending th thread.pending,
        Function.update t.granted th thread.granted,
        Function.update t.suspended th thread.suspended⟩ := by
  have hself : (s.setThread th thread).threads th = thread := Function.update_self ..
  rw [Engine.putInProperList_waiting (by rwa [hself])]
  have hhas := h.update th thread s.objects (linkAtBack s.threadsWaiting th)
    (nodup_linkAtBack h.nodup th) (fun q hne => linkAtBack_other q hne)
    (iff_of_true (mem_linkAtBack.mpr (Or.inr rfl)) (hlinked.imp_right And.right))
    (hlinked.symm.imp_left And.left) (fun _ => mem_linkAtBack.mpr (Or.inr rfl)) hwaiting
  rw [h.objects]
  exact hhas

theorem suspend_spec (h : s.Has t) (th : Fin n) :
    (s.suspend th).Has { t with suspended := Function.update t.suspended th true } := by
  rw [Engine.suspend]
  split_ifs with hrunning
  · have hlink := h.link th { s.threads th with suspended := true }
      ((h.status th).symm.imp_right fun hready => ⟨hready, rfl⟩) (h.waiting th)
    have hpending : Function.update t.pending th
        (Thread.pending { s.threads th with suspended := true }) = t.pending :=
      update_same (h.pending th)
    have hgranted : Function.update t.granted th
        (Thread.granted { s.threads th with suspended := true }) = t.granted :=
      update_same (h.granted th)
    dsimp only at hlink
    rwa [hpending, hgranted] at hlink
  · have hsuspended : (s.threads th).suspended = true := by
      by_contra hfalse
      refine hrunning ⟨Bool.eq_false_of_not_eq_true hfalse, ?_⟩
      rcases h.status th with hstatus | hstatus <;> simp [hstatus]
    rw [update_same ((h.suspended th).trans hsuspended)]
    exact h

theorem resume_spec (h : s.Has t) (th : Fin n) :
    (s.resume th).Has { t with suspended := Function.update t.suspended th false } := by
  rw [Engine.resume]
  split_ifs with hsuspended
  · rcases h.status th with hready | hwaiting
    · have hself : (s.setThread th { s.threads th with suspended := false }).threads th =
          { s.threads th with suspended := false } := Function.update_self ..
      rw [Engine.putInProperList_ready (by rw [hself]; exact hready) (by rw [hself]), hself]
      have hhas := h.update th { s.threads th with suspended := false, waitForObject := none }
        s.objects (s.threadsWaiting.filter (· ≠ th)) (h.nodup.filter _)
        (fun q hne => filter_other q hne) (by simp [hready]) (Or.inl hready)
        (fun hsome => by simp at hsome) (h.waiting th)
      have hpending : t.pending th =
          Thread.pending { s.threads th with suspended := false, waitForObject := none } := by
        rw [h.pending]
        simp [Thread.pending, hready]
      have hgranted : Function.update t.granted th (Thread.granted
          { s.threads th with suspended := false, waitForObject := none }) = t.granted :=
        update_same (h.granted th)
      dsimp only at hhas
      rw [update_same hpending, hgranted, ← h.objects] at hhas
      simpa [Engine.setThread, h.objects] using hhas
    · have hlink := h.link th { s.threads th with suspended := false } (Or.inl hwaiting)
        (h.waiting th)
      have hpending : Function.update t.pending th
          (Thread.pending { s.threads th with suspended := false }) = t.pending :=
        update_same (h.pending th)
      have hgranted : Function.update t.granted th
          (Thread.granted { s.threads th with suspended := false }) = t.granted :=
        update_same (h.granted th)
      dsimp only at hlink
      rwa [hpending, hgranted] at hlink
  · have hrunning : (s.threads th).suspended = false := by
      by_contra htrue
      refine hsuspended ⟨Bool.eq_true_of_not_eq_false htrue, ?_⟩
      rcases h.status th with hstatus | hstatus <;> simp [hstatus]
    rw [update_same ((h.suspended th).trans hrunning)]
    exact h

variable {values : List (Option Nat)}

theorem mapM_id_some {waitFor : List Nat}
    (h : values.mapM id = some waitFor) : values = waitFor.map some := by
  induction values generalizing waitFor with
  | nil =>
    rw [List.mapM_nil] at h
    rw [← Option.some.inj h]
    rfl
  | cons value values ih =>
    rw [List.mapM_cons] at h
    obtain ⟨x, hx, h⟩ := Option.bind_eq_some_iff.mp h
    obtain ⟨rest, hrest, h⟩ := Option.bind_eq_some_iff.mp h
    rw [← Option.some.inj h, List.map_cons, ← ih hrest]
    exact congrArg (· :: values) hx

theorem mapM_id_none (h : values.mapM id = none) : none ∈ values := by
  induction values with
  | nil => exact absurd h (by simp)
  | cons value values ih =>
    rcases value with _ | x
    · exact List.mem_cons_self
    · refine List.mem_cons_of_mem _ (ih ?_)
      by_contra hsome
      obtain ⟨rest, hrest⟩ := Option.ne_none_iff_exists'.mp hsome
      rw [List.mapM_cons, hrest] at h
      exact absurd h (by simp)

variable {caller : Fin n}

theorem Engine.Has.leave (h : s.Has t) (hready : (s.threads caller).status = .ready)
    (objects : Objects) (result : WaitResult) :
    Engine.Has ⟨objects, Function.update s.threads caller { s.threads caller with
        waitForObject_Result := result, customState := 0 }, s.threadsWaiting⟩
      { t with objects, granted := Function.update t.granted caller none } := by
  have hhas := h.update caller { s.threads caller with
    waitForObject_Result := result, customState := 0 } objects s.threadsWaiting h.nodup
    (fun q _ => Iff.rfl) (h.linked caller) (h.status caller) (h.registered caller)
    (fun hwaiting => by rw [hready] at hwaiting; exact Status.noConfusion hwaiting)
  have hnone : Thread.granted { s.threads caller with
      waitForObject_Result := result, customState := 0 } = none := by
    rw [Thread.granted]
    simp
  have hpending : Function.update t.pending caller (Thread.pending { s.threads caller with
      waitForObject_Result := result, customState := 0 }) = t.pending :=
    update_same (h.pending caller)
  dsimp only at hhas
  rwa [hpending, hnone, update_same (h.suspended caller)] at hhas

/-- The frame of a call that has failed is popped, and nothing is left of it. -/
theorem Engine.setCustomState_restore
    (hcustom : (s.threads caller).customState = 0) :
    (s.setCustomState caller 1).setCustomState caller 0 = s := by
  have hthread : { s.threads caller with customState := 0 } = s.threads caller := by
    rw [← hcustom]
  rw [Engine.setCustomState, Engine.setCustomState, Engine.setThread, Engine.setThread]
  dsimp only
  rw [Function.update_self, Function.update_idem, hthread, Function.update_eq_self]

/-- A call that waits is not repeated on its frame for want of memory. -/
def Unrepeated (s : Engine n) (values : List (Option Nat)) (waitAll allocated restarts : Bool) :
    Prop :=
  allocated = false → restarts = true → values.length ≤ 64 →
    ∀ waitFor, values.mapM id = some waitFor → tryWaitForSignal s.objects waitFor waitAll ≠ none

theorem Thread.granted_waiting {thread : Thread} (h : thread.status = .waiting) :
    thread.granted = none := by
  rw [Thread.granted, h]
  simp

theorem executeWait_new (h : s.Has t) (hunblocked : t.Unblocked)
    (hready : (s.threads caller).status = .ready) (hcustom : (s.threads caller).customState = 0)
    (timeExpire : Int) {waitAll allocated restarts : Bool}
    (hunrepeated : Unrepeated s values waitAll allocated restarts) :
    ∃ s' value t', executeWait s caller timeExpire values waitAll allocated restarts = (s', value) ∧
      Follows t (.waitForSignal caller timeExpire values waitAll allocated restarts) t'
        (.returned value) ∧
      s'.Has t' ∧ t'.Unblocked := by
  have hnew : t.granted caller = none := by
    rw [h.granted, Thread.granted, hcustom]
    simp
  have hrestore := Engine.setCustomState_restore hcustom
  rw [executeWait, waitForSignal, if_pos hcustom]
  by_cases hlength : values.length > 64
  · refine ⟨s, .failed .invalidParameter, t, ?_, .failed hnew (.inl ⟨hlength, rfl⟩), h, hunblocked⟩
    simp [hlength, hrestore]
  · rw [if_neg hlength]
    rcases hobjects : values.mapM id with _ | waitFor
    · refine ⟨s, .failed .nullReference, t, ?_,
        .failed hnew (.inr (.inl ⟨mapM_id_none hobjects, rfl⟩)), h, hunblocked⟩
      simp [hrestore]
    · have hunrepeated := fun ha hr => hunrepeated ha hr (Nat.not_lt.mp hlength) waitFor hobjects
      rw [mapM_id_some hobjects]
      rcases htry : tryWaitForSignal s.objects waitFor waitAll with _ | ⟨objects, result⟩
      · have hblocked : ¬ Wait.Satisfied t.objects { timeExpire, objects := waitFor, waitAll } := by
          rw [h.objects]
          exact tryWaitForSignal_none htry
        have htry' : tryWaitForSignal (s.setCustomState caller 1).objects waitFor waitAll = none :=
          htry
        dsimp only
        rw [htry']
        cases allocated with
        | true =>
          refine ⟨(createInstance (s.setCustomState caller 1) caller
            { timeExpire, objects := waitFor, waitAll }).putInProperList caller, .threadWaiting, _,
            by simp, .waits hnew hblocked, ?_, ?_⟩
          · have hlink := h.link caller { s.threads caller with
              status := .waiting, waitForObject := some { timeExpire, objects := waitFor, waitAll }
              waitForObject_Result := .init, customState := 1 } (Or.inl rfl)
              (fun _ => Nat.one_ne_zero)
            have hgranted : Function.update t.granted caller (Thread.granted
                { s.threads caller with
                  status := .waiting, waitForObject := some { timeExpire, objects := waitFor, waitAll }
                  waitForObject_Result := .init, customState := 1 }) = t.granted :=
              update_same (hnew.trans (Thread.granted_waiting rfl).symm)
            dsimp only at hlink
            rw [update_same (h.suspended caller), hgranted] at hlink
            simpa [createInstance, Engine.setCustomState, Engine.setThread, Thread.pending]
              using hlink
          · intro th wait hpending
            dsimp only at hpending
            rcases eq_or_ne th caller with rfl | hne
            · rw [Function.update_self] at hpending
              rw [← Option.some.inj hpending]
              exact hblocked
            · rw [Function.update_of_ne hne] at hpending
              exact hunblocked th wait hpending
        | false =>
          have honce : restarts = false := by
            by_contra hrestarts
            exact hunrepeated rfl (Bool.eq_true_of_not_eq_false hrestarts) htry
          refine ⟨s, .failed .outOfMemory, t, ?_,
            .failed hnew (.inr (.inr ⟨rfl, rfl⟩)), h, hunblocked⟩
          simp [honce, hrestore]
      · have htry' : tryWaitForSignal (s.setCustomState caller 1).objects waitFor waitAll =
            some (objects, result) := htry
        have htaken : Wait.Satisfied t.objects { timeExpire, objects := waitFor, waitAll } ∧
            Takes t.objects { timeExpire, objects := waitFor, waitAll } objects result := by
          rw [h.objects]
          exact tryWaitForSignal_some htry
        have hleave := h.leave hready objects result
        rw [update_same hnew] at hleave
        refine ⟨_, .ok result, { t with objects }, ?_, .satisfied hnew htaken.1 htaken.2, hleave,
          hunblocked.mono htaken.2.below⟩
        dsimp only
        rw [htry']
        simp [Engine.setCustomState, Engine.setThread]

/-- `WaitForSignal` of a running thread -/
theorem executeWait_spec (h : s.Has t) (hunblocked : t.Unblocked)
    (hready : (s.threads caller).status = .ready) (timeExpire : Int)
    {waitAll allocated restarts : Bool}
    (hunrepeated : (s.threads caller).customState = 0 →
      Unrepeated s values waitAll allocated restarts) :
    ∃ s' value t', executeWait s caller timeExpire values waitAll allocated restarts = (s', value) ∧
      Follows t (.waitForSignal caller timeExpire values waitAll allocated restarts) t'
        (.returned value) ∧
      s'.Has t' ∧ t'.Unblocked := by
  by_cases hcustom : (s.threads caller).customState = 0
  · exact executeWait_new h hunblocked hready hcustom timeExpire (hunrepeated hcustom)
  · -- the thread has been woken up: its method is called again and finds the result
    have hgranted : t.granted caller = some (s.threads caller).waitForObject_Result := by
      rw [h.granted, Thread.granted, if_pos ⟨hready, hcustom⟩]
    refine ⟨_, _, _, ?_, .completes hgranted, h.leave hready t.objects
      (s.threads caller).waitForObject_Result, hunblocked⟩
    rw [executeWait, waitForSignal, if_neg hcustom, h.objects]
    rfl

end Calls

/-! ### Runs -/

/-- The condition under which a call follows the waits; the thread that calls `WaitForSignal`
    runs. -/
def Op.Sound (debugging : Bool) (s : Engine n) : Op n → Prop
  | .waitForSignal caller _ values waitAll allocated restarts =>
      (s.threads caller).status = .ready ∧ (s.threads caller).suspended = false ∧
        ((s.threads caller).customState = 0 → Unrepeated s values waitAll allocated restarts)
  | .signalObject x => Undisturbed s.threads x (setSignaled s.objects x true) s.threadsWaiting
  | .checkThreads machineTime => Unexpired debugging machineTime s
  | .reset _ => True
  | .suspend _ => True
  | .resume _ => True

theorem step_follows {fuel : Nat} (hfuel : n ≤ fuel) (debugging : Bool) (s : Engine n)
    (t : Waits n) (op : Op n) (h : s.Has t ∧ t.Unblocked) (hsound : op.Sound debugging s) :
    ∃ s' answer t', step fuel debugging s op = some (s', answer) ∧ Follows t op t' answer ∧
      s'.Has t' ∧ t'.Unblocked := by
  obtain ⟨h, hunblocked⟩ := h
  cases op with
  | waitForSignal caller timeExpire values waitAll allocated restarts =>
    obtain ⟨hready, _, hunrepeated⟩ := hsound
    obtain ⟨s', value, t', hwait, hfollows, hhas⟩ :=
      executeWait_spec h hunblocked hready timeExpire hunrepeated
    exact ⟨s', .returned value, t', by rw [step, hwait], hfollows, hhas⟩
  | signalObject x =>
    obtain ⟨s', hsignal, t', hhas, hgrants, hunblocked', honce⟩ :=
      signalObject_spec h hunblocked hsound hfuel
    exact ⟨s'.1, .results s'.2, t', by rw [step, hsignal]; rfl,
      Follows.signalObject hgrants hunblocked' honce, hhas, hunblocked'⟩
  | reset x =>
    exact ⟨_, .unit, _, rfl, Follows.reset, resetObject_spec h hunblocked x⟩
  | checkThreads machineTime =>
    obtain ⟨s', hcheck, t', hwalk⟩ := checkThreads_spec h hsound hfuel
    have ht' : t' = { t with pending := t'.pending, granted := t'.granted } := by
      rw [← hwalk.objects, ← hwalk.suspended]
    refine ⟨s'.1, .results s'.2, t', by rw [step, hcheck]; rfl, ?_, hwalk.has, ?_⟩
    · rw [ht']
      refine Follows.checkThreads hwalk.nodup (fun th result => ?_) hwalk.pending hwalk.granted
      rw [hwalk.results th result]
      exact and_congr_right fun _ => and_iff_right List.not_mem_nil
    · intro th wait hpending
      have hkept := hwalk.pending th
      rw [hpending] at hkept
      split_ifs at hkept with hexpired
      rw [hwalk.objects]
      exact hunblocked th wait hkept.symm
  | suspend th =>
    exact ⟨_, .unit, _, rfl, Follows.suspend, suspend_spec h th, hunblocked⟩
  | resume th =>
    exact ⟨_, .unit, _, rfl, Follows.resume, resume_spec h th, hunblocked⟩

def Waits.initial (objects : Objects) : Waits n where
  objects := objects
  pending := fun _ => none
  granted := fun _ => none
  suspended := fun _ => false

theorem initial_has (objects : Objects) :
    (Engine.initial objects : Engine n).Has (Waits.initial objects) :=
  ⟨rfl, fun _ => rfl, fun _ => rfl, fun _ => rfl, List.nodup_nil,
    fun _ => iff_of_false List.not_mem_nil (by simp [Engine.initial]), fun _ => Or.inl rfl,
    fun _ hsome => by simp [Engine.initial] at hsome,
    fun _ hwaiting => by simp [Engine.initial] at hwaiting⟩

/-- **No event is lost or duplicated.**  In a run whose steps meet the condition every call comes to
    an end and follows the waits, and no thread is left blocked by a wait that is satisfied. -/
theorem runs_follow_waits {fuel : Nat} (hfuel : n ≤ fuel) (debugging : Bool) (objects : Objects)
    (ops : List (Op n))
    (h : Meets (step fuel debugging) (fun s op => op.Sound debugging s) (Engine.initial objects)
      ops) :
    ∃ s answers t, run (step fuel debugging) (Engine.initial objects) ops = some (s, answers) ∧
      SpecRuns Follows (Waits.initial objects) ops t answers ∧ s.objects = t.objects ∧
      ∀ th wait, (s.threads th).status = .waiting → (s.threads th).waitForObject = some wait →
        ¬ wait.Satisfied s.objects := by
  obtain ⟨s, answers, t, hrun, hspec, hhas, hunblocked⟩ :=
    @run_refines _ _ _ _ (step fuel debugging) Follows (fun s op => op.Sound debugging s)
      (fun s t => s.Has t ∧ t.Unblocked) (step_follows hfuel debugging) ops
      (Engine.initial objects) (Waits.initial objects)
      ⟨initial_has objects, fun th wait hpending => by simp [Waits.initial] at hpending⟩ h
  refine ⟨s, answers, t, hrun, hspec, hhas.objects.symm, fun th wait hstatus hwait => ?_⟩
  rw [← hhas.objects]
  refine hunblocked th wait ?_
  rw [hhas.pending, Thread.pending, if_pos hstatus, hwait]

def autoResetObjects : Objects := fun _ => { signaled := false, autoReset := true }

theorem twoNeZero : NeZero 2 := ⟨by decide⟩

attribute [local instance] twoNeZero

/-- Two threads wait, one is suspended and granted its wait, the other one times out; both
    complete. -/
def waitsAndSignals : List (Op 2) :=
  [.waitForSignal 0 100 [some 0] false true true,
    .waitForSignal 1 50 [some 0, some 1] true true true, .suspend 0, .signalObject 0,
    .checkThreads 60, .resume 0, .waitForSignal 0 100 [some 0] false true true,
    .waitForSignal 1 50 [some 0, some 1] true true true]

theorem runs_follow_waits_signals : ∃ s answers t,
    run (step 2 true) (Engine.initial autoResetObjects) waitsAndSignals = some (s, answers) ∧
      SpecRuns Follows (Waits.initial autoResetObjects) waitsAndSignals t answers ∧
      s.objects = t.objects ∧
      ∀ th wait, (s.threads th).status = .waiting → (s.threads th).waitForObject = some wait →
        ¬ wait.Satisfied s.objects := by
  have hdebugging : ∀ s : Engine 2, Unexpired true 60 s := fun s hfalse => by simp at hfalse
  have hmemory : ∀ (s : Engine 2) values waitAll, Unrepeated s values waitAll true true :=
    fun _ _ _ hfalse => Bool.noConfusion hfalse
  exact runs_follow_waits (Nat.le_refl 2) true autoResetObjects waitsAndSignals
    (meets_cons _ ⟨rfl, rfl, fun _ => hmemory _ _ _⟩ rfl
      (meets_cons _ ⟨rfl, rfl, fun _ => hmemory _ _ _⟩ rfl (meets_cons _ trivial rfl
        (meets_cons _ (by decide : Undisturbed _ _ _ _) rfl (meets_cons _ (hdebugging _) rfl
          (meets_cons _ trivial rfl (meets_cons _ ⟨rfl, rfl, fun _ => hmemory _ _ _⟩ rfl
            (meets_cons _ ⟨rfl, rfl, fun _ => hmemory _ _ _⟩ rfl trivial))))))))

/-! ### Suspended threads -/

/-- A suspended thread whose wait an object satisfies that stays signaled -/
def Engine.Again (s : Engine n) (x : Nat) (th : Fin n) : Prop :=
  (s.threads th).suspended = true ∧ (s.objects x).signaled = true ∧
    ∃ wait result, (s.threads th).waitForObject = some wait ∧
      tryWaitForSignal s.objects wait.objects wait.waitAll = some (s.objects, result)

theorem walk_again {x : Nat} (fuel : Nat) (s : Engine n) (results : Results n) {a b : Fin n}
    (hne : a ≠ b) (hlist : s.threadsWaiting = [a, b]) (ha : s.Again x a) (hb : s.Again x b) :
    walk nextWaiting (signalNext x) fuel (s, results) (some a) = none := by
  induction fuel generalizing s results a b with
  | zero => rfl
  | succ fuel ih =>
    obtain ⟨hsuspended, hsignaled, wait, result, hwait, htry⟩ := ha
    have hrelease : s.release a s.objects result =
        ⟨s.objects, Function.update s.threads a { s.threads a with
          status := .ready, waitForObject_Result := result }, [b, a]⟩ := by
      rw [s.release_eq, hsuspended, if_pos rfl, hlist, linkAtBack]
      simp [Ne.symm hne]
    have hbody : signalNext x (s, results) a =
        ((s.release a s.objects result, results ++ [(a, result)]), true) := by
      rw [signalNext, Engine.tryThread, hwait]
      dsimp only
      rw [htry]
      dsimp only
      rw [← Engine.release, Engine.release_objects, hsignaled]
    have hnext : nextWaiting (s, results) a = some b := by
      rw [nextWaiting, hlist]
      exact if_pos rfl
    rw [walk, hbody]
    dsimp only
    rw [hnext, hrelease]
    refine ih _ _ (Ne.symm hne) rfl ?_ ?_
    · obtain ⟨hsuspended', _, wait', result', hwait', htry'⟩ := hb
      have hthread : Function.update s.threads a { s.threads a with
          status := .ready, waitForObject_Result := result } b = s.threads b :=
        Function.update_of_ne (Ne.symm hne) ..
      rw [Engine.Again]
      dsimp only
      rw [hthread]
      exact ⟨hsuspended', hsignaled, wait', result', hwait', htry'⟩
    · rw [Engine.Again]
      dsimp only
      rw [Function.update_self]
      exact ⟨hsuspended, hsignaled, wait, result, hwait, htry⟩

/-- Two threads wait for a manual-reset object and are suspended. -/
def waitsSuspended : List (Op 2) :=
  [.waitForSignal 0 100 [some 0] false true false, .waitForSignal 1 100 [some 0] false true false,
    .suspend 0, .suspend 1]

def waiter : Thread where
  status := .waiting
  suspended := true
  waitForObject := some { timeExpire := 100, objects := [0], waitAll := false }
  waitForObject_Result := .init
  customState := 1

def Engine.watched (s : Engine 2) : List (Fin 2) × Thread × Thread × WaitObject :=
  (s.threadsWaiting, s.threads 0, s.threads 1, s.objects 0)

/-- A signal to both of them does not come to an end; a wait that has been granted takes another
    signal, or times out; and a call that is repeated on its frame for want of memory returns the
    result of the wait before. -/
theorem runs_repeat_waits :
    (∀ fuel, run (step fuel true) (Engine.initial fun _ => ⟨false, false⟩)
      (waitsSuspended ++ [.signalObject 0]) = none) ∧
    (run (step 1 true) (Engine.initial autoResetObjects : Engine 1)
      [.waitForSignal 0 100 [some 0] false true false, .suspend 0, .signalObject 0,
        .signalObject 0]).map Prod.snd =
      some [.returned .threadWaiting, .unit, .results [(0, .handle 0)],
        .results [(0, .handle 0)]] ∧
    (run (step 1 false) (Engine.initial autoResetObjects : Engine 1)
      [.waitForSignal 0 100 [some 0] false true false, .suspend 0, .signalObject 0,
        .checkThreads 100]).map Prod.snd =
      some [.returned .threadWaiting, .unit, .results [(0, .handle 0)],
        .results [(0, .timeout)]] ∧
    (run (step 1 true) (Engine.initial autoResetObjects : Engine 1)
      [.signalObject 0, .waitForSignal 0 100 [some 0] false true true,
        .waitForSignal 0 100 [some 0] false false true]).map Prod.snd =
      some [.results [], .returned (.ok (.handle 0)), .returned (.ok (.handle 0))] := by
  refine ⟨fun fuel => ?_, by decide, by decide, by decide⟩
  have hwatched : (run (step fuel true) (Engine.initial fun _ => ⟨false, false⟩)
      waitsSuspended).map (fun s => s.1.watched) = some ([0, 1], waiter, waiter, ⟨false, false⟩) := rfl
  obtain ⟨⟨s, answers⟩, hrun, hs⟩ := Option.map_eq_some_iff.mp hwatched
  simp only [Engine.watched, Prod.mk.injEq] at hs
  obtain ⟨hlist, hzero, hone, hobject⟩ := hs
  have hagain : ∀ th, s.threads th = waiter →
      Engine.Again { s with objects := setSignaled s.objects 0 true } 0 th := by
    intro th hth
    refine ⟨congrArg Thread.suspended hth, by simp [setSignaled], _, .handle 0,
      congrArg Thread.waitForObject hth, ?_⟩
    simp [tryWaitForSignal, tryAny, setSignaled, take, hobject]
  refine run_append_none _ ?_ _ _ _ hrun
  have hhead : s.threadsWaiting.head? = some 0 := by
    rw [hlist]
    rfl
  rw [step, signalObject, hhead, walk_again fuel
    { s with objects := setSignaled s.objects 0 true } [] (by decide) hlist (hagain 0 hzero)
    (hagain 1 hone)]
  rfl

end TinyClr.WaitForObject
