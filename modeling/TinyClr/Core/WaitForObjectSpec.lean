import TinyClr.Core.WaitForObject
import TinyClr.Library.Runs
import Mathlib.Data.Fintype.Card
import Mathlib.Tactic.Common

/-!
# Waits are granted once

The abstract machine has the objects and the waits of the threads.  A signal grants waits that are
satisfied, one after the other, until no pending wait is; what is granted or has timed out is pending
no more, and completes when its thread runs again.

The engine follows it as long as a thread that is suspended is not granted a wait while the object
stays signaled, nor again after it has been granted one: `PutInProperList` links such a thread into
the list that is walked along, with its wait.
-/

namespace TinyClr.WaitForObject

open TinyClr.Library
open TinyClr.ExecutionEngine (Status)

variable {n : Nat} {objects objects' : Objects}

/-! ### What a wait takes -/

def Wait.Satisfied (objects : Objects) (wait : Wait) : Prop :=
  if wait.waitAll then ∀ x ∈ wait.objects, (objects x).signaled
  else ∃ x ∈ wait.objects, (objects x).signaled

/-- A satisfied wait takes all of its auto-reset objects at once, or the first signaled one. -/
inductive Takes (objects : Objects) (wait : Wait) : Objects → WaitResult → Prop where
  | all {objects' : Objects} (hall : wait.waitAll = true)
      (htaken : ∀ x, objects' x =
        if x ∈ wait.objects ∧ (objects x).autoReset then { objects x with signaled := false }
        else objects x) :
      Takes objects wait objects' .handleAll
  | any {i x : Nat} (hany : wait.waitAll = false) (hx : wait.objects[i]? = some x)
      (hsignaled : (objects x).signaled)
      (hfirst : ∀ j < i, ∀ y, wait.objects[j]? = some y → (objects y).signaled = false) :
      Takes objects wait (take objects x) (.handle i)

theorem take_apply (objects : Objects) (x y : Nat) : take objects x y =
    if y = x ∧ (objects y).autoReset then { objects y with signaled := false } else objects y := by
  rw [take]
  rcases eq_or_ne y x with rfl | hne
  · by_cases hauto : (objects y).autoReset <;> simp [hauto]
  · by_cases hauto : (objects x).autoReset <;> simp [hauto, hne]

theorem foldl_take (waitFor : List Nat) (y : Nat) : waitFor.foldl take objects y =
    if y ∈ waitFor ∧ (objects y).autoReset then { objects y with signaled := false }
    else objects y := by
  induction waitFor generalizing objects with
  | nil => simp
  | cons x rest ih =>
    rw [List.foldl_cons, ih, take_apply]
    rcases eq_or_ne y x with rfl | hne
    · by_cases hauto : (objects y).autoReset <;> simp [hauto]
    · simp [hne]

variable {result : WaitResult}

theorem tryAny_some {waitFor : List Nat} {i : Nat}
    (h : tryAny objects waitFor i = some (objects', result)) :
    ∃ k x, waitFor[k]? = some x ∧ (objects x).signaled ∧ objects' = take objects x ∧
      result = .handle (i + k) ∧
      ∀ j < k, ∀ y, waitFor[j]? = some y → (objects y).signaled = false := by
  induction waitFor generalizing i with
  | nil => exact absurd h (by simp [tryAny])
  | cons x rest ih =>
    rw [tryAny] at h
    split_ifs at h with hsignaled
    · obtain ⟨rfl, rfl⟩ := Prod.mk.inj (Option.some.inj h)
      exact ⟨0, x, rfl, hsignaled, rfl, rfl, fun j hj => absurd hj (Nat.not_lt_zero j)⟩
    · obtain ⟨k, y, hy, hsig, hobjects, hresult, hfirst⟩ := ih h
      refine ⟨k + 1, y, hy, hsig, hobjects, ?_, fun j hj z hz => ?_⟩
      · rw [hresult, Nat.add_assoc, Nat.add_comm 1 k]
      · cases j with
        | zero =>
          rw [List.getElem?_cons_zero] at hz
          rw [← Option.some.inj hz]
          exact Bool.eq_false_of_not_eq_true hsignaled
        | succ j => exact hfirst j (Nat.lt_of_succ_lt_succ hj) z hz

theorem tryAny_none {waitFor : List Nat} {i : Nat} (h : tryAny objects waitFor i = none) :
    ∀ x ∈ waitFor, (objects x).signaled = false := by
  induction waitFor generalizing i with
  | nil => exact fun x hx => absurd hx List.not_mem_nil
  | cons x rest ih =>
    rw [tryAny] at h
    split_ifs at h with hsignaled
    · intro y hy
      rcases List.mem_cons.mp hy with rfl | hy
      · exact Bool.eq_false_of_not_eq_true hsignaled
      · exact ih h y hy

variable {wait : Wait}

theorem tryWaitForSignal_some
    (h : tryWaitForSignal objects wait.objects wait.waitAll = some (objects', result)) :
    wait.Satisfied objects ∧ Takes objects wait objects' result := by
  rw [tryWaitForSignal] at h
  rw [Wait.Satisfied]
  split_ifs at h ⊢ with hall hsignaled
  · obtain ⟨rfl, rfl⟩ := Prod.mk.inj (Option.some.inj h)
    exact ⟨List.all_eq_true.mp hsignaled, Takes.all hall (foldl_take wait.objects)⟩
  · obtain ⟨k, x, hx, hsignaled, rfl, rfl, hfirst⟩ := tryAny_some h
    refine ⟨⟨x, List.mem_of_getElem? hx, hsignaled⟩, ?_⟩
    rw [Nat.zero_add]
    exact Takes.any (Bool.eq_false_of_not_eq_true hall) hx hsignaled hfirst

theorem tryWaitForSignal_none
    (h : tryWaitForSignal objects wait.objects wait.waitAll = none) :
    ¬ wait.Satisfied objects := by
  rw [tryWaitForSignal] at h
  rw [Wait.Satisfied]
  split_ifs at h ⊢ with hall hsignaled
  · rwa [List.all_eq_true] at hsignaled
  · rintro ⟨x, hx, hsignaled⟩
    rw [tryAny_none h x hx] at hsignaled
    exact Bool.noConfusion hsignaled

/-- Of two states of the objects one has signaled what the other has. -/
def Below (objects objects' : Objects) : Prop :=
  ∀ x, (objects x).signaled → (objects' x).signaled

theorem Wait.Satisfied.mono (h : wait.Satisfied objects)
    (hbelow : Below objects objects') : wait.Satisfied objects' := by
  rw [Wait.Satisfied] at h ⊢
  split_ifs at h ⊢ with hall
  · exact fun x hx => hbelow x (h x hx)
  · obtain ⟨x, hx, hsignaled⟩ := h
    exact ⟨x, hx, hbelow x hsignaled⟩

theorem Takes.apply (h : Takes objects wait objects' result)
    (x : Nat) : objects' x = objects x ∨
      ((objects x).autoReset ∧ objects' x = { objects x with signaled := false }) := by
  cases h with
  | all hall htaken =>
    rw [htaken x]
    split_ifs with hx
    · exact Or.inr ⟨hx.2, rfl⟩
    · exact Or.inl rfl
  | any hany hx hsignaled hfirst =>
    rw [take_apply]
    split_ifs with hx'
    · exact Or.inr ⟨hx'.2, rfl⟩
    · exact Or.inl rfl

theorem Takes.below (h : Takes objects wait objects' result) :
    Below objects' objects := by
  intro x hsignaled
  rcases h.apply x with heq | ⟨_, heq⟩
  · rwa [heq] at hsignaled
  · rw [heq] at hsignaled
    exact Bool.noConfusion hsignaled

theorem Takes.takes_signal {x : Nat}
    (h : Takes (setSignaled objects x true) wait objects' result)
    (hsatisfied : wait.Satisfied (setSignaled objects x true))
    (hbefore : ¬ wait.Satisfied objects) (hauto : (objects x).autoReset) :
    (objects' x).signaled = false := by
  have hset : setSignaled objects x true x = { objects x with signaled := true } :=
    Function.update_self ..
  have hother : ∀ y ≠ x, setSignaled objects x true y = objects y :=
    fun y hne => Function.update_of_ne hne ..
  cases h with
  | all hall htaken =>
    have hmem : x ∈ wait.objects := by
      by_contra hmem
      refine hbefore ?_
      rw [Wait.Satisfied, if_pos hall] at hsatisfied ⊢
      intro y hy
      have hy' := hsatisfied y hy
      rwa [hother y fun heq => hmem (heq ▸ hy)] at hy'
    rw [htaken x, if_pos ⟨hmem, by rw [hset]; exact hauto⟩]
  | @any i y hany hy hsignaled hfirst =>
    rcases eq_or_ne y x with rfl | hne
    · rw [take_apply, if_pos ⟨rfl, by rw [hset]; exact hauto⟩]
    · refine absurd ?_ hbefore
      rw [Wait.Satisfied, if_neg (by simp [hany])]
      rw [hother y hne] at hsignaled
      exact ⟨y, List.mem_of_getElem? hy, hsignaled⟩

/-! ### The abstract machine -/

/-- The objects, the pending waits, the results of those that are to complete, and the suspended
    threads -/
structure Waits (n : Nat) where
  objects : Objects
  pending : Fin n → Option Wait
  granted : Fin n → Option WaitResult
  suspended : Fin n → Bool

def Waits.release (t : Waits n) (th : Fin n) (result : WaitResult) : Waits n :=
  { t with
    pending := Function.update t.pending th none
    granted := Function.update t.granted th (some result) }

def Waits.Unblocked (t : Waits n) : Prop :=
  ∀ th wait, t.pending th = some wait → ¬ wait.Satisfied t.objects

inductive Grants : Waits n → Results n → Waits n → Prop where
  | nil (t : Waits n) : Grants t [] t
  | snoc {t t' : Waits n} {results : Results n} {th : Fin n} {wait : Wait} {objects : Objects}
      {result : WaitResult} (hgrants : Grants t results t') (hpending : t'.pending th = some wait)
      (hsatisfied : wait.Satisfied t'.objects) (htakes : Takes t'.objects wait objects result) :
      Grants t (results ++ [(th, result)])
        ({ t' with objects }.release th result)

inductive Follows : Waits n → Op n → Waits n → Answer n → Prop where
  | completes {t : Waits n} {caller : Fin n} {timeExpire : Int} {objects : List (Option Nat)}
      {waitAll allocated restarts : Bool} {result : WaitResult}
      (hgranted : t.granted caller = some result) :
      Follows t (.waitForSignal caller timeExpire objects waitAll allocated restarts)
        { t with granted := Function.update t.granted caller none } (.returned (.ok result))
  | satisfied {t : Waits n} {caller : Fin n} {timeExpire : Int} {waitFor : List Nat}
      {waitAll allocated restarts : Bool} {objects : Objects} {result : WaitResult}
      (hnew : t.granted caller = none)
      (hsatisfied : Wait.Satisfied t.objects { timeExpire, objects := waitFor, waitAll })
      (htakes : Takes t.objects { timeExpire, objects := waitFor, waitAll } objects result) :
      Follows t (.waitForSignal caller timeExpire (waitFor.map some) waitAll allocated restarts)
        { t with objects } (.returned (.ok result))
  | waits {t : Waits n} {caller : Fin n} {timeExpire : Int} {waitFor : List Nat}
      {waitAll restarts : Bool} (hnew : t.granted caller = none)
      (hblocked : ¬ Wait.Satisfied t.objects { timeExpire, objects := waitFor, waitAll }) :
      Follows t (.waitForSignal caller timeExpire (waitFor.map some) waitAll true restarts)
        { t with
          pending := Function.update t.pending caller
            (some { timeExpire, objects := waitFor, waitAll }) }
        (.returned .threadWaiting)
  | failed {t : Waits n} {caller : Fin n} {timeExpire : Int} {objects : List (Option Nat)}
      {waitAll allocated restarts : Bool} {code : Failure} (hnew : t.granted caller = none)
      (h : (objects.length > 64 ∧ code = .invalidParameter) ∨
        (none ∈ objects ∧ code = .nullReference) ∨ (allocated = false ∧ code = .outOfMemory)) :
      Follows t (.waitForSignal caller timeExpire objects waitAll allocated restarts) t
        (.returned (.failed code))
  | signalObject {t t' : Waits n} {x : Nat} {results : Results n}
      (hgrants : Grants { t with objects := setSignaled t.objects x true } results t')
      (hunblocked : t'.Unblocked) (honce : (t.objects x).autoReset → results.length ≤ 1) :
      Follows t (.signalObject x) t' (.results results)
  | reset {t : Waits n} {x : Nat} :
      Follows t (.reset x) { t with objects := setSignaled t.objects x false } .unit
  | checkThreads {t : Waits n} {machineTime : Int} {results : Results n}
      {pending : Fin n → Option Wait} {granted : Fin n → Option WaitResult}
      (hnodup : results.Nodup)
      (hresults : ∀ th result, (th, result) ∈ results ↔ result = .timeout ∧
        t.suspended th = false ∧ ∃ wait, t.pending th = some wait ∧ wait.timeExpire ≤ machineTime)
      (hpending : ∀ th, pending th = if (th, .timeout) ∈ results then none else t.pending th)
      (hgranted : ∀ th, granted th =
        if (th, .timeout) ∈ results then some .timeout else t.granted th) :
      Follows t (.checkThreads machineTime) { t with pending, granted } (.results results)
  | suspend {t : Waits n} {th : Fin n} :
      Follows t (.suspend th) { t with suspended := Function.update t.suspended th true } .unit
  | resume {t : Waits n} {th : Fin n} :
      Follows t (.resume th) { t with suspended := Function.update t.suspended th false } .unit

/-! ### The tie -/

def Thread.pending (thread : Thread) : Option Wait :=
  if thread.status = .waiting then thread.waitForObject else none

def Thread.granted (thread : Thread) : Option WaitResult :=
  if thread.status = .ready ∧ thread.customState ≠ 0 then some thread.waitForObject_Result else none

structure Engine.Has (s : Engine n) (t : Waits n) : Prop where
  objects : t.objects = s.objects
  pending : ∀ th, t.pending th = (s.threads th).pending
  granted : ∀ th, t.granted th = (s.threads th).granted
  suspended : ∀ th, t.suspended th = (s.threads th).suspended
  nodup : s.threadsWaiting.Nodup
  linked : ∀ th, th ∈ s.threadsWaiting ↔
    (s.threads th).status = .waiting ∨ (s.threads th).suspended = true
  status : ∀ th, (s.threads th).status = .ready ∨ (s.threads th).status = .waiting
  registered : ∀ th, (s.threads th).waitForObject.isSome → th ∈ s.threadsWaiting
  waiting : ∀ th, (s.threads th).status = .waiting → (s.threads th).customState ≠ 0

theorem Engine.Has.length_le {s : Engine n} {t : Waits n} (h : s.Has t) :
    s.threadsWaiting.length ≤ n := by
  have hle := h.nodup.length_le_card
  rwa [Fintype.card_fin] at hle

theorem Engine.Has.waits {s : Engine n} {t : Waits n} (h : s.Has t) {th : Fin n}
    (hpending : t.pending th = some wait) :
    (s.threads th).status = .waiting ∧ (s.threads th).waitForObject = some wait := by
  rw [h.pending, Thread.pending] at hpending
  split_ifs at hpending with hstatus
  exact ⟨hstatus, hpending⟩

theorem Engine.Has.mem_of_pending {s : Engine n} {t : Waits n} (h : s.Has t) {th : Fin n}
    (hpending : t.pending th = some wait) : th ∈ s.threadsWaiting :=
  (h.linked th).mpr (Or.inl (h.waits hpending).1)

theorem Engine.Has.update {s : Engine n} {t : Waits n} (h : s.Has t) (th : Fin n) (thread : Thread)
    (objects : Objects) (list : List (Fin n)) (hnodup : list.Nodup)
    (hother : ∀ q ≠ th, q ∈ list ↔ q ∈ s.threadsWaiting)
    (hself : th ∈ list ↔ thread.status = .waiting ∨ thread.suspended = true)
    (hstatus : thread.status = .ready ∨ thread.status = .waiting)
    (hregistered : thread.waitForObject.isSome → th ∈ list)
    (hwaiting : thread.status = .waiting → thread.customState ≠ 0) :
    Engine.Has ⟨objects, Function.update s.threads th thread, list⟩
      ⟨objects, Function.update t.pending th thread.pending,
        Function.update t.granted th thread.granted,
        Function.update t.suspended th thread.suspended⟩ := by
  have hthreads : ∀ q ≠ th, Function.update s.threads th thread q = s.threads q :=
    fun q hne => Function.update_of_ne hne ..
  have hthread : Function.update s.threads th thread th = thread := Function.update_self ..
  -- what is said of every thread is said of this one and of the others
  have hevery : ∀ P : Fin n → Thread → Prop, P th thread → (∀ q ≠ th, P q (s.threads q)) →
      ∀ q, P q (Function.update s.threads th thread q) := by
    intro P hP hothers q
    rcases eq_or_ne q th with rfl | hne
    · rw [hthread]
      exact hP
    · rw [hthreads q hne]
      exact hothers q hne
  constructor
  · rfl
  · refine hevery (fun q c => _ = c.pending) (Function.update_self ..) fun q hne => ?_
    exact (Function.update_of_ne hne ..).trans (h.pending q)
  · refine hevery (fun q c => _ = c.granted) (Function.update_self ..) fun q hne => ?_
    exact (Function.update_of_ne hne ..).trans (h.granted q)
  · refine hevery (fun q c => _ = c.suspended) (Function.update_self ..) fun q hne => ?_
    exact (Function.update_of_ne hne ..).trans (h.suspended q)
  · exact hnodup
  · exact hevery (fun q c => q ∈ list ↔ c.status = .waiting ∨ c.suspended = true) hself
      fun q hne => (hother q hne).trans (h.linked q)
  · exact hevery (fun _ c => c.status = .ready ∨ c.status = .waiting) hstatus fun q _ => h.status q
  · exact hevery (fun q c => c.waitForObject.isSome → q ∈ list) hregistered
      fun q hne hsome => (hother q hne).mpr (h.registered q hsome)
  · exact hevery (fun _ c => c.status = .waiting → c.customState ≠ 0) hwaiting
      fun q _ => h.waiting q

theorem filter_other {list : List (Fin n)} {th : Fin n} (q : Fin n) (hne : q ≠ th) :
    q ∈ list.filter (· ≠ th) ↔ q ∈ list := by
  rw [mem_filter_ne]
  exact and_iff_left hne

theorem linkAtBack_other {list : List (Fin n)} {th : Fin n} (q : Fin n) (hne : q ≠ th) :
    q ∈ linkAtBack list th ↔ q ∈ list := by
  rw [mem_linkAtBack]
  exact or_iff_left hne

theorem Engine.putInProperList_ready {s : Engine n} {th : Fin n}
    (hstatus : (s.threads th).status = .ready) (hsuspended : (s.threads th).suspended = false) :
    s.putInProperList th = ⟨s.objects,
      Function.update s.threads th { s.threads th with waitForObject := none },
      s.threadsWaiting.filter (· ≠ th)⟩ := by
  rw [Engine.putInProperList, hstatus, hsuspended]
  rfl

theorem Engine.putInProperList_waiting {s : Engine n} {th : Fin n}
    (h : (s.threads th).status = .waiting ∨
      ((s.threads th).status = .ready ∧ (s.threads th).suspended = true)) :
    s.putInProperList th = { s with threadsWaiting := linkAtBack s.threadsWaiting th } := by
  rcases h with hstatus | ⟨hstatus, hsuspended⟩
  · rw [Engine.putInProperList, hstatus]
  · rw [Engine.putInProperList, hstatus, hsuspended]

/-- A wait has been granted or has timed out: the thread is restarted. -/
def Engine.release (s : Engine n) (th : Fin n) (objects : Objects) (result : WaitResult) :
    Engine n :=
  ({ s with objects }.setThread th { s.threads th with waitForObject_Result := result }).restart th

theorem Engine.release_eq (s : Engine n) (th : Fin n) (objects : Objects) (result : WaitResult) :
    s.release th objects result = if (s.threads th).suspended then
      ⟨objects, Function.update s.threads th { s.threads th with
        status := .ready, waitForObject_Result := result }, linkAtBack s.threadsWaiting th⟩
    else
      ⟨objects, Function.update s.threads th { s.threads th with
        status := .ready, waitForObject := none, waitForObject_Result := result },
        s.threadsWaiting.filter (· ≠ th)⟩ := by
  rw [Engine.release, Engine.restart]
  split_ifs with hsuspended
  · rw [Engine.putInProperList_waiting (Or.inr (by simp [Engine.setThread, hsuspended]))]
    simp [Engine.setThread]
  · rw [Engine.putInProperList_ready (by simp [Engine.setThread])
      (by simpa [Engine.setThread] using hsuspended)]
    simp [Engine.setThread]

theorem Engine.release_objects (s : Engine n) (th : Fin n) (objects : Objects)
    (result : WaitResult) : (s.release th objects result).objects = objects := by
  rw [s.release_eq]
  split_ifs <;> rfl

theorem Engine.release_threads (s : Engine n) {th q : Fin n} (hne : q ≠ th) (objects : Objects)
    (result : WaitResult) : (s.release th objects result).threads q = s.threads q := by
  rw [s.release_eq]
  split_ifs <;> exact Function.update_of_ne hne ..

theorem Engine.Has.release {s : Engine n} {t : Waits n} (h : s.Has t) {th : Fin n}
    (hstatus : (s.threads th).status = .waiting) (objects : Objects) (result : WaitResult) :
    (s.release th objects result).Has ({ t with objects }.release th result) := by
  have hsame : Function.update t.suspended th (s.threads th).suspended = t.suspended := by
    rw [← h.suspended th, Function.update_eq_self]
  have hcustom := h.waiting th hstatus
  rw [s.release_eq]
  split_ifs with hsuspended
  · have hhas := h.update th { s.threads th with
      status := .ready, waitForObject_Result := result } objects
      (linkAtBack s.threadsWaiting th) (nodup_linkAtBack h.nodup th)
      (fun q hne => linkAtBack_other q hne) (by simp [hsuspended, mem_linkAtBack]) (Or.inl rfl)
      (fun _ => by simp [mem_linkAtBack]) (fun _ => hcustom)
    rw [Thread.granted, if_pos ⟨rfl, hcustom⟩] at hhas
    dsimp only at hhas
    rwa [hsame] at hhas
  · have hhas := h.update th { s.threads th with
      status := .ready, waitForObject := none, waitForObject_Result := result } objects
      (s.threadsWaiting.filter (· ≠ th)) (h.nodup.filter _)
      (fun q hne => filter_other q hne) (by simp [hsuspended]) (Or.inl rfl)
      (fun hsome => by simp at hsome) (fun _ => hcustom)
    rw [Thread.granted, if_pos ⟨rfl, hcustom⟩] at hhas
    dsimp only at hhas
    rwa [hsame] at hhas

/-! ### Walks -/

/-- A walk has these threads still to come. -/
def Engine.Comes (s : Engine n) (rest : List (Fin n)) : Prop :=
  s.threadsWaiting.Nodup ∧ ∃ front, s.threadsWaiting = front ++ rest

section Comes

variable {s : Engine n} {th : Fin n} {rest : List (Fin n)}

theorem Engine.Comes.not_mem (h : s.Comes (th :: rest)) : th ∉ rest := by
  obtain ⟨hnodup, front, hlist⟩ := h
  rw [hlist, List.nodup_middle, List.nodup_cons, List.mem_append, not_or] at hnodup
  exact hnodup.1.2

theorem Engine.Comes.next (h : s.Comes (th :: rest)) :
    following s.threadsWaiting th = rest.head? := by
  obtain ⟨hnodup, front, hlist⟩ := h
  rw [hlist, List.nodup_middle, List.nodup_cons, List.mem_append, not_or] at hnodup
  rw [hlist]
  exact following_append hnodup.1.1

theorem Engine.Comes.mem (h : s.Comes (th :: rest)) : th ∈ s.threadsWaiting := by
  obtain ⟨_, front, hlist⟩ := h
  rw [hlist]
  simp

theorem Engine.Comes.leave (h : s.Comes (th :: rest)) : s.Comes rest := by
  obtain ⟨hnodup, front, hlist⟩ := h
  exact ⟨hnodup, front ++ [th], by rw [hlist, List.append_assoc]; rfl⟩

theorem Engine.Comes.release (h : s.Comes (th :: rest)) (hrunning : (s.threads th).suspended = false)
    (objects : Objects) (result : WaitResult) : (s.release th objects result).Comes rest := by
  obtain ⟨hnodup, front, hlist⟩ := h
  rw [s.release_eq, hrunning, if_neg Bool.false_ne_true]
  refine ⟨hnodup.filter _, front, ?_⟩
  dsimp only
  rw [hlist, filter_ne_append (by rwa [← hlist])]

end Comes

/-! ### `SignalObject` -/

/-- Along the list, `TryWaitForSignal` does not find the wait of a suspended thread satisfied, unless
    it is pending and takes the signal. -/
def Undisturbed (threads : Fin n → Thread) (x : Nat) : Objects → List (Fin n) → Prop
  | _, [] => True
  | objects, th :: rest =>
      match (threads th).waitForObject with
      | none => Undisturbed threads x objects rest
      | some wait =>
          match tryWaitForSignal objects wait.objects wait.waitAll with
          | none => Undisturbed threads x objects rest
          | some (objects', _) =>
              ((threads th).suspended = true →
                (threads th).status = .waiting ∧ (objects' x).signaled = false) ∧
              ((objects' x).signaled = true → Undisturbed threads x objects' rest)

instance Undisturbed.decidable (threads : Fin n → Thread) (x : Nat) :
    ∀ (objects : Objects) (rest : List (Fin n)), Decidable (Undisturbed threads x objects rest)
  | _, [] => isTrue trivial
  | objects, th :: rest =>
      match hwait : (threads th).waitForObject with
      | none =>
          have := Undisturbed.decidable threads x objects rest
          decidable_of_iff (Undisturbed threads x objects rest) (by rw [Undisturbed, hwait])
      | some wait =>
          match htry : tryWaitForSignal objects wait.objects wait.waitAll with
          | none =>
              have := Undisturbed.decidable threads x objects rest
              decidable_of_iff (Undisturbed threads x objects rest) (by
                rw [Undisturbed, hwait]
                dsimp only
                rw [htry])
          | some (objects', _) =>
              have := Undisturbed.decidable threads x objects' rest
              decidable_of_iff (((threads th).suspended = true →
                  (threads th).status = .waiting ∧ (objects' x).signaled = false) ∧
                ((objects' x).signaled = true → Undisturbed threads x objects' rest)) (by
                rw [Undisturbed, hwait]
                dsimp only
                rw [htry])

theorem Undisturbed.congr {threads threads' : Fin n → Thread} {x : Nat} {rest : List (Fin n)}
    (h : Undisturbed threads x objects rest) (heq : ∀ th ∈ rest, threads' th = threads th) :
    Undisturbed threads' x objects rest := by
  induction rest generalizing objects with
  | nil => trivial
  | cons th rest ih =>
    have hrest : ∀ q ∈ rest, threads' q = threads q :=
      fun q hq => heq q (List.mem_cons_of_mem _ hq)
    rw [Undisturbed] at h ⊢
    rw [heq th List.mem_cons_self]
    rcases hwait : (threads th).waitForObject with _ | wait
    · rw [hwait] at h
      exact ih h hrest
    · rw [hwait] at h
      dsimp only at h ⊢
      rcases htry : tryWaitForSignal objects wait.objects wait.waitAll with _ | ⟨objects', result⟩
      · rw [htry] at h
        exact ih h hrest
      · rw [htry] at h
        exact ⟨h.1, fun hsignaled => ih (h.2 hsignaled) hrest⟩

theorem tryThread_cases {s : Engine n} {t : Waits n} (h : s.Has t) (th : Fin n) :
    (s.tryThread th = (s, []) ∧ (∀ wait, t.pending th = some wait → ¬ wait.Satisfied t.objects) ∧
      ∀ x rest, Undisturbed s.threads x s.objects (th :: rest) →
        Undisturbed s.threads x s.objects rest) ∨
    ∃ wait objects result, (s.threads th).waitForObject = some wait ∧
      wait.Satisfied t.objects ∧ Takes t.objects wait objects result ∧
      s.tryThread th = (s.release th objects result, [(th, result)]) ∧
      ∀ x rest, Undisturbed s.threads x s.objects (th :: rest) →
        ((s.threads th).suspended = true →
          (s.threads th).status = .waiting ∧ (objects x).signaled = false) ∧
        ((objects x).signaled = true → Undisturbed s.threads x objects rest) := by
  have hpending : ∀ wait, t.pending th = some wait → (s.threads th).waitForObject = some wait :=
    fun wait hwait => (h.waits hwait).2
  rw [Engine.tryThread, h.objects]
  rcases hwait : (s.threads th).waitForObject with _ | wait
  · refine Or.inl ⟨rfl, fun wait hpend => ?_, fun x rest hdist => ?_⟩
    · rw [hpending wait hpend] at hwait
      exact absurd hwait (by simp)
    · rwa [Undisturbed, hwait] at hdist
  · dsimp only
    rcases htry : tryWaitForSignal s.objects wait.objects wait.waitAll with _ | ⟨objects, result⟩
    · refine Or.inl ⟨rfl, fun wait' hpend => ?_, fun x rest hdist => ?_⟩
      · rw [hpending wait' hpend] at hwait
        rw [Option.some.inj hwait]
        exact tryWaitForSignal_none htry
      · rw [Undisturbed, hwait] at hdist
        dsimp only at hdist
        rwa [htry] at hdist
    · obtain ⟨hsatisfied, htakes⟩ := tryWaitForSignal_some htry
      refine Or.inr ⟨wait, objects, result, rfl, hsatisfied, htakes, rfl, fun x rest hdist => ?_⟩
      rw [Undisturbed, hwait] at hdist
      dsimp only at hdist
      rwa [htry] at hdist

/-- The walk of `SignalObject`, with the threads still to come -/
structure Signalling (t₀ t : Waits n) (x : Nat) (s : Engine n × Results n) (rest : List (Fin n)) :
    Prop where
  has : s.1.Has t
  grants : Grants { t₀ with objects := setSignaled t₀.objects x true } s.2 t
  comes : s.1.Comes rest
  undisturbed : Undisturbed s.1.threads x s.1.objects rest
  signaled : (t.objects x).signaled
  below : Below t.objects (setSignaled t₀.objects x true)
  pending : ∀ th wait, t.pending th = some wait → t₀.pending th = some wait
  visited : ∀ th wait, t.pending th = some wait → th ∉ rest → ¬ wait.Satisfied t.objects
  untaken : (t₀.objects x).autoReset → s.2 = [] ∧ t.objects = setSignaled t₀.objects x true

/-- What `SignalObject` leaves -/
def Signalled (t₀ : Waits n) (x : Nat) (s : Engine n × Results n) : Prop :=
  ∃ t, s.1.Has t ∧ Grants { t₀ with objects := setSignaled t₀.objects x true } s.2 t ∧
    t.Unblocked ∧ ((t₀.objects x).autoReset → s.2.length ≤ 1)

section Signalling

variable {t₀ t : Waits n} {x : Nat} {s s' : Engine n × Results n} {th : Fin n} {rest : List (Fin n)}

theorem Signalling.leave (h : Signalling t₀ t x s (th :: rest))
    (hblocked : ∀ wait, t.pending th = some wait → ¬ wait.Satisfied t.objects)
    (hundisturbed : Undisturbed s.1.threads x s.1.objects rest) : Signalling t₀ t x s rest := by
  refine ⟨h.has, h.grants, h.comes.leave, hundisturbed, h.signaled, h.below, h.pending,
    fun q wait hpending hq => ?_, h.untaken⟩
  rcases eq_or_ne q th with rfl | hne
  · exact hblocked wait hpending
  · refine h.visited q wait hpending fun hmem => ?_
    rcases List.mem_cons.mp hmem with heq | hmem
    · exact hne heq
    · exact hq hmem

theorem Signalling.grant (h : Signalling t₀ t x s (th :: rest)) {objects : Objects}
    (hwait : (s.1.threads th).waitForObject = some wait)
    (hsatisfied : wait.Satisfied t.objects) (htakes : Takes t.objects wait objects result)
    (hsuspended : (s.1.threads th).suspended = true → (s.1.threads th).status = .waiting) :
    t.pending th = some wait ∧
    (s.1.release th objects result).Has ({ t with objects }.release th result) ∧
      Grants { t₀ with objects := setSignaled t₀.objects x true } (s.2 ++ [(th, result)])
        ({ t with objects }.release th result) ∧
      ∀ q wait, ({ t with objects }.release th result).pending q = some wait →
        q ≠ th ∧ t.pending q = some wait := by
  have hstatus : (s.1.threads th).status = .waiting := by
    rcases (h.has.linked th).mp h.comes.mem with hstatus | hsus
    · exact hstatus
    · exact hsuspended hsus
  have hpending : t.pending th = some wait := by
    rw [h.has.pending, Thread.pending, if_pos hstatus, hwait]
  refine ⟨hpending, h.has.release hstatus objects result, h.grants.snoc hpending hsatisfied htakes,
    fun q wait' hq => ?_⟩
  rcases eq_or_ne q th with rfl | hne
  · simp [Waits.release] at hq
  · rw [Waits.release] at hq
    dsimp only at hq
    rw [Function.update_of_ne hne] at hq
    exact ⟨hne, hq⟩

theorem Signalling.goes (h : Signalling t₀ t x s (th :: rest)) (hunblocked : t₀.Unblocked)
    (hbody : signalNext x s th = (s', true)) : ∃ t', Signalling t₀ t' x s' rest := by
  rw [signalNext] at hbody
  rcases tryThread_cases h.has th with ⟨htry, hblocked, hdist⟩ |
    ⟨wait, objects, result, hwait, hsatisfied, htakes, htry, hdist⟩
  · rw [htry] at hbody
    dsimp only at hbody
    rw [List.append_nil] at hbody
    obtain ⟨rfl, _⟩ := Prod.mk.inj hbody
    exact ⟨t, h.leave hblocked (hdist x rest h.undisturbed)⟩
  · rw [htry] at hbody
    dsimp only at hbody
    rw [Engine.release_objects] at hbody
    obtain ⟨rfl, hsignaled⟩ := Prod.mk.inj hbody
    obtain ⟨hsuspended, hrest⟩ := hdist x rest h.undisturbed
    have hrunning : (s.1.threads th).suspended = false := by
      by_contra hsus
      rw [(hsuspended (Bool.eq_true_of_not_eq_false hsus)).2] at hsignaled
      exact Bool.noConfusion hsignaled
    obtain ⟨hpend, hhas, hgrants, hother⟩ := h.grant hwait hsatisfied htakes
      (fun hsus => (hsuspended hsus).1)
    refine ⟨{ t with objects }.release th result, hhas, hgrants,
      h.comes.release hrunning objects result, ?_, hsignaled,
      fun y hy => h.below y (htakes.below y hy), ?_, ?_, ?_⟩
    · dsimp only
      rw [Engine.release_objects]
      refine (hrest hsignaled).congr fun q hq => Engine.release_threads _ ?_ _ _
      rintro rfl
      exact h.comes.not_mem hq
    · exact fun q wait' hq => h.pending q wait' (hother q wait' hq).2
    · intro q wait' hq hmem hsat
      obtain ⟨hne, hq⟩ := hother q wait' hq
      refine h.visited q wait' hq (fun hmem' => ?_) (hsat.mono htakes.below)
      rcases List.mem_cons.mp hmem' with heq | hmem'
      · exact hne heq
      · exact hmem hmem'
    · intro hauto
      have hobjects := (h.untaken hauto).2
      rw [hobjects] at htakes hsatisfied
      have htaken := htakes.takes_signal hsatisfied (hunblocked th wait (h.pending th wait hpend))
        hauto
      rw [hsignaled] at htaken
      exact Bool.noConfusion htaken

theorem Signalling.stops (h : Signalling t₀ t x s (th :: rest)) (hunblocked : t₀.Unblocked)
    (hbody : signalNext x s th = (s', false)) : Signalled t₀ x s' := by
  rw [signalNext] at hbody
  rcases tryThread_cases h.has th with ⟨htry, _, _⟩ |
    ⟨wait, objects, result, hwait, hsatisfied, htakes, htry, hdist⟩
  · rw [htry] at hbody
    dsimp only at hbody
    obtain ⟨_, hsignaled⟩ := Prod.mk.inj hbody
    rw [← h.has.objects, h.signaled] at hsignaled
    exact Bool.noConfusion hsignaled
  · rw [htry] at hbody
    dsimp only at hbody
    rw [Engine.release_objects] at hbody
    obtain ⟨rfl, hsignaled⟩ := Prod.mk.inj hbody
    obtain ⟨hpend, hhas, hgrants, hother⟩ := h.grant hwait hsatisfied htakes
      (fun hsus => ((hdist x rest h.undisturbed).1 hsus).1)
    refine ⟨{ t with objects }.release th result, hhas, hgrants, ?_, fun hauto => ?_⟩
    · intro q wait' hq hsat
      refine hunblocked q wait' (h.pending q wait' (hother q wait' hq).2) (hsat.mono fun y hy => ?_)
      have hset := h.below y (htakes.below y hy)
      rcases eq_or_ne y x with rfl | hne
      · exact Bool.noConfusion (hsignaled.symm.trans hy)
      · rwa [setSignaled, Function.update_of_ne hne] at hset
    · rw [(h.untaken hauto).1]
      exact Nat.le_refl 1

end Signalling

/-- `SignalObject` grants waits until none that is pending is satisfied. -/
theorem signalObject_spec {s : Engine n} {t : Waits n} (h : s.Has t) (hunblocked : t.Unblocked)
    {x : Nat} (hcalm : Undisturbed s.threads x (setSignaled s.objects x true) s.threadsWaiting)
    {fuel : Nat} (hfuel : n ≤ fuel) :
    ∃ s', signalObject fuel s x = some s' ∧ Signalled t x s' := by
  rw [signalObject]
  refine @walk_rule _ _ _ _ (fun s rest => ∃ t', Signalling t t' x s rest) (Signalled t x)
    ?_ ?_ ?_ ?_ s.threadsWaiting _ fuel ⟨{ t with objects := setSignaled t.objects x true }, ?_⟩
    (Nat.le_trans h.length_le hfuel)
  · rintro s th rest ⟨t', hwalk⟩
    exact hwalk.comes.next
  · rintro s th rest s' ⟨t', hwalk⟩ hbody
    exact hwalk.goes hunblocked hbody
  · rintro s th rest s' ⟨t', hwalk⟩ hbody
    exact hwalk.stops hunblocked hbody
  · rintro s ⟨t', hwalk⟩
    refine ⟨t', hwalk.has, hwalk.grants, fun th wait hpending =>
      hwalk.visited th wait hpending List.not_mem_nil, fun hauto => ?_⟩
    rw [(hwalk.untaken hauto).1]
    exact Nat.zero_le 1
  · refine ⟨⟨by rw [h.objects], h.pending, h.granted, h.suspended, h.nodup, h.linked, h.status,
      h.registered, h.waiting⟩, Grants.nil _, ⟨h.nodup, [], rfl⟩, hcalm, by simp [setSignaled], fun y hy => hy,
      fun q wait hq => hq, fun q wait hq hmem => ?_, fun _ => ⟨rfl, rfl⟩⟩
    exact absurd (h.mem_of_pending hq) hmem

/-! ### `CheckThreads` -/

/-- Without `TINYCLR_ENABLE_SOURCELEVELDEBUGGING` no wait of a suspended thread has expired. -/
def Unexpired (debugging : Bool) (machineTime : Int) (s : Engine n) : Prop :=
  debugging = false → ∀ th, (s.threads th).suspended = true →
    ∀ wait, (s.threads th).waitForObject = some wait → machineTime < wait.timeExpire

def Waits.Expires (t : Waits n) (machineTime : Int) (th : Fin n) : Prop :=
  t.suspended th = false ∧ ∃ wait, t.pending th = some wait ∧ wait.timeExpire ≤ machineTime

/-- The walk of `CheckThreads`, with the threads still to come -/
structure Checking (debugging : Bool) (machineTime : Int) (t₀ t : Waits n)
    (s : Engine n × Results n) (rest : List (Fin n)) : Prop where
  has : s.1.Has t
  comes : s.1.Comes rest
  unexpired : Unexpired debugging machineTime s.1
  objects : t.objects = t₀.objects
  suspended : t.suspended = t₀.suspended
  nodup : s.2.Nodup
  results : ∀ th result, (th, result) ∈ s.2 ↔
    result = .timeout ∧ th ∉ rest ∧ t₀.Expires machineTime th
  pending : ∀ th, t.pending th = if (th, .timeout) ∈ s.2 then none else t₀.pending th
  granted : ∀ th, t.granted th = if (th, .timeout) ∈ s.2 then some .timeout else t₀.granted th

section Checking

variable {debugging : Bool} {machineTime : Int} {t₀ t : Waits n} {s s' : Engine n × Results n}
  {th : Fin n} {rest : List (Fin n)}

theorem Checking.not_mem (h : Checking debugging machineTime t₀ t s (th :: rest))
    (result : WaitResult) : (th, result) ∉ s.2 := fun hmem =>
  ((h.results th result).mp hmem).2.1 List.mem_cons_self

theorem Checking.leave (h : Checking debugging machineTime t₀ t s (th :: rest))
    (hleft : ¬ t₀.Expires machineTime th) : Checking debugging machineTime t₀ t s rest := by
  refine ⟨h.has, h.comes.leave, h.unexpired, h.objects, h.suspended, h.nodup,
    fun q result => ?_, h.pending, h.granted⟩
  rw [h.results q result, List.mem_cons, not_or]
  constructor
  · rintro ⟨hresult, ⟨_, hq⟩, hexpires⟩
    exact ⟨hresult, hq, hexpires⟩
  · rintro ⟨hresult, hq, hexpires⟩
    refine ⟨hresult, ⟨?_, hq⟩, hexpires⟩
    rintro rfl
    exact hleft hexpires

theorem Checking.release (h : Checking debugging machineTime t₀ t s (th :: rest))
    (hrunning : (s.1.threads th).suspended = false)
    (hwait : (s.1.threads th).waitForObject = some wait) (hexpired : wait.timeExpire ≤ machineTime) :
    Checking debugging machineTime t₀ (t.release th .timeout)
      (s.1.release th s.1.objects .timeout, s.2 ++ [(th, .timeout)]) rest := by
  have hstatus : (s.1.threads th).status = .waiting := by
    rcases (h.has.linked th).mp h.comes.mem with hstatus | hsuspended
    · exact hstatus
    · rw [hrunning] at hsuspended
      exact Bool.noConfusion hsuspended
  have hexpires : t₀.Expires machineTime th := by
    refine ⟨?_, wait, ?_, hexpired⟩
    · rw [← h.suspended, h.has.suspended]
      exact hrunning
    · have hpending := h.pending th
      rw [if_neg (h.not_mem _), h.has.pending, Thread.pending, if_pos hstatus, hwait] at hpending
      exact hpending.symm
  have hhas := h.has.release hstatus s.1.objects .timeout
  rw [← h.has.objects] at hhas
  refine ⟨?_, h.comes.release hrunning _ _, fun hdebugging q hsuspended wait' hwait' => ?_,
    h.objects, h.suspended, ?_, fun q result => ?_, fun q => ?_, fun q => ?_⟩
  · rw [← h.has.objects]
    exact hhas
  · rcases eq_or_ne q th with rfl | hne
    · rw [s.1.release_eq, hrunning, if_neg Bool.false_ne_true] at hwait'
      simp at hwait'
    · rw [Engine.release_threads _ hne] at hsuspended hwait'
      exact h.unexpired hdebugging q hsuspended wait' hwait'
  · refine List.nodup_append.mpr ⟨h.nodup, List.nodup_singleton _, fun a ha b hb heq => ?_⟩
    rw [List.mem_singleton.mp hb] at heq
    exact h.not_mem _ (heq ▸ ha)
  · rw [List.mem_append, List.mem_singleton, h.results q result, List.mem_cons, not_or]
    constructor
    · rintro (⟨hresult, ⟨_, hq⟩, hq'⟩ | heq)
      · exact ⟨hresult, hq, hq'⟩
      · obtain ⟨rfl, rfl⟩ := Prod.mk.inj heq
        exact ⟨rfl, h.comes.not_mem, hexpires⟩
    · rintro ⟨rfl, hq, hq'⟩
      rcases eq_or_ne q th with rfl | hne
      · exact Or.inr rfl
      · exact Or.inl ⟨rfl, ⟨hne, hq⟩, hq'⟩
  · rw [Waits.release]
    dsimp only
    rcases eq_or_ne q th with rfl | hne
    · rw [Function.update_self, if_pos (List.mem_append_right _ List.mem_cons_self)]
    · rw [Function.update_of_ne hne, h.pending q]
      simp [hne]
  · rw [Waits.release]
    dsimp only
    rcases eq_or_ne q th with rfl | hne
    · rw [Function.update_self, if_pos (List.mem_append_right _ List.mem_cons_self)]
    · rw [Function.update_of_ne hne, h.granted q]
      simp [hne]

theorem Checking.step (h : Checking debugging machineTime t₀ t s (th :: rest)) {stays : Bool}
    (hbody : checkThread debugging machineTime s th = (s', stays)) :
    stays = true ∧ ∃ t', Checking debugging machineTime t₀ t' s' rest := by
  have hpending : ∀ wait, t₀.pending th = some wait → (s.1.threads th).waitForObject = some wait := by
    intro wait hwait
    have hkept := h.pending th
    rw [if_neg (h.not_mem _), hwait] at hkept
    exact (h.has.waits hkept).2
  have hsus : t₀.suspended th = (s.1.threads th).suspended := by
    rw [← h.suspended, h.has.suspended]
  rw [checkThread] at hbody
  split_ifs at hbody with hskipped
  · obtain ⟨rfl, rfl⟩ := Prod.mk.inj hbody
    refine ⟨rfl, t, h.leave ?_⟩
    rintro ⟨hrunning, _⟩
    rw [hsus, hskipped.2] at hrunning
    exact Bool.noConfusion hrunning
  · rcases hwait : (s.1.threads th).waitForObject with _ | wait
    · rw [hwait] at hbody
      obtain ⟨rfl, rfl⟩ := Prod.mk.inj hbody
      refine ⟨rfl, t, h.leave ?_⟩
      rintro ⟨_, wait, hpend, _⟩
      rw [hpending wait hpend] at hwait
      exact Option.noConfusion rfl (heq_of_eq hwait)
    · rw [hwait] at hbody
      dsimp only at hbody
      split_ifs at hbody with hexpired
      · obtain ⟨rfl, rfl⟩ := Prod.mk.inj hbody
        refine ⟨rfl, _, h.release ?_ hwait hexpired⟩
        by_contra hsuspended
        rw [Bool.not_eq_false] at hsuspended
        cases debugging with
        | true => exact hskipped ⟨rfl, hsuspended⟩
        | false =>
          have hlater := h.unexpired rfl th hsuspended wait hwait
          omega
      · obtain ⟨rfl, rfl⟩ := Prod.mk.inj hbody
        refine ⟨rfl, t, h.leave ?_⟩
        rintro ⟨_, wait', hpend, hexpired'⟩
        rw [hpending wait' hpend] at hwait
        rw [Option.some.inj hwait] at hexpired'
        exact hexpired hexpired'

end Checking

/-- `CheckThreads` times out the waits that have expired, of threads that are not suspended. -/
theorem checkThreads_spec {s : Engine n} {t : Waits n} (h : s.Has t) {debugging : Bool}
    {machineTime : Int} (hunexpired : Unexpired debugging machineTime s) {fuel : Nat}
    (hfuel : n ≤ fuel) :
    ∃ s', checkThreads fuel debugging s machineTime = some s' ∧
      ∃ t', Checking debugging machineTime t t' s' [] := by
  rw [checkThreads]
  refine @walk_rule _ _ _ _ (fun s rest => ∃ t', Checking debugging machineTime t t' s rest)
    (fun s => ∃ t', Checking debugging machineTime t t' s []) ?_ ?_ ?_ (fun s hs => hs)
    s.threadsWaiting _ fuel ⟨t, ?_⟩ (Nat.le_trans h.length_le hfuel)
  · rintro s th rest ⟨t', hwalk⟩
    exact hwalk.comes.next
  · rintro s th rest s' ⟨t', hwalk⟩ hbody
    exact (hwalk.step hbody).2
  · rintro s th rest s' ⟨t', hwalk⟩ hbody
    exact absurd (hwalk.step hbody).1 Bool.false_ne_true
  · refine ⟨h, ⟨h.nodup, [], rfl⟩, hunexpired, rfl, rfl, List.nodup_nil, fun q result => ?_,
      fun q => (if_neg List.not_mem_nil).symm, fun q => (if_neg List.not_mem_nil).symm⟩
    refine iff_of_false List.not_mem_nil ?_
    rintro ⟨_, hq, _, wait, hpending, _⟩
    exact hq (h.mem_of_pending hpending)

end TinyClr.WaitForObject
