import TinyClr.Pal.CompletionsSpec

/-!
# Runs of the completion queue

A run keeps the promises of the queue exactly as long as its events are sound: what breaks them is
the expiry of a `WaitForInterrupts`, whose interrupt executes the first completion although it is
not due, and a wait whose decision the list has overtaken when it restores the compare value.
-/

namespace TinyClr.Completions

open TinyClr.Library

variable {κ : Type} [DecidableEq κ]

namespace System

variable {s s' : System κ}

/-! ### Interrupts -/

theorem timerInterrupt_eq {ptr : κ} {rest : List κ} (hs : s.Inv) (hlist : s.list = ptr :: rest)
    (hdue : s.ticks ptr ≤ s.currentTicks) : s.timerInterrupt = s.dequeueAndExec := by
  rw [timerInterrupt, if_pos (le_trans (hs.armed ptr (by rw [hlist]; rfl)) hdue)]

theorem Inv.timerInterrupt (hs : s.Inv) (hsound : s.Sound .timerInterrupt) :
    s.timerInterrupt.Inv := by
  by_cases hreached : s.compare ≤ s.currentTicks
  · rw [System.timerInterrupt, if_pos hreached]
    rcases hlist : s.list with _ | ⟨ptr, rest⟩
    · have hsame : s.dequeueAndExec = s := by
        unfold System.dequeueAndExec
        rw [hlist]
      rwa [hsame]
    · exact hs.dequeueAndExec hlist (hsound hreached ptr (by rw [hlist]; rfl))
  · rwa [System.timerInterrupt, if_neg hreached]

theorem run_timerInterrupts : ∀ (list : List κ) (s : System κ), s.Inv → s.list = list →
    (∀ c ∈ list, s.ticks c ≤ s.currentTicks) →
    ∃ s' rs, run step s (List.replicate list.length .timerInterrupt) = some (s', rs) ∧
      s'.list = [] ∧
      s'.history = s.history ++ list.map fun c => .executed c (s.ticks c) s.currentTicks := by
  intro list
  induction list with
  | nil =>
    intro s _ hlist _
    exact ⟨s, [], rfl, hlist, (List.append_nil _).symm⟩
  | cons ptr rest ih =>
    intro s hs hlist hdue
    have hptr := hdue ptr List.mem_cons_self
    obtain ⟨_, _, _, heq⟩ := dequeueAndExec_eq hlist
    have hstep : step s .timerInterrupt = some (s.dequeueAndExec, ()) := by
      rw [step, timerInterrupt_eq hs hlist hptr]
    have hrest : s.dequeueAndExec.list = rest := by rw [heq]
    have hticks : s.dequeueAndExec.ticks = s.ticks := by
      rw [heq]
      rfl
    have hclock : s.dequeueAndExec.currentTicks = s.currentTicks := by rw [heq]
    obtain ⟨s', rs, hrun, hempty, hhistory⟩ :=
      ih s.dequeueAndExec (hs.dequeueAndExec hlist hptr) hrest fun c hc => by
        rw [hticks, hclock]
        exact hdue c (List.mem_cons_of_mem ptr hc)
    refine ⟨s', () :: rs, ?_, hempty, ?_⟩
    · rw [List.length_cons, List.replicate_succ, run_cons step _ hstep, hrun]
      rfl
    · rw [hhistory, hticks, hclock, heq, List.append_assoc]
      rfl

/-- **What the invariant gives.** -/
theorem Inv.correct (hs : s.Inv) : s.Correct := by
  refine ⟨hs.sorted, fun h => hs.settled (by rw [h]; simp), hs.notEarly, hs.settledOnce,
    hs.continued.handedOver, ?_⟩
  intro ticks hdue
  obtain ⟨s', rs, hrun, hempty, hhistory⟩ :=
    run_timerInterrupts s.list _ (hs.clock ticks) rfl hdue
  refine ⟨s', () :: rs, ?_, hempty, hhistory⟩
  rw [run_cons step _ rfl, hrun]
  rfl

end System

/-! ### One event -/

theorem initial_inv (completions : κ → Completion) (currentTicks tailTicks : Nat) :
    (initial completions currentTicks tailTicks).Inv where
  nodup := List.nodup_nil
  sorted := List.Pairwise.nil
  recorded := fun _ hc => absurd hc List.not_mem_nil
  notEarly := fun _ _ _ h => absurd h List.not_mem_nil
  settledOnce := fun _ => rfl
  continued := ⟨List.nodup_nil, fun _ hc => absurd hc List.not_mem_nil, fun _ => rfl⟩
  armed := fun _ h => absurd h (by simp [initial])
  settled := fun _ => rfl

variable {s s' : System κ} {e : Event κ} {r : Unit}

theorem step_inv (hs : s.Inv) (hsound : s.Sound e) (h : step s e = some (s', r)) : s'.Inv := by
  cases e with
  | clock ticks =>
    obtain ⟨rfl, -⟩ := Prod.mk.inj (Option.some.inj h)
    exact hs.clock ticks
  | timerInterrupt =>
    obtain ⟨rfl, -⟩ := Prod.mk.inj (Option.some.inj h)
    exact hs.timerInterrupt hsound
  | enqueueTicks this eventTimeTicks =>
    by_cases hthis : this ∈ s.list
    · rw [step, if_pos hthis] at h
      exact absurd h (by simp)
    · rw [step, if_neg hthis] at h
      obtain ⟨rfl, -⟩ := Prod.mk.inj (Option.some.inj h)
      exact hs.enqueueTicks hthis
  | abort this =>
    obtain ⟨rfl, -⟩ := Prod.mk.inj (Option.some.inj h)
    exact hs.abort this
  | sleepUntil expire =>
    rcases hsleep : s.sleep with _ | state
    · simp only [step, hsleep] at h
      obtain ⟨rfl, -⟩ := Prod.mk.inj (Option.some.inj h)
      exact hs.sleepUntil hsleep expire
    · simp [step, hsleep] at h
  | wake =>
    rcases hsleep : s.sleep with _ | state
    · simp [step, hsleep] at h
    · simp only [step, hsleep] at h
      obtain ⟨rfl, -⟩ := Prod.mk.inj (Option.some.inj h)
      exact hs.wake hsleep hsound
  | dequeueContinuation =>
    obtain ⟨rfl, -⟩ := Prod.mk.inj (Option.some.inj h)
    exact hs.dequeueContinuation

theorem not_correct_of_not_sound (hs : s.Inv) (hunsound : ¬ s.Sound e) :
    ∃ s', step s e = some (s', ()) ∧ ¬ s'.Correct := by
  cases e with
  | timerInterrupt =>
    simp only [System.Sound, not_forall] at hunsound
    obtain ⟨hreached, ptr, hptr, hearly⟩ := hunsound
    refine ⟨_, rfl, fun hcorrect => hearly ?_⟩
    obtain ⟨rest, hlist⟩ : ∃ rest, s.list = ptr :: rest := by
      rcases hlist : s.list with _ | ⟨first, rest⟩
      · rw [hlist] at hptr
        exact absurd hptr (by simp)
      · rw [hlist] at hptr
        exact ⟨rest, by rw [Option.some.inj hptr]⟩
    obtain ⟨_, _, _, heq⟩ := System.dequeueAndExec_eq hlist
    refine hcorrect.notEarly ptr _ _ ?_
    rw [System.timerInterrupt, if_pos hreached, heq]
    exact List.mem_append_right _ List.mem_cons_self
  | wake =>
    rcases hsleep : s.sleep with _ | state
    · exact absurd (by simp [System.Sound, hsleep]) hunsound
    · refine ⟨s.wake state, by rw [step, hsleep], fun hcorrect => hunsound ?_⟩
      refine (System.wake_compare_eq_due_iff hs hsleep).mp ((hcorrect.compare ?_).trans ?_) <;>
      · unfold System.wake
        split <;> rfl
  | clock _ => exact absurd trivial hunsound
  | enqueueTicks _ _ => exact absurd trivial hunsound
  | abort _ => exact absurd trivial hunsound
  | sleepUntil _ => exact absurd trivial hunsound
  | dequeueContinuation => exact absurd trivial hunsound

/-! ### Runs -/

def HoldsThroughout (p : System κ → Prop) (s : System κ) (events : List (Event κ)) : Prop :=
  ∀ front s' rs, front <+: events → run step s front = some (s', rs) → p s'

theorem holdsThroughout_cons {p : System κ → Prop} {events : List (Event κ)} :
    HoldsThroughout p s (e :: events) ↔
      p s ∧ ∀ s' r, step s e = some (s', r) → HoldsThroughout p s' events := by
  constructor
  · refine fun h => ⟨h [] s [] List.nil_prefix rfl, fun s₁ r hstep front s' rs hfront hrun => ?_⟩
    refine h (e :: front) s' (r :: rs) ((List.prefix_cons_inj e).mpr hfront) ?_
    rw [run_cons step front hstep, hrun]
    rfl
  · rintro ⟨hhere, hrest⟩ front s' rs hfront hrun
    cases front with
    | nil =>
      obtain ⟨rfl, -⟩ := Prod.mk.inj (Option.some.inj hrun)
      exact hhere
    | cons e' front =>
      obtain ⟨rfl, hfront'⟩ := List.cons_prefix_cons.mp hfront
      rcases hstep : step s e' with _ | ⟨s₁, r⟩
      · simp [run, hstep] at hrun
      · rw [run_cons step front hstep] at hrun
        obtain ⟨⟨s₂, rs₂⟩, hrun₂, heq⟩ := Option.map_eq_some_iff.mp hrun
        obtain ⟨rfl, -⟩ := Prod.mk.inj heq
        exact hrest s₁ r hstep front s₂ rs₂ hfront' hrun₂

theorem correct_throughout_iff : ∀ (events : List (Event κ)) (s : System κ), s.Inv →
    (HoldsThroughout System.Correct s events ↔ Meets step System.Sound s events) := by
  intro events
  induction events with
  | nil =>
    refine fun s hs => ⟨fun _ => trivial, fun _ front s' rs hfront hrun => ?_⟩
    rw [List.prefix_nil.mp hfront] at hrun
    obtain ⟨rfl, -⟩ := Prod.mk.inj (Option.some.inj hrun)
    exact hs.correct
  | cons e events ih =>
    intro s hs
    rw [holdsThroughout_cons]
    constructor
    · rintro ⟨-, hrest⟩
      have hsound : s.Sound e := by
        by_contra hunsound
        obtain ⟨s', hstep, hwrong⟩ := not_correct_of_not_sound hs hunsound
        exact hwrong (hrest s' () hstep [] s' [] List.nil_prefix rfl)
      exact ⟨hsound, fun s' r hstep => (ih s' (step_inv hs hsound hstep)).mp (hrest s' r hstep)⟩
    · rintro ⟨hsound, hrest⟩
      exact ⟨hs.correct,
        fun s' r hstep => (ih s' (step_inv hs hsound hstep)).mpr (hrest s' r hstep)⟩

/-- **The queue's promises hold after each event of a run if and only if each event is sound.** -/
theorem completions_fire_once_iff (completions : κ → Completion) (currentTicks tailTicks : Nat)
    (events : List (Event κ)) :
    HoldsThroughout System.Correct (initial completions currentTicks tailTicks) events ↔
      Meets step System.Sound (initial completions currentTicks tailTicks) events :=
  correct_throughout_iff events _ (initial_inv completions currentTicks tailTicks)

/-- A wait that expires at tick 5 executes a completion that is due at tick 10. -/
theorem completion_fires_early :
    ¬ ∀ events : List (Event Nat), HoldsThroughout System.Correct
      (initial (fun _ => ⟨0, true, true⟩) 0 0) events := by
  intro h
  have hcorrect := h [.enqueueTicks 1 10, .sleepUntil 5, .clock 5, .timerInterrupt] _ _ _
    (List.prefix_refl _) rfl
  have hlate := hcorrect.notEarly 1 10 5 (by decide)
  exact absurd hlate (by decide)

end TinyClr.Completions
