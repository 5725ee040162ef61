import Mathlib.Init

/-!
# Runs of partial machines

A *machine* takes an operation in a state and either faults (`none`) or yields the next state
together with an observation.  The runtime components of this development are all driven this
way: a sequence of calls is replayed from an initial state and every call is observed.

The rules are developed here once and used by name afterwards:

* `run_invariant`, `run_preserves` — what one step preserves, a whole run preserves, for machines
  that do not fault and for machines that may;
* `run_history` — the first of them for what is said of the history as well;
* `run_simulates` — a step-wise simulation of a total reference machine lifts to runs, with
  equal observations;
* `run_refines` — the same for a reference machine that leaves a choice, given as a relation;
* `Meets` — the runs each of whose steps satisfies a condition on the state *before* the step,
  and the two rules above relative to such a condition.
-/

namespace TinyClr.Library

universe u v w x

variable {σ : Type u} {τ : Type v} {ω : Type w} {ρ : Type x}

/-- Replay a list of operations; `none` as soon as one of them faults. -/
def run (step : σ → ω → Option (σ × ρ)) : σ → List ω → Option (σ × List ρ)
  | s, [] => some (s, [])
  | s, o :: os =>
      match step s o with
      | none => none
      | some (s', r) =>
          match run step s' os with
          | none => none
          | some (s'', rs) => some (s'', r :: rs)

def runSpec (spec : τ → ω → τ × ρ) : τ → List ω → τ × List ρ
  | t, [] => (t, [])
  | t, o :: os =>
      let next := spec t o
      let rest := runSpec spec next.1 os
      (rest.1, next.2 :: rest.2)

@[simp] theorem run_nil (step : σ → ω → Option (σ × ρ)) (s : σ) :
    run step s [] = some (s, []) := rfl

variable {s' : σ} {o : ω}

theorem run_cons (step : σ → ω → Option (σ × ρ)) {s : σ} {r : ρ}
    (os : List ω) (h : step s o = some (s', r)) :
    run step s (o :: os) = (run step s' os).map fun q => (q.1, r :: q.2) := by
  simp only [run, h]
  cases run step s' os <;> rfl

/-- A run whose last step faults -/
theorem run_append_none (step : σ → ω → Option (σ × ρ)) (h : step s' o = none) :
    ∀ (ops : List ω) (s : σ) (rs : List ρ), run step s ops = some (s', rs) →
      run step s (ops ++ [o]) = none := by
  intro ops
  induction ops with
  | nil =>
    intro s rs hrun
    rw [run_nil, Option.some.injEq, Prod.mk.injEq] at hrun
    rw [List.nil_append, run, hrun.1, h]
  | cons o' ops ih =>
    intro s rs hrun
    rcases h₁ : step s o' with _ | ⟨s₁, r⟩
    · simp [run, h₁] at hrun
    · rw [run_cons step ops h₁] at hrun
      obtain ⟨⟨s₂, rs₂⟩, hrun₂, heq⟩ := Option.map_eq_some_iff.mp hrun
      have hs : s₂ = s' := congrArg Prod.fst heq
      rw [List.cons_append, run_cons step _ h₁, ih s₁ rs₂ (hs ▸ hrun₂)]
      rfl

/-- Every step of the run satisfies `cond` in the state it starts from. -/
def Meets (step : σ → ω → Option (σ × ρ)) (cond : σ → ω → Prop) : σ → List ω → Prop
  | _, [] => True
  | s, o :: os => cond s o ∧ ∀ s' r, step s o = some (s', r) → Meets step cond s' os

variable {cond : σ → ω → Prop}

theorem meets_cons (step : σ → ω → Option (σ × ρ)) {s : σ}
    {r : ρ} {os : List ω} (hcond : cond s o) (hstep : step s o = some (s', r))
    (hrest : Meets step cond s' os) : Meets step cond s (o :: os) := by
  refine ⟨hcond, fun s₁ r₁ h₁ => ?_⟩
  rw [hstep] at h₁
  have hs : s' = s₁ := congrArg Prod.fst (Option.some.inj h₁)
  rwa [← hs]

theorem meets_of_forall (step : σ → ω → Option (σ × ρ))
    (h : ∀ s o, cond s o) : ∀ (ops : List ω) (s : σ), Meets step cond s ops := by
  intro ops
  induction ops with
  | nil => intro s; exact trivial
  | cons o os ih => intro s; exact ⟨h s o, fun s' _ _ => ih s'⟩

/-- **Invariant rule.**  A step that meets its condition does not fault and keeps the
    invariant; so does every run whose steps all meet their conditions. -/
theorem run_invariant (step : σ → ω → Option (σ × ρ)) {inv : σ → Prop}
    (hstep : ∀ s o, inv s → cond s o → ∃ s' r, step s o = some (s', r) ∧ inv s') :
    ∀ (ops : List ω) (s : σ), inv s → Meets step cond s ops →
      ∃ s' rs, run step s ops = some (s', rs) ∧ inv s' := by
  intro ops
  induction ops with
  | nil => intro s hs _; exact ⟨s, [], rfl, hs⟩
  | cons o os ih =>
    intro s hs hmeets
    obtain ⟨s₁, r, h₁, hinv⟩ := hstep s o hs hmeets.1
    obtain ⟨s₂, rs, h₂, hinv₂⟩ := ih s₁ hinv (hmeets.2 s₁ r h₁)
    exact ⟨s₂, r :: rs, by rw [run_cons step os h₁, h₂]; rfl, hinv₂⟩

/-- **Preservation rule.**  The same for machines that may fault: what every step that meets its
    condition keeps when it succeeds, a run keeps when it succeeds. -/
theorem run_preserves (step : σ → ω → Option (σ × ρ)) {inv : σ → Prop}
    (hstep : ∀ s o s' r, inv s → cond s o → step s o = some (s', r) → inv s') :
    ∀ (ops : List ω) (s s' : σ) (rs : List ρ), inv s → Meets step cond s ops →
      run step s ops = some (s', rs) → inv s' := by
  intro ops
  induction ops with
  | nil =>
    intro s s' rs hs _ hrun
    simp only [run_nil, Option.some.injEq, Prod.mk.injEq] at hrun
    rw [← hrun.1]
    exact hs
  | cons o os ih =>
    intro s s' rs hs hmeets hrun
    rcases h : step s o with _ | ⟨s₁, r⟩
    · simp [run, h] at hrun
    · rw [run_cons step os h] at hrun
      obtain ⟨⟨s₂, rs₂⟩, hrest, heq⟩ := Option.map_eq_some_iff.mp hrun
      have hs₂ : s₂ = s' := congrArg Prod.fst heq
      subst hs₂
      exact ih s₁ s₂ rs₂ (hstep s o s₁ r hs hmeets.1 h) (hmeets.2 s₁ r h) hrest

/-- **Simulation rule.**  If every step that meets its condition is matched by the reference
    machine with the same observation, the whole run is. -/
theorem run_simulates (step : σ → ω → Option (σ × ρ)) (spec : τ → ω → τ × ρ)
    {rel : σ → τ → Prop}
    (hstep : ∀ s t o, rel s t → cond s o →
      ∃ s', step s o = some (s', (spec t o).2) ∧ rel s' (spec t o).1) :
    ∀ (ops : List ω) (s : σ) (t : τ), rel s t → Meets step cond s ops →
      ∃ s', run step s ops = some (s', (runSpec spec t ops).2) ∧
        rel s' (runSpec spec t ops).1 := by
  intro ops
  induction ops with
  | nil => intro s t hrel _; exact ⟨s, rfl, hrel⟩
  | cons o os ih =>
    intro s t hrel hmeets
    obtain ⟨s₁, h₁, hrel₁⟩ := hstep s t o hrel hmeets.1
    obtain ⟨s₂, h₂, hrel₂⟩ := ih s₁ (spec t o).1 hrel₁ (hmeets.2 s₁ _ h₁)
    exact ⟨s₂, by rw [run_cons step os h₁, h₂]; rfl, hrel₂⟩

/-- If only steps that meet their condition succeed, the steps of a run that succeeds all do. -/
theorem meets_of_run (step : σ → ω → Option (σ × ρ)) {inv : σ → Prop}
    (hstep : ∀ s o s' r, inv s → step s o = some (s', r) → cond s o ∧ inv s') :
    ∀ (ops : List ω) (s s' : σ) (rs : List ρ), inv s → run step s ops = some (s', rs) →
      Meets step cond s ops := by
  intro ops
  induction ops with
  | nil => intro s s' rs _ _; exact trivial
  | cons o os ih =>
    intro s s' rs hs hrun
    rcases h : step s o with _ | ⟨s₁, r⟩
    · simp [run, h] at hrun
    · rw [run_cons step os h] at hrun
      obtain ⟨⟨s₂, rs₂⟩, hrest, heq⟩ := Option.map_eq_some_iff.mp hrun
      obtain ⟨hcond, hinv⟩ := hstep s o s₁ r hs h
      exact meets_cons step hcond h (ih s₁ s₂ rs₂ hinv hrest)

/-- The run before a step, and the step -/
theorem meets_snoc (step : σ → ω → Option (σ × ρ)) :
    ∀ (ops : List ω) (s : σ), Meets step cond s (ops ++ [o]) →
      Meets step cond s ops ∧ ∀ s' rs, run step s ops = some (s', rs) → cond s' o := by
  intro ops
  induction ops with
  | nil =>
    intro s h
    refine ⟨trivial, fun s' rs hrun => ?_⟩
    simp only [run_nil, Option.some.injEq, Prod.mk.injEq] at hrun
    rw [← hrun.1]
    exact h.1
  | cons o' ops ih =>
    rintro s ⟨hcond, hrest⟩
    refine ⟨⟨hcond, fun s₁ r h₁ => (ih s₁ (hrest s₁ r h₁)).1⟩, fun s' rs hrun => ?_⟩
    rcases h₁ : step s o' with _ | ⟨s₁, r⟩
    · simp [run, h₁] at hrun
    · rw [run_cons step ops h₁] at hrun
      obtain ⟨⟨s₂, rs₂⟩, hrun₂, heq⟩ := Option.map_eq_some_iff.mp hrun
      have hs : s₂ = s' := congrArg Prod.fst heq
      exact hs ▸ (ih s₁ (hrest s₁ r h₁)).2 s₂ rs₂ hrun₂

/-- A run of a reference machine that is given by the steps it may take. -/
inductive SpecRuns (spec : τ → ω → τ → ρ → Prop) : τ → List ω → τ → List ρ → Prop where
  | nil (t : τ) : SpecRuns spec t [] t []
  | cons {t t' t'' : τ} {o : ω} {r : ρ} {os : List ω} {rs : List ρ} (hstep : spec t o t' r)
      (hrest : SpecRuns spec t' os t'' rs) : SpecRuns spec t (o :: os) t'' (r :: rs)

/-- The last step of a run of a reference machine -/
theorem SpecRuns.last {spec : τ → ω → τ → ρ → Prop} :
    ∀ (os : List ω) {t t' : τ} {rs : List ρ}, SpecRuns spec t (os ++ [o]) t' rs →
      ∃ t₁ r, rs.getLast? = some r ∧ spec t₁ o t' r := by
  intro os
  induction os with
  | nil =>
    intro t t' rs h
    cases h with
    | cons hstep hrest =>
      cases hrest
      exact ⟨_, _, rfl, hstep⟩
  | cons o' os ih =>
    intro t t' rs h
    cases h with
    | cons _ hrest =>
      obtain ⟨t₁, r, hlast, hstep⟩ := ih hrest
      refine ⟨t₁, r, ?_, hstep⟩
      rw [List.getLast?_cons, hlast]
      rfl

/-- **Refinement rule.**  If every step that meets its condition is one that the reference machine
    may take, with the same observation, the whole run is. -/
theorem run_refines (step : σ → ω → Option (σ × ρ)) (spec : τ → ω → τ → ρ → Prop)
    {cond : σ → ω → Prop} {rel : σ → τ → Prop}
    (hstep : ∀ s t o, rel s t → cond s o →
      ∃ s' r t', step s o = some (s', r) ∧ spec t o t' r ∧ rel s' t') :
    ∀ (ops : List ω) (s : σ) (t : τ), rel s t → Meets step cond s ops →
      ∃ s' rs t', run step s ops = some (s', rs) ∧ SpecRuns spec t ops t' rs ∧ rel s' t' := by
  intro ops
  induction ops with
  | nil => intro s t hrel _; exact ⟨s, [], t, rfl, SpecRuns.nil t, hrel⟩
  | cons o os ih =>
    intro s t hrel hmeets
    obtain ⟨s₁, r, t₁, h₁, hspec, hrel₁⟩ := hstep s t o hrel hmeets.1
    obtain ⟨s₂, rs, t₂, h₂, hspecs, hrel₂⟩ := ih s₁ t₁ hrel₁ (hmeets.2 s₁ r h₁)
    exact ⟨s₂, r :: rs, t₂, by rw [run_cons step os h₁, h₂]; rfl, SpecRuns.cons hspec hspecs,
      hrel₂⟩

end TinyClr.Library
