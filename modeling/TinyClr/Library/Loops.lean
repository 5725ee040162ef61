import Mathlib.Data.Finite.Prod
import Mathlib.Data.Fintype.Pigeonhole
import Mathlib.Logic.Relation
import Mathlib.Order.WellFounded
import Mathlib.Tactic.Common

/-!
# Loops that may not end

A loop takes one step from a state: it goes on to another state or stops with a result.  `loop` runs
it for a number of steps, `Ends` says that it stops after some number.
-/

namespace TinyClr.Library

variable {σ ρ : Type*}

/-- At most as many steps of a loop as there is fuel; `none`: it has not stopped. -/
def loop (step : σ → Except ρ σ) : Nat → σ → Option ρ
  | 0, _ => none
  | fuel + 1, s =>
      match step s with
      | .error r => some r
      | .ok s' => loop step fuel s'

/-- The loop stops with a result. -/
inductive Ends (step : σ → Except ρ σ) : σ → ρ → Prop
  | stop {s : σ} {r : ρ} : step s = .error r → Ends step s r
  | next {s s' : σ} {r : ρ} : step s = .ok s' → Ends step s' r → Ends step s r

/-- The states that the loop comes to -/
def Reaches (step : σ → Except ρ σ) : σ → σ → Prop :=
  Relation.ReflTransGen fun s s' => step s = .ok s'

variable {step : σ → Except ρ σ} {s t : σ} {r : ρ}

theorem Ends.of_loop {fuel : Nat} (h : loop step fuel s = some r) : Ends step s r := by
  induction fuel generalizing s with
  | zero => exact absurd h (by simp [loop])
  | succ fuel ih =>
    rw [loop] at h
    split at h
    · rename_i r' hstop
      obtain rfl := Option.some.inj h
      exact .stop hstop
    · rename_i s' hnext
      exact .next hnext (ih h)

/-- A loop that stops does so with any greater amount of fuel. -/
theorem Ends.exists_loop (h : Ends step s r) : ∃ n, ∀ fuel, n ≤ fuel → loop step fuel s = some r := by
  induction h with
  | stop hstop =>
    refine ⟨1, fun fuel hfuel => ?_⟩
    obtain ⟨fuel, rfl⟩ := Nat.exists_eq_succ_of_ne_zero (Nat.one_le_iff_ne_zero.mp hfuel)
    rw [loop, hstop]
  | next hnext _ ih =>
    obtain ⟨n, hn⟩ := ih
    refine ⟨n + 1, fun fuel hfuel => ?_⟩
    obtain ⟨fuel, rfl⟩ := Nat.exists_eq_succ_of_ne_zero (by omega : fuel ≠ 0)
    rw [loop, hnext]
    exact hn fuel (Nat.le_of_succ_le_succ hfuel)

theorem ends_iff_loop : Ends step s r ↔ ∃ fuel, loop step fuel s = some r := by
  constructor
  · intro h
    obtain ⟨n, hn⟩ := h.exists_loop
    exact ⟨n, hn n (Nat.le_refl n)⟩
  · rintro ⟨fuel, h⟩
    exact Ends.of_loop h

/-- What a loop that goes on ends with is decided after its first step. -/
theorem Ends.step_ok (h : Ends step s r) {s' : σ} (hnext : step s = .ok s') : Ends step s' r := by
  cases h with
  | stop hstop => exact absurd (hstop.symm.trans hnext) (by simp)
  | next hnext' hrest =>
    obtain rfl := Except.ok.inj (hnext'.symm.trans hnext)
    exact hrest

theorem Ends.step_error (h : Ends step s r) {r' : ρ} (hstop : step s = .error r') : r = r' := by
  cases h with
  | stop hstop' => exact Except.error.inj (hstop'.symm.trans hstop)
  | next hnext _ => exact absurd (hstop.symm.trans hnext) (by simp)

theorem Ends.unique (h : Ends step s r) {r' : ρ} (h' : Ends step s r') : r = r' := by
  induction h with
  | stop hstop => exact (h'.step_error hstop).symm
  | next hnext _ ih => exact ih (h'.step_ok hnext)

theorem Ends.of_reaches (h : Ends step s r) (ht : Reaches step s t) : Ends step t r := by
  induction ht with
  | refl => exact h
  | tail _ hnext ih => exact ih.step_ok hnext

/-- A loop that comes back to the same state goes on for ever. -/
theorem not_ends_of_self (h : step s = .ok s) : ¬ Ends step s r := by
  intro hends
  induction hends with
  | stop hstop => exact absurd (hstop.symm.trans h) (by simp)
  | next hnext _ ih =>
    obtain rfl := Except.ok.inj (h.symm.trans hnext)
    exact ih h

/-- **Loop rule.**  If good states do not fail and come closer to an end, and bad ones fail or stay
    where they are, then the loop ends without failing exactly when it only comes to good states. -/
theorem ends_iff_reaches_good {failure : ρ} {good : σ → Prop} {measure : σ → Nat}
    (hgood : ∀ t, good t → step t ≠ .error failure ∧ ∀ t', step t = .ok t' → measure t' < measure t)
    (hbad : ∀ t, ¬ good t → step t = .error failure ∨ step t = .ok t) :
    (∃ r, r ≠ failure ∧ Ends step s r) ↔ ∀ t, Reaches step s t → good t := by
  constructor
  · rintro ⟨r, hr, hends⟩ t ht
    have hends' := hends.of_reaches ht
    by_contra hnot
    rcases hbad t hnot with hfails | hself
    · exact hr (hends'.step_error hfails)
    · exact not_ends_of_self hself hends'
  · intro hall
    induction hn : measure s using Nat.strongRecOn generalizing s with
    | ind n ih =>
      obtain ⟨hfine, hdecreases⟩ := hgood s (hall s .refl)
      rcases hstep : step s with r | s'
      · exact ⟨r, fun heq => hfine (heq ▸ hstep), .stop hstep⟩
      · obtain ⟨r, hr, hends⟩ := ih (measure s') (hn ▸ hdecreases s' hstep)
          (fun t ht => hall t (Relation.ReflTransGen.head hstep ht)) rfl
        exact ⟨r, hr, .next hstep hends⟩

/-! ### Steps that leave a choice -/

open Relation in
/-- What steps into finitely many states and comes to no cycle comes to an end. -/
theorem acc_of_no_cycle {α : Type*} {r : α → α → Prop} {p : α} {s : Set α} (hs : s.Finite)
    (hstep : ∀ x y, r x y → y ∈ s) (h : ∀ q, ReflTransGen r p q → ¬ TransGen r q q) :
    Acc (fun y x => r x y) p := by
  by_contra hacc
  obtain ⟨f, hzero, hchain⟩ := not_acc_iff_exists_descending_chain.mp hacc
  have := hs.to_subtype
  -- of infinitely many states that are reached two are the same
  obtain ⟨i, j, hne, heq⟩ := Finite.exists_ne_map_eq_of_infinite
    (fun i => (⟨f (i + 1), hstep _ _ (hchain i)⟩ : s))
  have hcycle : ∀ {i j : Nat}, i < j → f (i + 1) = f (j + 1) → False := by
    intro i j hij hsame
    have hreach : ∀ k, ReflTransGen r p (f k) := by
      intro k
      induction k with
      | zero => rw [hzero]
      | succ k ih => exact ih.tail (hchain k)
    have htrans := Nat.rel_of_forall_rel_succ_of_lt (TransGen r) (fun k => .single (hchain k))
      (Nat.succ_lt_succ hij)
    rw [← hsame] at htrans
    exact h _ (hreach _) htrans
  rcases Nat.lt_or_gt_of_ne hne with hlt | hlt
  · exact hcycle hlt (congrArg Subtype.val heq)
  · exact hcycle hlt (congrArg Subtype.val heq).symm

end TinyClr.Library
