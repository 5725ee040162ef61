import Mathlib.Data.List.Nodup

/-!
# Walks along linked lists

A walk along a list whose body may link the elements elsewhere: the element to go to is taken
before the body is run.
-/

namespace TinyClr.Library

variable {σ ι : Type*}

section Links

variable [DecidableEq ι]

def following : List ι → ι → Option ι
  | [], _ => none
  | a :: rest, p => if a = p then rest.head? else following rest p

variable {p : ι}

theorem following_append {front rest : List ι} (h : p ∉ front) :
    following (front ++ p :: rest) p = rest.head? := by
  induction front with
  | nil => exact if_pos rfl
  | cons a front ih =>
    rw [List.mem_cons, not_or] at h
    rw [List.cons_append, following, if_neg (Ne.symm h.1), ih h.2]

def linkAtBack (list : List ι) (p : ι) : List ι := list.filter (· ≠ p) ++ [p]

theorem filter_ne_append {front rest : List ι} (h : (front ++ p :: rest).Nodup) :
    (front ++ p :: rest).filter (· ≠ p) = front ++ rest := by
  rw [List.nodup_middle, List.nodup_cons, List.mem_append, not_or] at h
  rw [List.filter_append, List.filter_cons_of_neg (by simp), List.filter_eq_self.mpr,
    List.filter_eq_self.mpr]
  · exact fun a ha => decide_eq_true fun heq => h.1.2 (heq ▸ ha)
  · exact fun a ha => decide_eq_true fun heq => h.1.1 (heq ▸ ha)

variable {list : List ι}

theorem mem_filter_ne {q : ι} : q ∈ list.filter (· ≠ p) ↔ q ∈ list ∧ q ≠ p := by
  rw [List.mem_filter, decide_eq_true_eq]

theorem nodup_linkAtBack (h : list.Nodup) (p : ι) : (linkAtBack list p).Nodup :=
  (List.nodup_append_comm.mp (List.nodup_cons.mpr
    ⟨fun hmem => (mem_filter_ne.mp hmem).2 rfl, h.filter _⟩ : ([p] ++ list.filter (· ≠ p)).Nodup))

theorem mem_linkAtBack {q : ι} : q ∈ linkAtBack list p ↔ q ∈ list ∨ q = p := by
  rw [linkAtBack, List.mem_append, mem_filter_ne, List.mem_singleton]
  by_cases hq : q = p
  · simp [hq]
  · simp [hq]

end Links

/-! ### The walk -/

/-- The walk from an element on; the body says whether it goes on.  `none`: it has not come to an
    end. -/
def walk (next : σ → ι → Option ι) (body : σ → ι → σ × Bool) : Nat → σ → Option ι → Option σ
  | _, s, none => some s
  | 0, _, some _ => none
  | fuel + 1, s, some p =>
      match body s p with
      | (s', true) => walk next body fuel s' (next s p)
      | (s', false) => some s'

variable {next : σ → ι → Option ι} {body : σ → ι → σ × Bool}

/-- **Walk rule.**  What holds of the state and of the elements still to come is kept by the body;
    then the walk comes to an end. -/
theorem walk_rule {next : σ → ι → Option ι} {body : σ → ι → σ × Bool}
    {inv : σ → List ι → Prop} {post : σ → Prop}
    (hnext : ∀ s p rest, inv s (p :: rest) → next s p = rest.head?)
    (hgoes : ∀ s p rest s', inv s (p :: rest) → body s p = (s', true) → inv s' rest)
    (hstops : ∀ s p rest s', inv s (p :: rest) → body s p = (s', false) → post s')
    (hend : ∀ s, inv s [] → post s) :
    ∀ (rest : List ι) (s : σ) (fuel : Nat), inv s rest → rest.length ≤ fuel →
      ∃ s', walk next body fuel s rest.head? = some s' ∧ post s' := by
  intro rest
  induction rest with
  | nil =>
    intro s fuel hs _
    exact ⟨s, by cases fuel <;> rfl, hend s hs⟩
  | cons p rest ih =>
    intro s fuel hs hfuel
    obtain ⟨fuel, rfl⟩ : ∃ n, fuel = n + 1 := Nat.exists_eq_add_one_of_ne_zero (by
      rw [List.length_cons] at hfuel
      omega)
    rw [List.head?_cons, walk]
    rcases hbody : body s p with ⟨s₁, _ | _⟩
    · exact ⟨s₁, rfl, hstops s p rest s₁ hs hbody⟩
    · dsimp only
      rw [hnext s p rest hs]
      exact ih s₁ fuel (hgoes s p rest s₁ hs hbody) (Nat.le_of_succ_le_succ hfuel)

/-- What every turn keeps, a walk keeps that comes to an end. -/
theorem walk_keeps {next : σ → ι → Option ι} {body : σ → ι → σ × Bool} {inv : σ → Prop}
    (hbody : ∀ s p, inv s → inv (body s p).1) :
    ∀ (fuel : Nat) (s s' : σ) (first : Option ι), inv s → walk next body fuel s first = some s' →
      inv s' := by
  intro fuel
  induction fuel with
  | zero =>
    intro s s' first hs hwalk
    rcases first with _ | p
    · exact Option.some.inj hwalk ▸ hs
    · exact absurd hwalk (by simp [walk])
  | succ fuel ih =>
    intro s s' first hs hwalk
    rcases first with _ | p
    · exact Option.some.inj hwalk ▸ hs
    · have hkept := hbody s p hs
      rw [walk] at hwalk
      rcases hcase : body s p with ⟨s₁, _ | _⟩
      · rw [hcase] at hwalk hkept
        exact Option.some.inj hwalk ▸ hkept
      · rw [hcase] at hwalk hkept
        exact ih s₁ s' _ hkept hwalk

/-- **Walk rule, up to a way out.**  A walk that comes to an end has kept what holds of the state and
    of the elements still to come, or it has taken the way out, from which no turn comes back. -/
theorem walk_unless {next : σ → ι → Option ι} {body : σ → ι → σ × Bool}
    {inv : σ → List ι → Prop} {out : σ → Prop}
    (hnext : ∀ s p rest, inv s (p :: rest) → next s p = rest.head?)
    (hgoes : ∀ s p, (body s p).2 = true)
    (hbody : ∀ s p rest, inv s (p :: rest) → inv (body s p).1 rest ∨ out (body s p).1)
    (hout : ∀ s p, out s → out (body s p).1) :
    ∀ (rest : List ι) (s s' : σ) (fuel : Nat), inv s rest →
      walk next body fuel s rest.head? = some s' → inv s' [] ∨ out s' := by
  intro rest
  induction rest with
  | nil =>
    intro s s' fuel hs hwalk
    have heq : s = s' := by cases fuel <;> exact Option.some.inj hwalk
    exact Or.inl (heq ▸ hs)
  | cons p rest ih =>
    intro s s' fuel hs hwalk
    rcases fuel with _ | fuel
    · exact absurd hwalk (by simp [walk])
    · rw [List.head?_cons, walk, hnext s p rest hs] at hwalk
      have hgo := hgoes s p
      have hkept := hbody s p rest hs
      rcases hcase : body s p with ⟨s₁, _ | _⟩
      · rw [hcase] at hgo
        exact Bool.noConfusion hgo
      · rw [hcase] at hwalk hkept
        rcases hkept with hkept | hfree
        · exact ih s₁ s' fuel hkept hwalk
        · exact Or.inr (walk_keeps hout fuel s₁ s' _ hfree hwalk)

end TinyClr.Library
