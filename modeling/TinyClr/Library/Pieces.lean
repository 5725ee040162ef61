import Mathlib.Data.List.Basic

/-!
# Splitting a list at separators

A list is split into at most a number of pieces: at its separators from the front on, as long as
another piece may follow the last one.  This is the only way to take separators out of a list such
that the pieces contain none, except a last piece that the limit keeps from being split.
-/

namespace TinyClr.Library

variable {α : Type*} {sep : α → Prop}

/-- Pieces with an element put between each and the next -/
def joinWith : List (List α) → List α → List α
  | [], _ => []
  | p :: _, [] => p
  | p :: ps, r :: rs => p ++ r :: joinWith ps rs

/-- `pieces` are a list without the separators that were taken out of it. -/
structure Partition (sep : α → Prop) (limit : Nat) (xs : List α) (pieces : List (List α)) :
    Prop where
  pos : 1 ≤ pieces.length
  le : pieces.length ≤ limit
  joined : ∃ removed : List α, removed.length + 1 = pieces.length ∧ (∀ r ∈ removed, sep r) ∧
    joinWith pieces removed = xs
  inner : ∀ p ∈ pieces.dropLast, ∀ x ∈ p, ¬ sep x
  last : ∀ p ∈ pieces.getLast?, (∃ x ∈ p, sep x) → pieces.length = limit

/-- The pieces of a list, at most `limit` of them -/
def pieces (sep : α → Prop) [DecidablePred sep] : Nat → List α → List (List α)
  | _, [] => [[]]
  | limit, x :: xs =>
      if 1 < limit ∧ sep x then [] :: pieces sep (limit - 1) xs
      else (pieces sep limit xs).modifyHead (x :: ·)

section Pieces

variable [DecidablePred sep] {limit : Nat} {xs : List α} {x : α}

@[simp] theorem pieces_nil (limit : Nat) : pieces sep limit [] = [[]] := by rw [pieces]

theorem pieces_split (h : 1 < limit ∧ sep x) :
    pieces sep limit (x :: xs) = [] :: pieces sep (limit - 1) xs := by rw [pieces, if_pos h]

theorem pieces_keep (h : ¬ (1 < limit ∧ sep x)) :
    pieces sep limit (x :: xs) = (pieces sep limit xs).modifyHead (x :: ·) := by
  rw [pieces, if_neg h]

theorem pieces_ne_nil (limit : Nat) (xs : List α) : pieces sep limit xs ≠ [] := by
  induction xs generalizing limit with
  | nil => simp
  | cons x xs ih =>
    by_cases h : 1 < limit ∧ sep x
    · rw [pieces_split h]
      exact List.cons_ne_nil _ _
    · rw [pieces_keep h]
      obtain ⟨p, ps, hps⟩ := List.exists_cons_of_ne_nil (ih limit)
      rw [hps]
      exact List.cons_ne_nil _ _

end Pieces

/-! ### The parts of a partition -/

section Parts

variable {limit : Nat} {xs p : List α} {ps : List (List α)} {x : α}

theorem Partition.nil (hlimit : 1 ≤ limit) : Partition sep limit [] [[]] where
  pos := Nat.le_refl 1
  le := hlimit
  joined := ⟨[], rfl, by simp, rfl⟩
  inner := by simp
  last := by
    rintro p hp ⟨x, hx, -⟩
    obtain rfl := Option.some.inj hp
    cases hx

/-- A separator in front ends an empty piece. -/
theorem Partition.split_iff (hlimit : 1 < limit) (hx : sep x) :
    Partition sep limit (x :: xs) ps ↔
      ∃ ps', ps = [] :: ps' ∧ Partition sep (limit - 1) xs ps' := by
  constructor
  · rintro ⟨hpos, hle, ⟨removed, hlength, hremoved, hjoined⟩, hinner, hlast⟩
    rcases ps with _ | ⟨p, _ | ⟨q, ps⟩⟩
    · cases hpos
    · obtain rfl := List.eq_nil_of_length_eq_zero (Nat.succ.inj hlength)
      obtain rfl : p = x :: xs := hjoined
      have hfull := hlast _ rfl ⟨x, List.mem_cons_self, hx⟩
      rw [List.length_singleton] at hfull
      omega
    · rcases removed with _ | ⟨r, removed⟩
      · simp at hlength
      rcases p with _ | ⟨y, p⟩
      · obtain ⟨rfl, hrest⟩ := List.cons.inj hjoined
        refine ⟨q :: ps, rfl, by simp, by simp at hle ⊢; omega,
          ⟨removed, by simpa using hlength, fun r' hr' => hremoved r' (List.mem_cons_of_mem r hr'),
            hrest⟩, fun p' hp' => hinner p' ?_, fun p' hp' hsep => ?_⟩
        · rw [List.dropLast_cons_of_ne_nil (List.cons_ne_nil q ps)]
          exact List.mem_cons_of_mem _ hp'
        · have hfull := hlast p' (by rw [List.getLast?_cons_cons]; exact hp') hsep
          rw [List.length_cons] at hfull
          omega
      · obtain rfl := (List.cons.inj hjoined).1
        refine absurd hx (hinner (y :: p) ?_ y List.mem_cons_self)
        rw [List.dropLast_cons_of_ne_nil (List.cons_ne_nil q ps)]
        exact List.mem_cons_self
  · rintro ⟨ps', rfl, hpos, hle, ⟨removed, hlength, hremoved, hjoined⟩, hinner, hlast⟩
    obtain ⟨q, ps, rfl⟩ := List.exists_cons_of_length_pos hpos
    refine ⟨by simp, by simp at hle ⊢; omega, ⟨x :: removed, by simpa using hlength,
      List.forall_mem_cons.mpr ⟨hx, hremoved⟩, by rw [joinWith, hjoined]; rfl⟩, ?_, ?_⟩
    · rw [List.dropLast_cons_of_ne_nil (List.cons_ne_nil q ps), List.forall_mem_cons]
      exact ⟨by simp, hinner⟩
    · intro p hp hsep
      rw [List.getLast?_cons_cons] at hp
      have hfull := hlast p hp hsep
      rw [List.length_cons, hfull]
      omega

/-- An element in front of which nothing ends belongs to the first piece. -/
theorem Partition.keep_iff (hx : ¬ (1 < limit ∧ sep x)) (hlimit : 1 ≤ limit) :
    Partition sep limit (x :: xs) ps ↔
      ∃ p ps', ps = (x :: p) :: ps' ∧ Partition sep limit xs (p :: ps') := by
  constructor
  · rintro ⟨hpos, hle, ⟨removed, hlength, hremoved, hjoined⟩, hinner, hlast⟩
    rcases ps with _ | ⟨p, ps⟩
    · cases hpos
    rcases p with _ | ⟨y, p⟩
    · rcases removed with _ | ⟨r, removed⟩
      · cases hjoined
      obtain ⟨rfl, -⟩ := List.cons.inj hjoined
      refine absurd ⟨?_, hremoved r List.mem_cons_self⟩ hx
      simp only [List.length_cons] at hlength hle
      omega
    · obtain ⟨rfl, hrest⟩ : y = x ∧ joinWith (p :: ps) removed = xs := by
        rcases removed with _ | ⟨r, removed⟩
        · exact List.cons.inj hjoined
        · exact List.cons.inj hjoined
      refine ⟨p, ps, rfl, by simp, hle, ⟨removed, hlength, hremoved, hrest⟩, ?_, ?_⟩
      · rcases ps with _ | ⟨q, ps⟩
        · simp
        · rw [List.dropLast_cons_of_ne_nil (List.cons_ne_nil q ps), List.forall_mem_cons]
            at hinner ⊢
          exact ⟨fun z hz => hinner.1 z (List.mem_cons_of_mem y hz), hinner.2⟩
      · rcases ps with _ | ⟨q, ps⟩
        · rintro p' hp' ⟨z, hz, hsep⟩
          obtain rfl := Option.some.inj hp'
          exact hlast (y :: p) rfl ⟨z, List.mem_cons_of_mem y hz, hsep⟩
        · intro p' hp' hsep
          rw [List.getLast?_cons_cons] at hp'
          exact hlast p' (by rw [List.getLast?_cons_cons]; exact hp') hsep
  · rintro ⟨p, ps', rfl, hpos, hle, ⟨removed, hlength, hremoved, hjoined⟩, hinner, hlast⟩
    refine ⟨by simp, hle, ⟨removed, hlength, hremoved, ?_⟩, ?_, ?_⟩
    · rcases removed with _ | ⟨r, removed⟩
      · rw [joinWith] at hjoined ⊢
        rw [hjoined]
      · rw [joinWith] at hjoined ⊢
        rw [List.cons_append, hjoined]
    · rcases ps' with _ | ⟨q, ps⟩
      · simp
      · rw [List.dropLast_cons_of_ne_nil (List.cons_ne_nil q ps), List.forall_mem_cons] at hinner ⊢
        refine ⟨fun z hz hsep => ?_, hinner.2⟩
        rcases List.mem_cons.mp hz with rfl | hz
        · refine hx ⟨?_, hsep⟩
          simp only [List.length_cons] at hle
          omega
        · exact hinner.1 z hz hsep
    · rcases ps' with _ | ⟨q, ps⟩
      · rintro p' hp' ⟨z, hz, hsep⟩
        obtain rfl := Option.some.inj hp'
        rcases List.mem_cons.mp hz with rfl | hz
        · have hone : ¬ 1 < limit := fun h => hx ⟨h, hsep⟩
          rw [List.length_singleton]
          omega
        · exact hlast p rfl ⟨z, hz, hsep⟩
      · intro p' hp' hsep
        rw [List.getLast?_cons_cons] at hp'
        exact hlast p' (by rw [List.getLast?_cons_cons]; exact hp') hsep

theorem Partition.nil_iff (hlimit : 1 ≤ limit) : Partition sep limit [] ps ↔ ps = [[]] := by
  constructor
  · rintro ⟨hpos, -, ⟨removed, hlength, -, hjoined⟩, -, -⟩
    rcases ps with _ | ⟨p, _ | ⟨q, ps⟩⟩
    · cases hpos
    · obtain rfl := List.eq_nil_of_length_eq_zero (Nat.succ.inj hlength)
      rw [show p = [] from hjoined]
    · rcases removed with _ | ⟨r, removed⟩
      · simp at hlength
      · exact absurd hjoined (by rw [joinWith]; simp)
  · rintro rfl
    exact Partition.nil hlimit

end Parts

/-- **The pieces of a list are its only partition.** -/
theorem partition_iff [DecidablePred sep] {limit : Nat} {xs : List α} {ps : List (List α)}
    (hlimit : 1 ≤ limit) : Partition sep limit xs ps ↔ ps = pieces sep limit xs := by
  induction xs generalizing limit ps with
  | nil => rw [Partition.nil_iff hlimit, pieces_nil]
  | cons x xs ih =>
    by_cases h : 1 < limit ∧ sep x
    · rw [Partition.split_iff h.1 h.2, pieces_split h]
      constructor
      · rintro ⟨ps', rfl, hps'⟩
        rw [(ih (by omega)).mp hps']
      · rintro rfl
        exact ⟨_, rfl, (ih (by omega)).mpr rfl⟩
    · obtain ⟨p, ps', hpieces⟩ := List.exists_cons_of_ne_nil (@pieces_ne_nil α sep _ limit xs)
      rw [Partition.keep_iff h hlimit, pieces_keep h, hpieces]
      constructor
      · rintro ⟨p', ps'', rfl, hrest⟩
        rw [ih hlimit, hpieces, List.cons.injEq] at hrest
        rw [hrest.1, hrest.2]
        rfl
      · rintro rfl
        exact ⟨p, ps', rfl, (ih hlimit).mpr hpieces.symm⟩

end TinyClr.Library
