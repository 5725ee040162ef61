import Mathlib.Data.List.Sort

/-!
# Ordered insertion with a stale element

`List.orderedInsert r a` puts `a` in front of the first element that yields to it.  In a list that
is served from the front this keeps a serving order `s` as long as `r` decides `s`; that the list
may also hold elements which are out of order is harmless exactly as long as the search does not
stop at one of them too early.
-/

namespace TinyClr.Library

variable {α : Type*} {r s : α → α → Prop} {a : α} {l : List α}

/-- Where the search for the place of `a` stops at an element that `keep` drops, it would stop at
    the next one kept as well. -/
def Undisturbed (r : α → α → Prop) (keep : α → Bool) (a : α) (l : List α) : Prop :=
  ∀ front t back, l = front ++ t :: back → keep t = false → r a t → (∀ b ∈ front, ¬ r a b) →
    ∀ b ∈ (back.filter keep).head?, r a b

variable {keep : α → Bool}

theorem Undisturbed.tail {keep : α → Bool} {b : α} (h : Undisturbed r keep a (b :: l))
    (hb : ¬ r a b) : Undisturbed r keep a l := by
  intro front t back hl ht hyields hfront
  refine h (b :: front) t back (congrArg (b :: ·) hl) ht hyields fun c hc => ?_
  rcases List.mem_cons.mp hc with rfl | hc
  · exact hb
  · exact hfront c hc

variable [DecidableRel r]

/-- Insertion keeps the serving order when `r a b` says that `b` yields to `a`. -/
theorem pairwise_orderedInsert (hyields : ∀ b ∈ l, r a b → s a b)
    (hserved : ∀ b ∈ l, ¬ r a b → s b a) (htrans : ∀ b ∈ l, ∀ c ∈ l, s b c → r a b → r a c)
    (h : l.Pairwise s) : (l.orderedInsert r a).Pairwise s := by
  induction l with
  | nil => exact List.pairwise_singleton s a
  | cons b l ih =>
    obtain ⟨hfirst, hrest⟩ := List.pairwise_cons.mp h
    rw [List.orderedInsert_cons]
    by_cases hb : r a b
    · rw [if_pos hb]
      refine List.pairwise_cons.mpr ⟨fun c hc => ?_, h⟩
      rcases List.mem_cons.mp hc with rfl | hc'
      · exact hyields c List.mem_cons_self hb
      · exact hyields c hc (htrans b List.mem_cons_self c hc (hfirst c hc') hb)
    · rw [if_neg hb]
      refine List.pairwise_cons.mpr ⟨fun c hc => ?_, ?_⟩
      · rcases (List.mem_orderedInsert r).mp hc with rfl | hc'
        · exact hserved b List.mem_cons_self hb
        · exact hfirst c hc'
      · exact ih (fun c hc => hyields c (List.mem_cons_of_mem b hc))
          (fun c hc => hserved c (List.mem_cons_of_mem b hc))
          (fun c hc d hd => htrans c (List.mem_cons_of_mem b hc) d (List.mem_cons_of_mem b hd)) hrest

/-- An undisturbed insertion commutes with dropping the stale elements. -/
theorem filter_orderedInsert (ha : keep a = true)
    (h : Undisturbed r keep a l) :
    (l.orderedInsert r a).filter keep = (l.filter keep).orderedInsert r a := by
  induction l with
  | nil => rw [List.orderedInsert_nil, List.filter_nil, List.orderedInsert_nil,
      List.filter_cons_of_pos ha, List.filter_nil]
  | cons b l ih =>
    rw [List.orderedInsert_cons]
    by_cases hb : r a b
    · rw [if_pos hb, List.filter_cons_of_pos ha]
      by_cases hkeep : keep b = true
      · rw [List.filter_cons_of_pos hkeep, List.orderedInsert_cons, if_pos hb]
      · rw [List.filter_cons_of_neg hkeep]
        have hnext := h [] b l rfl (Bool.not_eq_true _ ▸ hkeep) hb (by simp)
        cases hfilter : l.filter keep with
        | nil => rfl
        | cons c cs =>
          rw [hfilter] at hnext
          rw [List.orderedInsert_cons, if_pos (hnext c rfl)]
    · rw [if_neg hb]
      by_cases hkeep : keep b = true
      · rw [List.filter_cons_of_pos hkeep, List.filter_cons_of_pos hkeep, List.orderedInsert_cons,
          if_neg hb, ih (h.tail hb)]
      · rw [List.filter_cons_of_neg hkeep, List.filter_cons_of_neg hkeep, ih (h.tail hb)]

/-- What is dropped may be inserted anywhere. -/
theorem filter_orderedInsert_of_neg (ha : keep a = false) :
    (l.orderedInsert r a).filter keep = l.filter keep := by
  induction l with
  | nil => rw [List.orderedInsert_nil, List.filter_cons_of_neg (by rw [ha]; decide)]
  | cons b l ih =>
    rw [List.orderedInsert_cons]
    by_cases hb : r a b
    · rw [if_pos hb, List.filter_cons_of_neg (by rw [ha]; decide)]
    · rw [if_neg hb, List.filter_cons, List.filter_cons, ih]

/-- Inserting keeps what is kept in serving order exactly if nothing stale disturbs the search. -/
theorem pairwise_filter_orderedInsert_iff (ha : keep a = true)
    (hyields : ∀ b ∈ l, r a b → s a b) (hserved : ∀ b ∈ l, ¬ r a b → s b a)
    (hnot : ∀ b ∈ l, ¬ r a b → ¬ s a b) (htrans : ∀ b ∈ l, ∀ c ∈ l, s b c → r a b → r a c)
    (h : (l.filter keep).Pairwise s) :
    ((l.orderedInsert r a).filter keep).Pairwise s ↔ Undisturbed r keep a l := by
  constructor
  · intro hsorted front t back hl ht hstop hfront b hb
    by_contra hbefore
    have hmem : b ∈ back := (List.mem_filter.mp (List.mem_of_mem_head? hb)).1
    have hplace : l.orderedInsert r a = front ++ a :: t :: back := by
      subst hl
      clear hyields hserved hnot htrans h hsorted
      induction front with
      | nil => rw [List.nil_append, List.orderedInsert_cons, if_pos hstop, List.nil_append]
      | cons c front ih =>
        rw [List.cons_append, List.orderedInsert_cons, if_neg (hfront c List.mem_cons_self),
          ih fun d hd => hfront d (List.mem_cons_of_mem c hd), List.cons_append]
    rw [hplace, List.filter_append, List.filter_cons_of_pos ha,
      List.filter_cons_of_neg (by rw [ht]; decide)] at hsorted
    have hab := (List.pairwise_cons.mp (List.pairwise_append.mp hsorted).2.1).1 b
      (List.mem_of_mem_head? hb)
    refine hnot b ?_ hbefore hab
    rw [hl]
    exact List.mem_append_right _ (List.mem_cons_of_mem _ hmem)
  · intro hclean
    rw [filter_orderedInsert ha hclean]
    have hsub : ∀ b ∈ l.filter keep, b ∈ l := fun b hb => (List.mem_filter.mp hb).1
    exact pairwise_orderedInsert (fun b hb => hyields b (hsub b hb))
      (fun b hb => hserved b (hsub b hb))
      (fun b hb c hc => htrans b (hsub b hb) c (hsub c hc)) h

end TinyClr.Library
