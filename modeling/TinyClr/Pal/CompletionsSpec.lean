import Mathlib.Data.List.Find
import TinyClr.Library.OrderedInsert
import TinyClr.Pal.Completions

/-!
# What the completion queue keeps

The list is in the order of the event times, completions of one time in the order they were
enqueued in; the compare value never passes the time of the first of them.

`WaitForInterrupts` decides before it sleeps which compare value to restore.  `Sound` says of an
event that this decision still fits, and of an interrupt that it does not come from the expiry of
a wait.
-/

namespace TinyClr.Completions

open TinyClr.Library

variable {κ : Type} [DecidableEq κ]

/-! ### Histories -/

def Mark.isEnqueued (c : κ) : Mark κ → Bool
  | .enqueued c' => c' = c
  | _ => false

def Mark.isExecuted (c : κ) : Mark κ → Bool
  | .executed c' _ _ => c' = c
  | _ => false

def Mark.isAborted (c : κ) : Mark κ → Bool
  | .aborted c' => c' = c
  | _ => false

namespace System

/-- `a` stands before `b`: by the event time, then by the time of the call. -/
def Before (s : System κ) (a b : κ) : Prop :=
  s.ticks a < s.ticks b ∨ s.ticks a = s.ticks b ∧ s.enqueuedAt a < s.enqueuedAt b

def firstTicks (s : System κ) (list : List κ) : Nat :=
  match list.head? with
  | some ptr => s.ticks ptr
  | none => HAL_Completion_IdleValue

/-- The compare value that the queue asks for. -/
def due (s : System κ) : Nat := s.firstTicks s.list

/-- How often `c` was enqueued, executed and aborted: every call is settled once, the last one not
    yet if `c` is queued. -/
def SettledOnce (s : System κ) : Prop :=
  ∀ c, s.history.countP (Mark.isEnqueued c) =
    s.history.countP (Mark.isExecuted c) + s.history.countP (Mark.isAborted c) +
      if c ∈ s.list then 1 else 0

/-- An execution calls the callback or leaves it to a continuation, which is called, is dropped by
    another call or still waits. -/
def HandedOver (s : System κ) : Prop :=
  ∀ c, s.history.countP (Mark.isExecuted c) = s.called.count c + s.dropped.count c +
    if c ∈ s.continuations then 1 else 0

def NotEarly (s : System κ) : Prop :=
  ∀ c eventTimeTicks currentTicks, .executed c eventTimeTicks currentTicks ∈ s.history →
    eventTimeTicks ≤ currentTicks

/-- Once the clock is past the times of the queued completions, the timer interrupts execute all of
    them, in their order. -/
def Fires (s : System κ) : Prop :=
  ∀ ticks, (∀ c ∈ s.list, s.ticks c ≤ s.currentTicks + ticks) →
    ∃ s' rs, run step s (.clock ticks :: List.replicate s.list.length .timerInterrupt) =
        some (s', rs) ∧
      s'.list = [] ∧
      s'.history = s.history ++
        s.list.map fun c => .executed c (s.ticks c) (s.currentTicks + ticks)

/-- What the queue promises in every state. -/
structure Correct (s : System κ) : Prop where
  sorted : s.list.Pairwise s.Before
  compare : s.sleep = none → s.compare = s.due
  notEarly : s.NotEarly
  settledOnce : s.SettledOnce
  handedOver : s.HandedOver
  fires : s.Fires

def Sound (s : System κ) : Event κ → Prop
  | .timerInterrupt =>
      s.compare ≤ s.currentTicks → ∀ ptr ∈ s.list.head?, s.ticks ptr ≤ s.currentTicks
  | .wake =>
      ∀ state ∈ s.sleep,
        if state.resetCompare then s.list = [] → s.tailTicks = HAL_Completion_IdleValue
        else if state.nilCompare then
          ∀ ptr ∈ s.list.head?, s.ticks ptr = HAL_Completion_IdleValue
        else True
  | _ => True

structure Continued (s : System κ) : Prop where
  nodup : s.continuations.Nodup
  apart : ∀ c ∈ s.list, c ∉ s.continuations
  handedOver : s.HandedOver

/-- The invariant.  The compare value is at most the time of the first completion, and is that time
    unless a wait will set it again. -/
structure Inv (s : System κ) : Prop where
  nodup : s.list.Nodup
  sorted : s.list.Pairwise s.Before
  recorded : ∀ c ∈ s.list, s.enqueuedAt c < s.history.length
  notEarly : s.NotEarly
  settledOnce : s.SettledOnce
  continued : s.Continued
  armed : ∀ ptr ∈ s.list.head?, s.compare ≤ s.ticks ptr
  settled : (∀ state ∈ s.sleep, (state.resetCompare || state.nilCompare) = false) →
    s.compare = s.due

end System

/-! ### The list -/

theorem insertBeforeNode_eq {l : List κ} {this : κ} (hthis : this ∉ l) (p : κ → Bool) :
    System.insertBeforeNode l (l.find? p) this = l.orderedInsert (fun _ b => p b = true) this := by
  have hnode : l.find? p ≠ some this := fun h => hthis (List.mem_of_find?_eq_some h)
  have hfilter : l.filter (· ≠ this) = l :=
    List.filter_eq_self.mpr fun b hb => decide_eq_true (ne_of_mem_of_not_mem hb hthis)
  rw [System.insertBeforeNode, if_neg hnode, hfilter]
  clear hthis hnode hfilter
  induction l with
  | nil => rfl
  | cons b l ih =>
    rw [List.orderedInsert_cons]
    by_cases hb : p b = true
    · rw [if_pos hb, List.find?_cons_of_pos hb]
      simp
    · rw [if_neg hb, List.find?_cons_of_neg hb]
      have hne : some b ≠ l.find? p := fun h => hb (List.find?_some h.symm)
      have hkeep : decide (some b ≠ l.find? p) = true := decide_eq_true hne
      simp only [List.takeWhile_cons, List.dropWhile_cons, hkeep, if_true, List.cons_append]
      exact congrArg (b :: ·) ih

namespace System

variable {s : System κ}

/-! ### Continuations -/

theorem Continued.unlink (h : s.Continued) (this : κ) : (s.unlinkContinuation this).Continued ∧
    this ∉ (s.unlinkContinuation this).continuations := by
  have hfree : this ∉ s.continuations.filter (· ≠ this) :=
    fun hmem => of_decide_eq_true (List.mem_filter.mp hmem).2 rfl
  refine ⟨⟨h.nodup.filter _, fun c hc hmem => ?_, fun c => ?_⟩, hfree⟩
  · exact h.apart c hc (List.mem_filter.mp hmem).1
  · have hold := h.handedOver c
    change s.history.countP (Mark.isExecuted c) = s.called.count c +
      (if this ∈ s.continuations then this :: s.dropped else s.dropped).count c +
      if c ∈ s.continuations.filter (· ≠ this) then 1 else 0
    by_cases hc : c = this
    · subst hc
      rw [if_neg hfree]
      by_cases hmem : c ∈ s.continuations
      · rw [if_pos hmem] at hold ⊢
        rw [hold, List.count_cons_self]
        rfl
      · rw [if_neg hmem] at hold ⊢
        exact hold
    · have hsame : (if this ∈ s.continuations then this :: s.dropped else s.dropped).count c
          = s.dropped.count c := by
        split
        · exact List.count_cons_of_ne (Ne.symm hc)
        · rfl
      rw [hsame, hold]
      simp [hc]

theorem Continued.execute {this : κ} (h : s.Continued) (hlist : this ∉ s.list)
    (hfree : this ∉ s.continuations) : (s.execute this).Continued := by
  have hkeep : s.continuations.filter (· ≠ this) = s.continuations :=
    List.filter_eq_self.mpr fun b hb => decide_eq_true (ne_of_mem_of_not_mem hb hfree)
  have hcount := h.handedOver
  unfold System.execute enqueueContinuation
  dsimp only
  split_ifs
  · refine ⟨h.nodup, h.apart, fun c => ?_⟩
    have hold := hcount c
    by_cases hc : this = c
    · simp_all [Mark.isExecuted]
      omega
    · simp_all [Mark.isExecuted]
  · rw [hkeep]
    refine ⟨?_, fun c hc hmem => ?_, fun c => ?_⟩
    · exact (List.perm_append_singleton this _).nodup_iff.mpr (List.nodup_cons.mpr ⟨hfree, h.nodup⟩)
    · rcases List.mem_append.mp hmem with hmem | hmem
      · exact h.apart c hc hmem
      · exact hlist (List.mem_singleton.mp hmem ▸ hc)
    · have hold := hcount c
      by_cases hc : this = c
      · subst hc
        simp_all [Mark.isExecuted]
      · simp_all [Mark.isExecuted, Ne.symm hc]
  · refine ⟨h.nodup, h.apart, fun c => ?_⟩
    have hold := hcount c
    by_cases hc : this = c
    · simp_all [Mark.isExecuted]
      omega
    · simp_all [Mark.isExecuted]

theorem Continued.dequeueContinuation (h : s.Continued) : s.dequeueContinuation.Continued := by
  unfold System.dequeueContinuation
  split
  · exact h
  · rename_i ptr rest hcons
    have hnodup := List.nodup_cons.mp (hcons ▸ h.nodup)
    refine ⟨hnodup.2, fun c hc hmem => ?_, fun c => ?_⟩
    · exact h.apart c hc (hcons ▸ List.mem_cons_of_mem ptr hmem)
    · have hold := h.handedOver c
      rw [hcons] at hold
      by_cases hc : ptr = c
      · subst hc
        simp_all
        omega
      · simp_all [eq_comm]

/-! ### `EnqueueTicks` -/

section EnqueueTicks

variable {this : κ} {t : Nat}

/-- Where `this` goes: in front of the first completion that is due later. -/
def placed (s : System κ) (this : κ) (t : Nat) : List κ :=
  s.list.orderedInsert (fun _ b => decide (t < s.ticks b) = true) this

theorem enqueueTicks_eq (hthis : this ∉ s.list) :
    s.enqueueTicks this t =
      { s with
        completions := Function.update s.completions this
          { s.completions this with eventTimeTicks := t }
        list := s.placed this t
        continuations := s.continuations.filter (· ≠ this)
        dropped := if this ∈ s.continuations then this :: s.dropped else s.dropped
        enqueuedAt := Function.update s.enqueuedAt this s.history.length
        history := s.history ++ [.enqueued this]
        compare := if (s.placed this t).head? = some this then t else s.compare } := by
  have hlist : insertBeforeNode s.list (s.list.find? fun ptr => decide (t <
      ({ s with
        completions := Function.update s.completions this
          { s.completions this with eventTimeTicks := t } } : System κ).ticks ptr)) this =
      s.placed this t := by
    rw [placed, ← insertBeforeNode_eq hthis]
    congr 1
    refine List.find?_congr fun c hc => decide_eq_decide.mpr ?_
    have hsame := Function.update_of_ne (ne_of_mem_of_not_mem hc hthis)
      { s.completions this with eventTimeTicks := t } s.completions
    exact iff_of_eq (congrArg (t < ·) (congrArg Completion.eventTimeTicks hsame))
  unfold enqueueTicks unlinkContinuation
  dsimp only at hlist ⊢
  rw [hlist]
  split <;> rfl

omit [DecidableEq κ] in
theorem placed_perm : (s.placed this t).Perm (this :: s.list) := List.perm_orderedInsert _ _ _

omit [DecidableEq κ] in
theorem head?_placed (s : System κ) (this : κ) (t : Nat) : (s.placed this t).head? = some this ∨
    (s.placed this t).head? = s.list.head? ∧ s.list ≠ [] := by
  unfold placed
  cases s.list with
  | nil => exact Or.inl rfl
  | cons b l =>
    rw [List.orderedInsert_cons]
    by_cases hb : decide (t < s.ticks b) = true
    · exact Or.inl (by rw [if_pos hb]; rfl)
    · exact Or.inr ⟨by rw [if_neg hb]; rfl, List.cons_ne_nil b l⟩

theorem enqueueTicks_ticks_self (hthis : this ∉ s.list) : (s.enqueueTicks this t).ticks this = t := by
  rw [enqueueTicks_eq hthis, ticks]
  dsimp only
  rw [Function.update_self]

theorem enqueueTicks_ticks_of_ne (hthis : this ∉ s.list) {c : κ} (hc : c ≠ this) :
    (s.enqueueTicks this t).ticks c = s.ticks c := by
  rw [enqueueTicks_eq hthis, ticks]
  dsimp only
  rw [Function.update_of_ne hc]
  rfl

theorem enqueueTicks_enqueuedAt_self (hthis : this ∉ s.list) :
    (s.enqueueTicks this t).enqueuedAt this = s.history.length := by
  rw [enqueueTicks_eq hthis]
  exact Function.update_self _ _ _

theorem enqueueTicks_enqueuedAt_of_ne (hthis : this ∉ s.list) {c : κ} (hc : c ≠ this) :
    (s.enqueueTicks this t).enqueuedAt c = s.enqueuedAt c := by
  rw [enqueueTicks_eq hthis]
  exact Function.update_of_ne hc _ _

theorem enqueueTicks_sorted (hs : s.Inv) (hthis : this ∉ s.list) :
    (s.placed this t).Pairwise (s.enqueueTicks this t).Before := by
  have hne : ∀ {b}, b ∈ s.list → b ≠ this := fun hb => ne_of_mem_of_not_mem hb hthis
  have hsame : ∀ b ∈ s.list, ∀ c ∈ s.list, s.Before b c → (s.enqueueTicks this t).Before b c := by
    intro b hb c hc h
    rwa [Before, enqueueTicks_ticks_of_ne hthis (hne hb), enqueueTicks_ticks_of_ne hthis (hne hc),
      enqueueTicks_enqueuedAt_of_ne hthis (hne hb), enqueueTicks_enqueuedAt_of_ne hthis (hne hc)]
  refine pairwise_orderedInsert ?_ ?_ ?_
    (hs.sorted.imp_of_mem fun hb hc h => hsame _ hb _ hc h)
  · intro b hb hyields
    refine Or.inl ?_
    rw [enqueueTicks_ticks_self hthis, enqueueTicks_ticks_of_ne hthis (hne hb)]
    exact of_decide_eq_true hyields
  · intro b hb hserved
    rw [Before, enqueueTicks_ticks_self hthis, enqueueTicks_ticks_of_ne hthis (hne hb),
      enqueueTicks_enqueuedAt_self hthis,
      enqueueTicks_enqueuedAt_of_ne hthis (hne hb)]
    have hle : s.ticks b ≤ t := Nat.le_of_not_lt fun h => hserved (decide_eq_true h)
    rcases Nat.lt_or_eq_of_le hle with hlt | heq
    · exact Or.inl hlt
    · exact Or.inr ⟨heq, hs.recorded b hb⟩
  · intro b hb c hc hbefore hyields
    rw [Before, enqueueTicks_ticks_of_ne hthis (hne hb),
      enqueueTicks_ticks_of_ne hthis (hne hc)] at hbefore
    have hlt := of_decide_eq_true hyields
    refine decide_eq_true ?_
    rcases hbefore with h | ⟨h, -⟩
    · exact lt_trans hlt h
    · exact h ▸ hlt

theorem enqueueTicks_settledOnce (hs : s.Inv) (hthis : this ∉ s.list) :
    (s.enqueueTicks this t).SettledOnce := by
  intro c
  have hold := hs.settledOnce c
  rw [enqueueTicks_eq hthis]
  simp only [List.countP_append, List.countP_singleton, Mark.isEnqueued, Mark.isExecuted,
    Mark.isAborted, placed_perm.mem_iff, List.mem_cons]
  by_cases hc : c = this
  · subst hc
    simp [hold, hthis]
  · simp [hold, hc, Ne.symm hc]

theorem enqueueTicks_continued (hs : s.Inv) (hthis : this ∉ s.list) :
    (s.enqueueTicks this t).Continued := by
  obtain ⟨hunlinked, hfree⟩ := hs.continued.unlink this
  rw [enqueueTicks_eq hthis]
  refine ⟨hunlinked.nodup, fun c hc => ?_, fun c => ?_⟩
  · rcases List.mem_cons.mp (placed_perm.mem_iff.mp hc) with rfl | hc
    · exact hfree
    · exact hunlinked.apart c hc
  · simp only [List.countP_append, List.countP_singleton, Mark.isExecuted, Bool.false_eq_true, if_false]
    exact hunlinked.handedOver c

theorem Inv.enqueueTicks (hs : s.Inv) (hthis : this ∉ s.list) : (s.enqueueTicks this t).Inv := by
  have hlist : (s.enqueueTicks this t).list = s.placed this t := by rw [enqueueTicks_eq hthis]
  have hhistory : (s.enqueueTicks this t).history = s.history ++ [.enqueued this] := by
    rw [enqueueTicks_eq hthis]
  have hcompare : (s.enqueueTicks this t).compare =
      if (s.placed this t).head? = some this then t else s.compare := by
    rw [enqueueTicks_eq hthis]
  have hsleep : (s.enqueueTicks this t).sleep = s.sleep := by rw [enqueueTicks_eq hthis]
  -- the first completion is the new one, or the one it was
  have hfirst : ∀ ptr ∈ s.list.head?, (s.placed this t).head? = s.list.head? →
      (s.placed this t).head? ≠ some this ∧ (s.enqueueTicks this t).ticks ptr = s.ticks ptr := by
    intro ptr hptr hhead
    have hne := ne_of_mem_of_not_mem (List.mem_of_mem_head? hptr) hthis
    refine ⟨fun h => hne ?_, enqueueTicks_ticks_of_ne hthis hne⟩
    rw [hhead, Option.mem_def.mp hptr] at h
    exact Option.some.inj h
  refine ⟨?_, hlist ▸ enqueueTicks_sorted hs hthis, ?_, ?_, enqueueTicks_settledOnce hs hthis,
    enqueueTicks_continued hs hthis, ?_, ?_⟩
  · rw [hlist, placed_perm.nodup_iff]
    exact List.nodup_cons.mpr ⟨hthis, hs.nodup⟩
  · intro c hc
    rw [hlist, placed_perm.mem_iff, List.mem_cons] at hc
    rw [hhistory, List.length_append, List.length_singleton]
    rcases hc with rfl | hc
    · rw [enqueueTicks_enqueuedAt_self hthis]
      exact Nat.lt_succ_self _
    · rw [enqueueTicks_enqueuedAt_of_ne hthis (ne_of_mem_of_not_mem hc hthis)]
      exact Nat.lt_succ_of_lt (hs.recorded c hc)
  · intro c e n h
    rw [hhistory, List.mem_append, List.mem_singleton] at h
    rcases h with h | h
    · exact hs.notEarly c e n h
    · exact absurd h (by simp)
  · intro ptr hptr
    rw [hlist] at hptr
    rw [hcompare]
    rcases head?_placed s this t with hhead | ⟨hhead, -⟩
    · rw [if_pos hhead]
      rw [hhead, Option.mem_some_iff] at hptr
      rw [← hptr, enqueueTicks_ticks_self hthis]
    · rw [hhead] at hptr
      obtain ⟨hnot, hticks⟩ := hfirst ptr hptr hhead
      rw [if_neg hnot, hticks]
      exact hs.armed ptr hptr
  · intro hstate
    rw [hsleep] at hstate
    rw [hcompare, due, firstTicks, hlist]
    rcases head?_placed s this t with hhead | ⟨hhead, hne⟩
    · rw [if_pos hhead, hhead]
      exact (enqueueTicks_ticks_self hthis).symm
    · obtain ⟨ptr, hptr⟩ := Option.isSome_iff_exists.mp (List.isSome_head?.mpr hne)
      obtain ⟨hnot, hticks⟩ := hfirst ptr hptr hhead
      rw [if_neg hnot, hs.settled hstate, due, firstTicks, hhead, hptr]
      exact hticks.symm

end EnqueueTicks

/-! ### Events that leave the list alone -/

theorem Inv.of_same {s' : System κ} (hs : s.Inv) (hcompletions : s'.completions = s.completions)
    (hlist : s'.list = s.list) (hhistory : s'.history = s.history)
    (henqueued : s'.enqueuedAt = s.enqueuedAt) (hcontinued : s'.Continued)
    (harmed : ∀ ptr ∈ s.list.head?, s'.compare ≤ s.ticks ptr)
    (hsettled : (∀ state ∈ s'.sleep, (state.resetCompare || state.nilCompare) = false) →
      s'.compare = s.due) : s'.Inv := by
  have hticks : s'.ticks = s.ticks := by
    unfold ticks
    rw [hcompletions]
  have hbefore : s'.Before = s.Before := by
    unfold Before
    rw [hticks, henqueued]
  have hdue : s'.due = s.due := by
    unfold due firstTicks
    rw [hlist, hticks]
  refine ⟨hlist ▸ hs.nodup, by rw [hlist, hbefore]; exact hs.sorted, ?_, ?_, ?_, hcontinued, ?_, ?_⟩
  · rw [hlist, hhistory, henqueued]
    exact hs.recorded
  · rw [NotEarly, hhistory]
    exact hs.notEarly
  · rw [SettledOnce, hhistory, hlist]
    exact hs.settledOnce
  · rw [hlist, hticks]
    exact harmed
  · rw [hdue]
    exact hsettled

theorem Inv.clock (hs : s.Inv) (ticks : Nat) :
    ({ s with currentTicks := s.currentTicks + ticks } : System κ).Inv :=
  hs.of_same rfl rfl rfl rfl ⟨hs.continued.nodup, hs.continued.apart, hs.continued.handedOver⟩
    hs.armed hs.settled

theorem Inv.dequeueContinuation (hs : s.Inv) : s.dequeueContinuation.Inv := by
  have hcontinued := hs.continued.dequeueContinuation
  unfold System.dequeueContinuation at hcontinued ⊢
  split
  · exact hs
  · rename_i hcons
    rw [hcons] at hcontinued
    exact hs.of_same rfl rfl rfl rfl hcontinued hs.armed hs.settled

theorem Inv.sleepUntil (hs : s.Inv) (hawake : s.sleep = none) (expire : Nat) :
    (s.sleepUntil expire).Inv := by
  obtain ⟨hnodup, hapart, hhanded⟩ := hs.continued
  have hdue : s.compare = s.due := hs.settled (by rw [hawake]; simp)
  rcases hlist : s.list with _ | ⟨ptr, rest⟩
  · have heq : s.sleepUntil expire =
        { s with sleep := some ⟨true, false, true⟩, compare := expire } := by
      simp only [System.sleepUntil, hlist, setCompare, if_true]
    rw [heq]
    exact hs.of_same rfl rfl rfl rfl ⟨hnodup, hapart, hhanded⟩ (by rw [hlist]; simp) (by simp)
  · by_cases hlater : s.ticks ptr > expire
    · have heq : s.sleepUntil expire =
          { s with sleep := some ⟨true, true, false⟩, compare := expire } := by
        simp only [System.sleepUntil, hlist, if_pos hlater, setCompare, if_true]
      rw [heq]
      refine hs.of_same rfl rfl rfl rfl ⟨hnodup, hapart, hhanded⟩ ?_ (by simp)
      rw [hlist]
      rintro _ ⟨⟩
      exact hlater.le
    · have heq : s.sleepUntil expire = { s with sleep := some ⟨false, false, false⟩ } := by
        simp only [System.sleepUntil, hlist, if_neg hlater, Bool.false_eq_true, if_false]
      rw [heq]
      exact hs.of_same rfl rfl rfl rfl ⟨hnodup, hapart, hhanded⟩ hs.armed fun _ => hdue

variable {state : SleepState}

omit [DecidableEq κ] in
theorem wake_compare (h : (state.resetCompare || state.nilCompare) = true) :
    (s.wake state).compare =
      if state.resetCompare then s.nodeTicks s.list.head? else HAL_Completion_IdleValue := by
  rw [wake, if_pos h]
  rfl

theorem wake_compare_eq_due_iff (hs : s.Inv) (hstate : s.sleep = some state) :
    (s.wake state).compare = s.due ↔ s.Sound .wake := by
  have hsound : s.Sound .wake ↔
      if state.resetCompare then s.list = [] → s.tailTicks = HAL_Completion_IdleValue
      else if state.nilCompare then ∀ ptr ∈ s.list.head?, s.ticks ptr = HAL_Completion_IdleValue
      else True := by
    rw [Sound, hstate]
    simp only [Option.mem_some_iff, forall_eq']
  rw [hsound]
  by_cases hreset : state.resetCompare = true
  · rw [wake_compare (by rw [hreset]; rfl), if_pos hreset, if_pos hreset, due, firstTicks]
    cases s.list with
    | nil => simp [nodeTicks]
    | cons ptr rest => simp [nodeTicks]
  · rw [if_neg hreset]
    by_cases hnil : state.nilCompare = true
    · rw [wake_compare (by rw [hnil, Bool.or_true]), if_neg hreset, if_pos hnil, due, firstTicks]
      cases s.list with
      | nil => simp
      | cons ptr rest => simpa using eq_comm
    · rw [if_neg hnil, iff_true]
      have hkeep : (state.resetCompare || state.nilCompare) = false := by simp [hreset, hnil]
      rw [wake, if_neg (by rw [hkeep]; exact Bool.false_ne_true)]
      exact hs.settled (by rw [hstate]; simpa using hkeep)

theorem Inv.wake (hs : s.Inv) (hstate : s.sleep = some state)
    (hsound : s.Sound .wake) : (s.wake state).Inv := by
  have hdue := (wake_compare_eq_due_iff hs hstate).mpr hsound
  have harmed : ∀ ptr ∈ s.list.head?, (s.wake state).compare ≤ s.ticks ptr := by
    intro ptr hptr
    rw [hdue, due, firstTicks, Option.mem_def.mp hptr]
  obtain ⟨hnodup, hapart, hhanded⟩ := hs.continued
  unfold System.wake at harmed hdue ⊢
  split at harmed <;> rename_i hset
  · rw [if_pos hset] at hdue ⊢
    exact hs.of_same rfl rfl rfl rfl ⟨hnodup, hapart, hhanded⟩ harmed fun _ => hdue
  · rw [if_neg hset] at hdue ⊢
    exact hs.of_same rfl rfl rfl rfl ⟨hnodup, hapart, hhanded⟩ harmed fun _ => hdue

/-! ### `Abort` -/

theorem abort_eq (s : System κ) (this : κ) :
    s.abort this =
      { s with
        list := s.list.filter (· ≠ this)
        continuations := s.continuations.filter (· ≠ this)
        dropped := if this ∈ s.continuations then this :: s.dropped else s.dropped
        history := if this ∈ s.list then s.history ++ [.aborted this] else s.history
        compare :=
          if s.list.head? = some this then
            s.firstTicks (s.list.filter (· ≠ this))
          else s.compare } := by
  unfold abort unlinkContinuation
  dsimp only
  split
  · cases s.list.filter (· ≠ this) <;> rfl
  · rfl

theorem head?_filter_ne {l : List κ} {this : κ} (h : l.head? ≠ some this) :
    (l.filter (· ≠ this)).head? = l.head? := by
  cases l with
  | nil => rfl
  | cons ptr rest =>
    have hne : ptr ≠ this := fun h' => h (congrArg some h')
    rw [List.filter_cons, if_pos (decide_eq_true hne)]
    rfl

theorem abort_settledOnce (hs : s.Inv) (this : κ) : (s.abort this).SettledOnce := by
  intro c
  have hold := hs.settledOnce c
  rw [abort_eq]
  dsimp only
  by_cases hmem : this ∈ s.list
  · rw [if_pos hmem]
    simp only [List.countP_append, List.countP_singleton, Mark.isEnqueued, Mark.isExecuted,
      Mark.isAborted, List.mem_filter]
    by_cases hc : c = this
    · subst hc
      simp [hold, hmem]
      omega
    · simp [hold, hc, Ne.symm hc]
  · have hsame : s.list.filter (· ≠ this) = s.list :=
      List.filter_eq_self.mpr fun b hb => decide_eq_true (ne_of_mem_of_not_mem hb hmem)
    rw [if_neg hmem, hsame]
    exact hold

theorem abort_continued (hs : s.Inv) (this : κ) : (s.abort this).Continued := by
  obtain ⟨hunlinked, -⟩ := hs.continued.unlink this
  rw [abort_eq]
  refine ⟨hunlinked.nodup, fun c hc => hunlinked.apart c (List.mem_filter.mp hc).1, fun c => ?_⟩
  dsimp only
  split
  · simp only [List.countP_append, List.countP_singleton, Mark.isExecuted, Bool.false_eq_true, if_false]
    exact hunlinked.handedOver c
  · exact hunlinked.handedOver c

theorem Inv.abort (hs : s.Inv) (this : κ) : (s.abort this).Inv := by
  have hsub : ∀ {c}, c ∈ s.list.filter (· ≠ this) → c ∈ s.list :=
    fun h => (List.mem_filter.mp h).1
  have hlength : s.history.length ≤ (s.abort this).history.length := by
    rw [abort_eq]
    dsimp only
    split
    · rw [List.length_append]
      exact Nat.le_add_right _ _
    · exact le_rfl
  -- a first completion that is aborted leaves the compare value of the next one
  have hfirst : s.list.head? = some this → (s.abort this).compare = (s.abort this).due := by
    intro h
    rw [abort_eq, due]
    exact if_pos h
  have hother : s.list.head? ≠ some this →
      (s.abort this).compare = s.compare ∧ (s.abort this).list.head? = s.list.head? := by
    intro h
    rw [abort_eq]
    exact ⟨if_neg h, head?_filter_ne h⟩
  refine ⟨?_, ?_, ?_, ?_, abort_settledOnce hs this, abort_continued hs this, ?_, ?_⟩
  · rw [abort_eq]
    exact hs.nodup.filter _
  · rw [abort_eq]
    exact hs.sorted.filter _
  · intro c hc
    rw [abort_eq] at hc
    refine lt_of_lt_of_le ?_ hlength
    rw [abort_eq]
    exact hs.recorded c (hsub hc)
  · intro c e n h
    rw [abort_eq] at h
    dsimp only at h
    refine hs.notEarly c e n ?_
    split at h
    · rcases List.mem_append.mp h with h | h
      · exact h
      · simp at h
    · exact h
  · intro ptr hptr
    by_cases h : s.list.head? = some this
    · rw [hfirst h, due, firstTicks, Option.mem_def.mp hptr]
    · obtain ⟨hcompare, hhead⟩ := hother h
      rw [hhead] at hptr
      rw [hcompare, abort_eq]
      exact hs.armed ptr hptr
  · intro hstate
    by_cases h : s.list.head? = some this
    · exact hfirst h
    · obtain ⟨hcompare, hhead⟩ := hother h
      have hsleep : (s.abort this).sleep = s.sleep := by rw [abort_eq]
      rw [hsleep] at hstate
      rw [hcompare, due, firstTicks, hhead, abort_eq]
      exact hs.settled hstate

/-! ### `DequeueAndExec` -/

section DequeueAndExec

variable {ptr : κ} {rest : List κ}

theorem execute_eq (s : System κ) (this : κ) : ∃ continuations called dropped,
    s.execute this =
      { s with
        history := s.history ++ [.executed this (s.ticks this) s.currentTicks]
        continuations
        called
        dropped } := by
  unfold execute enqueueContinuation
  dsimp only
  split
  · exact ⟨_, _, _, rfl⟩
  · split
    · exact ⟨_, _, _, rfl⟩
    · exact ⟨_, _, _, rfl⟩

theorem dequeueAndExec_execute (hlist : s.list = ptr :: rest) : s.dequeueAndExec =
    ({ s with
      systemTimer := true
      list := rest
      compare := s.firstTicks rest } : System κ).execute ptr := by
  unfold dequeueAndExec
  split
  · rename_i hnil
    exact absurd (hnil.symm.trans hlist) (by simp)
  · rename_i ptr' rest' hcons
    obtain ⟨rfl, rfl⟩ := List.cons.inj (hcons.symm.trans hlist)
    cases rest' <;> rfl

theorem dequeueAndExec_eq (hlist : s.list = ptr :: rest) : ∃ continuations called dropped,
    s.dequeueAndExec =
      { s with
        systemTimer := true
        list := rest
        continuations
        called
        dropped
        history := s.history ++ [.executed ptr (s.ticks ptr) s.currentTicks]
        compare := s.firstTicks rest } := by
  rw [dequeueAndExec_execute hlist]
  exact execute_eq _ ptr

theorem Inv.dequeueAndExec (hs : s.Inv) (hlist : s.list = ptr :: rest)
    (hdue : s.ticks ptr ≤ s.currentTicks) : s.dequeueAndExec.Inv := by
  have hnodup := List.nodup_cons.mp (hlist ▸ hs.nodup)
  have hcontinued : s.dequeueAndExec.Continued := by
    obtain ⟨hdistinct, hapart, hhanded⟩ := hs.continued
    rw [hlist] at hapart
    rw [dequeueAndExec_execute hlist]
    exact Continued.execute ⟨hdistinct, fun c hc => hapart c (List.mem_cons_of_mem ptr hc), hhanded⟩
      hnodup.1 (hapart ptr List.mem_cons_self)
  obtain ⟨continuations, called, dropped, heq⟩ := dequeueAndExec_eq hlist
  rw [heq] at hcontinued ⊢
  have hcompare : ∀ ptr ∈ rest.head?, s.firstTicks rest ≤ s.ticks ptr := by
    intro ptr hptr
    rw [firstTicks, Option.mem_def.mp hptr]
  refine ⟨hnodup.2, (List.pairwise_cons.mp (hlist ▸ hs.sorted)).2, ?_, ?_, ?_, hcontinued, hcompare,
    ?_⟩
  · intro c hc
    rw [List.length_append]
    exact Nat.lt_add_right _ (hs.recorded c (hlist ▸ List.mem_cons_of_mem ptr hc))
  · intro c e n h
    rcases List.mem_append.mp h with h | h
    · exact hs.notEarly c e n h
    · simp only [List.mem_singleton, Mark.executed.injEq] at h
      obtain ⟨-, rfl, rfl⟩ := h
      exact hdue
  · intro c
    have hold := hs.settledOnce c
    rw [hlist] at hold
    simp only [List.countP_append, List.countP_singleton, Mark.isEnqueued, Mark.isExecuted,
      Mark.isAborted]
    by_cases hc : c = ptr
    · subst hc
      simp [hold, hnodup.1]
      omega
    · simp [hold, hc, Ne.symm hc]
  · exact fun _ => rfl

end DequeueAndExec

end System

end TinyClr.Completions
