import TinyClr.Core.Scheduler
import TinyClr.Library.OrderedInsert
import TinyClr.Library.Runs
import Mathlib.Tactic.Linarith

/-!
# The order of the ready list

The ready list without the running thread is sorted: a thread stands before every thread with a
lower counter and, among equals, before the ones inserted later.  An insertion keeps this exactly
when its search is not stopped by the running thread, which keeps its place with a counter that
has been debited; a renormalisation keeps it exactly when no thread that is clamped loses its
place.
-/

namespace TinyClr.ExecutionEngine

open TinyClr.Library

/-! ### The invariant -/

def Before (th th' : Thread) : Prop :=
  th'.getExecutionCounter < th.getExecutionCounter ∨
    th'.getExecutionCounter = th.getExecutionCounter ∧ th.insertedAt < th'.insertedAt

def Engine.idle (s : Engine) (th : Thread) : Bool := s.running ≠ some th.pid

structure Settled (s : Engine) : Prop where
  ordered : (s.threadsReady.filter s.idle).Pairwise Before
  stamped : ∀ th ∈ s.threadsReady, th.insertedAt < s.clock

variable {s : Engine}

theorem Settled.threadsReady (h : Settled s) (hidle : s.running = none) :
    s.threadsReady.Pairwise Before := by
  have hall : s.threadsReady.filter s.idle = s.threadsReady := by
    refine List.filter_eq_self.mpr fun th _ => ?_
    rw [Engine.idle, hidle]
    rfl
  have hordered := h.ordered
  rwa [hall] at hordered

theorem settled_initial : Settled Engine.initial :=
  ⟨List.Pairwise.nil, fun _ h => absurd h List.not_mem_nil⟩

/-! ### Conditions on a step -/

/-- The search for the place of `th` in the ready list is not stopped by the running thread where
    the thread behind that one would not stop it. -/
def InsertsCleanly (s : Engine) (th : Thread) : Prop :=
  th.status = .ready → th.suspended = false → s.running ≠ some th.pid →
    Undisturbed Goes s.idle th (s.unlink th.pid).threadsReady

/-- `th` keeps its place before `th'` in a renormalisation: it is not clamped, or not below
    `th'`. -/
def KeepsPlace (globalExecutionCounter : Int) (th th' : Thread) : Prop :=
  let limit := th.priority.val + (globalExecutionCounter + maxCredit)
  th.executionCounter ≤ globalExecutionCounter + maxCredit ∨
    th'.getExecutionCounter < limit ∨ th'.priority < th.priority ∨
    (th'.getExecutionCounter = limit ∨ th'.priority = th.priority) ∧
      th.insertedAt < th'.insertedAt

def RenormalisesCleanly (s : Engine) : Prop :=
  s.globalExecutionCounter < -EXECUTION_COUNTER_MAXIMUM →
    s.threadsReady.Pairwise (KeepsPlace s.globalExecutionCounter)

def Clean (s : Engine) (e : Event) : Prop :=
  match e with
  | .schedule _ => RenormalisesCleanly s
  | .newThread _ _ _ _ => ∀ th, e.put s = some th → InsertsCleanly s th
  | .pushThreadProcDelegate _ => ∀ th, e.put s = some th → InsertsCleanly s th
  | .restart _ _ => ∀ th, e.put s = some th → InsertsCleanly s th
  | .resume _ => ∀ th, e.put s = some th → InsertsCleanly s th
  | _ => True

/-! ### Linking a thread -/

theorem settled_unlink (h : Settled s) (pid : Nat) : Settled (s.unlink pid) := by
  refine ⟨?_, fun th hth => h.stamped th (List.mem_filter.mp hth).1⟩
  have hsub : ((s.unlink pid).threadsReady.filter s.idle).Sublist
      (s.threadsReady.filter s.idle) := List.filter_sublist.filter _
  exact h.ordered.sublist hsub

theorem ordered_insert_iff (h : Settled s) (th : Thread)
    (hidle : s.idle th = true) :
    ((s.insertThreadRoundRobin th).threadsReady.filter s.idle).Pairwise Before ↔
      Undisturbed Goes s.idle th s.threadsReady := by
  have hbefore : ∀ (th' : Thread), th'.insertedAt < s.clock →
      ¬ th'.getExecutionCounter < th.getExecutionCounter →
      Before th' { th with
        waitForEvents := 0, waitForEvents_Timeout := TIMEOUT_INFINITE, insertedAt := s.clock } := by
    intro th' hstamp hnot
    rcases Int.lt_or_eq_of_le (Int.not_lt.mp hnot) with hlt | heq
    · exact Or.inl hlt
    · exact Or.inr ⟨heq, hstamp⟩
  refine pairwise_filter_orderedInsert_iff (r := Goes) (s := Before) (l := s.threadsReady)
    (a := { th with
      waitForEvents := 0, waitForEvents_Timeout := TIMEOUT_INFINITE, insertedAt := s.clock })
    hidle (fun th' _ hgoes => Or.inl hgoes)
    (fun th' hmem hnot => hbefore th' (h.stamped th' hmem) hnot)
    (fun th' hmem hnot hserved => ?_) (fun th' _ th'' _ hserved hgoes => ?_) h.ordered
  · rcases hserved with hlt | ⟨_, hlt⟩
    · exact hnot hlt
    · exact absurd (h.stamped th' hmem) (Nat.lt_asymm hlt)
  · rcases hserved with hlt | ⟨heq, _⟩
    · exact Int.lt_trans hlt hgoes
    · exact lt_of_eq_of_lt heq hgoes

theorem stamped_insert (h : Settled s) (th : Thread) :
    ∀ th' ∈ (s.insertThreadRoundRobin th).threadsReady,
      th'.insertedAt < (s.insertThreadRoundRobin th).clock := by
  intro th' hmem
  rcases (List.mem_orderedInsert Goes).mp hmem with rfl | hmem
  · exact Nat.lt_succ_self s.clock
  · exact Nat.lt_succ_of_lt (h.stamped th' hmem)

variable {th : Thread}

theorem settled_link (h : Settled s) (hidle : s.idle th = true)
    (hclean : th.status = .ready → th.suspended = false →
      Undisturbed Goes s.idle th s.threadsReady) : Settled (s.link th) := by
  rw [Engine.link]
  cases hstatus : th.status with
  | ready =>
    by_cases hsuspended : th.suspended = true
    · simp only [if_pos hsuspended]
      exact ⟨h.ordered, h.stamped⟩
    · simp only [if_neg hsuspended]
      exact ⟨(ordered_insert_iff h th hidle).mpr
        (hclean hstatus (Bool.not_eq_true _ ▸ hsuspended)), stamped_insert h th⟩
  | waiting => exact ⟨h.ordered, h.stamped⟩
  | terminated => exact ⟨h.ordered, h.stamped⟩
  | unstarted => exact ⟨h.ordered, h.stamped⟩

theorem undisturbed_of_forall {threads : List Thread}
    (hall : ∀ th' ∈ threads, s.idle th' = true) : Undisturbed Goes s.idle th threads := by
  intro front t back hl ht
  have hmem : t ∈ threads := by
    rw [hl]
    exact List.mem_append_right _ List.mem_cons_self
  rw [hall t hmem] at ht
  exact absurd ht (by decide)

variable {pid : Nat}

theorem mem_unlink
    (h : th ∈ (s.unlink pid).threadsReady) : th.pid ≠ pid := by
  have hne := (List.mem_filter.mp h).2
  exact of_decide_eq_true hne

theorem settled_unlink_running (h : Settled s)
    (hrunning : s.running = some pid) : Settled { s.unlink pid with running := none } := by
  have hunlinked := settled_unlink h pid
  refine ⟨?_, hunlinked.stamped⟩
  have hall : (s.unlink pid).threadsReady.filter (s.unlink pid).idle =
      (s.unlink pid).threadsReady := by
    refine List.filter_eq_self.mpr fun th hth => decide_eq_true ?_
    rw [show (s.unlink pid).running = some pid from hrunning]
    exact fun heq => mem_unlink hth (Option.some.inj heq).symm
  have hordered := hunlinked.ordered
  rw [hall] at hordered
  exact hordered.sublist List.filter_sublist

theorem settled_put_finished (h : Settled s)
    (hrunning : s.running = some th.pid) :
    Settled { s.putInProperList th with running := none } := by
  have hlinked : Settled (Engine.link { s.unlink th.pid with running := none } th) :=
    settled_link (settled_unlink_running h hrunning) rfl
      (fun _ _ => undisturbed_of_forall fun _ _ => rfl)
  have hcomm : { s.putInProperList th with running := none } =
      Engine.link { s.unlink th.pid with running := none } th := by
    rw [Engine.putInProperList, Engine.link, Engine.link]
    cases th.status with
    | ready => by_cases hsuspended : th.suspended = true <;> simp only [hsuspended] <;> rfl
    | waiting => rfl
    | terminated => rfl
    | unstarted => rfl
  rwa [hcomm]

theorem settled_link_running (h : Settled s)
    (hrunning : s.idle th = false) : Settled (s.link th) := by
  rw [Engine.link]
  cases th.status with
  | ready =>
    by_cases hsuspended : th.suspended = true
    · simp only [if_pos hsuspended]
      exact ⟨h.ordered, h.stamped⟩
    · simp only [if_neg hsuspended]
      refine ⟨?_, stamped_insert h th⟩
      have hsame : (s.insertThreadRoundRobin th).threadsReady.filter s.idle =
          s.threadsReady.filter s.idle := filter_orderedInsert_of_neg hrunning
      exact hsame ▸ h.ordered
  | waiting => exact ⟨h.ordered, h.stamped⟩
  | terminated => exact ⟨h.ordered, h.stamped⟩
  | unstarted => exact ⟨h.ordered, h.stamped⟩

theorem settled_put (h : Settled s) (hclean : InsertsCleanly s th) :
    Settled (s.putInProperList th) := by
  have hunlinked := settled_unlink h th.pid
  by_cases hrunning : s.running = some th.pid
  · exact settled_link_running hunlinked (decide_eq_false (not_not_intro hrunning))
  · exact settled_link hunlinked (decide_eq_true hrunning)
      fun hready hawake => hclean hready hawake hrunning

theorem insertsCleanly_put (hclean : InsertsCleanly s th) :
    InsertsCleanly (s.putInProperList th) th := by
  intro hready hawake hrunning
  have hput : s.putInProperList th = (s.unlink th.pid).insertThreadRoundRobin th := by
    rw [Engine.putInProperList, Engine.link, hready]
    simp only [hawake, Bool.false_eq_true, if_false]
  rw [hput] at hrunning ⊢
  have hold := hclean hready hawake hrunning
  have hsame : (((s.unlink th.pid).insertThreadRoundRobin th).unlink th.pid).threadsReady =
      (s.unlink th.pid).threadsReady := by
    have hdrop : ((s.unlink th.pid).insertThreadRoundRobin th).threadsReady.filter
        (·.pid ≠ th.pid) = (s.unlink th.pid).threadsReady.filter (·.pid ≠ th.pid) :=
      filter_orderedInsert_of_neg (decide_eq_false (not_not_intro rfl))
    refine hdrop.trans (List.filter_eq_self.mpr fun th' hth' => decide_eq_true (mem_unlink hth'))
  rw [hsame]
  exact hold

/-! ### Changing a thread in place -/

theorem settled_change (h : Settled s) (pid : Nat) {f : Thread → Thread}
    (hpid : ∀ th, (f th).pid = th.pid) (hstamp : ∀ th, (f th).insertedAt = th.insertedAt)
    (hcounter : s.running = some pid ∨
      ∀ th, (f th).getExecutionCounter = th.getExecutionCounter) :
    Settled (s.change pid f) := by
  have hpid' : ∀ th, (changeThread pid f th).pid = th.pid := by
    intro th
    rw [changeThread]
    split_ifs
    · exact hpid th
    · rfl
  have hstamp' : ∀ th, (changeThread pid f th).insertedAt = th.insertedAt := by
    intro th
    rw [changeThread]
    split_ifs
    · exact hstamp th
    · rfl
  have hcounter' : ∀ th, s.idle th = true →
      (changeThread pid f th).getExecutionCounter = th.getExecutionCounter := by
    intro th hidle
    rw [changeThread]
    split_ifs with heq
    · rcases hcounter with hrunning | hsame
      · exact absurd (heq ▸ hrunning) (of_decide_eq_true hidle)
      · exact hsame th
    · rfl
  refine ⟨?_, fun th hth => ?_⟩
  · have hidle : s.idle ∘ changeThread pid f = s.idle := by
      funext th
      simp only [Function.comp_apply, Engine.idle, hpid']
    have hfilter : (s.change pid f).threadsReady.filter s.idle =
        (s.threadsReady.filter s.idle).map (changeThread pid f) := by
      rw [Engine.change, List.filter_map, hidle]
    change ((s.change pid f).threadsReady.filter s.idle).Pairwise Before
    rw [hfilter, List.pairwise_map]
    refine h.ordered.imp_of_mem fun {th th'} hth hth' hbefore => ?_
    rw [Before, hcounter' th (List.mem_filter.mp hth).2, hcounter' th' (List.mem_filter.mp hth').2,
      hstamp', hstamp']
    exact hbefore
  · obtain ⟨th', hth', rfl⟩ := List.mem_map.mp hth
    rw [hstamp']
    exact h.stamped th' hth'

/-! ### Renormalising and selecting -/

theorem adjust_counter (g v : Int) (th : Thread) :
    (th.adjust (g + v) v).executionCounter = min th.executionCounter (g + maxCredit) + v := by
  rw [Thread.adjust, Thread.bringExecCounterToDate]
  split_ifs with hahead
  · simp only at hahead ⊢
    omega
  · simp only at hahead ⊢
    omega

theorem bringExecCounterToDate_eq (th : Thread) (g : Int) :
    th.bringExecCounterToDate g =
      { th with executionCounter := (th.bringExecCounterToDate g).executionCounter } := by
  rw [Thread.bringExecCounterToDate]
  split_ifs <;> rfl

theorem adjust_eq (g v : Int) (th : Thread) :
    th.adjust g v = { th with executionCounter := (th.adjust g v).executionCounter } := by
  rw [Thread.adjust, bringExecCounterToDate_eq]

theorem before_adjust {g v : Int} {th' : Thread} (hbefore : Before th th')
    (hkeeps : KeepsPlace g th th') : Before (th.adjust (g + v) v) (th'.adjust (g + v) v) := by
  have hcounter := adjust_counter g v th
  have hcounter' := adjust_counter g v th'
  rw [adjust_eq (g + v) v th, adjust_eq (g + v) v th', hcounter, hcounter']
  simp only [Before, KeepsPlace, Thread.getExecutionCounter, Fin.lt_def, Fin.ext_iff]
    at hbefore hkeeps ⊢
  omega

theorem settled_renormalise (h : Settled s) (hidle : s.running = none)
    (hclean : RenormalisesCleanly s) : Settled s.renormalise := by
  rw [Engine.renormalise]
  split_ifs with hlow
  · have hordered := (h.threadsReady hidle).and (hclean hlow)
    refine ⟨?_, fun th hth => ?_⟩
    · refine List.Pairwise.sublist List.filter_sublist (List.pairwise_map.mpr ?_)
      exact hordered.imp fun hboth => before_adjust hboth.1 hboth.2
    · obtain ⟨th', hth', rfl⟩ := List.mem_map.mp hth
      rw [adjust_eq]
      exact h.stamped th' hth'
  · exact h

theorem debit_eq (g : Int) (th : Thread) :
    th.debit g = { th with executionCounter := (th.debit g).executionCounter } := by
  rw [Thread.debit, bringExecCounterToDate_eq]

theorem settled_select (h : Settled s) (hidle : s.running = none) :
    Settled s.select.1 := by
  rw [Engine.select]
  cases hready : s.threadsReady with
  | nil => exact ⟨List.Pairwise.nil, fun _ hth => absurd hth List.not_mem_nil⟩
  | cons th threads =>
    have hrest := (List.pairwise_cons.mp (hready ▸ h.threadsReady hidle)).2
    have hstamps := fun th' hth' => h.stamped th' (hready ▸ hth')
    refine ⟨?_, fun th' hth' => ?_⟩
    · rw [List.filter_cons_of_neg]
      · exact hrest.sublist List.filter_sublist
      · rw [Engine.idle, debit_eq]
        simp
    · rcases List.mem_cons.mp hth' with rfl | hth'
      · rw [debit_eq]
        exact hstamps th List.mem_cons_self
      · exact hstamps th' (List.mem_cons_of_mem th hth')

theorem select_greatest (h : Settled s) (hidle : s.running = none)
    (hselect : s.select.2 = some th) :
    ∀ th' ∈ s.threadsReady, th'.getExecutionCounter ≤ th.getExecutionCounter := by
  have hordered := h.threadsReady hidle
  rw [Engine.select] at hselect
  cases hready : s.threadsReady with
  | nil => exact fun th' hth' => absurd hth' List.not_mem_nil
  | cons first threads =>
    simp only [hready, Option.some.injEq] at hselect
    subst hselect
    rw [hready] at hordered
    intro th' hth'
    rcases List.mem_cons.mp hth' with rfl | hth'
    · exact Int.le_refl _
    · rcases (List.pairwise_cons.mp hordered).1 th' hth' with hlt | ⟨heq, _⟩
      · exact Int.le_of_lt hlt
      · exact Int.le_of_eq heq

/-! ### Runs -/

theorem find_pid (h : s.find pid = some th) :
    th.pid = pid := by
  have hfound := List.find?_some h
  exact of_decide_eq_true hfound

theorem settled_putting {s' : Engine} {e : Event} {r : Option Thread} (h : Settled s)
    (hclean : ∀ th, e.put s = some th → InsertsCleanly s th)
    (hstep : ((e.put s).map fun th => (s.putInProperList th, (none : Option Thread))) =
      some (s', r)) : Settled s' := by
  obtain ⟨th, hth, heq⟩ := Option.map_eq_some_iff.mp hstep
  have hs : s.putInProperList th = s' := congrArg Prod.fst heq
  rw [← hs]
  exact settled_put h (hclean th hth)

theorem insertsCleanly_of_ne
    (hne : th.status ≠ .ready ∨ th.suspended = true) : InsertsCleanly s th := by
  intro hready hawake
  rcases hne with hne | hsuspended
  · exact absurd hready hne
  · rw [hsuspended] at hawake
    exact absurd hawake (by decide)

theorem step_settled (s : Engine) (e : Event) (s' : Engine) (r : Option Thread) (h : Settled s)
    (hclean : Clean s e) (hstep : step s e = some (s', r)) : Settled s' := by
  cases e with
  | schedule maxContextSwitch =>
    rw [step] at hstep
    split_ifs at hstep with hidle
    simp only [Option.some.injEq, Prod.mk.injEq] at hstep
    have hrenormalised := settled_renormalise h hidle hclean
    rw [← hstep.1]
    exact ⟨hrenormalised.ordered, hrenormalised.stamped⟩
  | select =>
    rw [step] at hstep
    split_ifs at hstep with hidle
    obtain rfl : _ = s' := congrArg Prod.fst (Option.some.inj hstep)
    exact settled_select h hidle.1
  | finish hr =>
    obtain ⟨th, hth, heq⟩ := Option.map_eq_some_iff.mp hstep
    obtain rfl : _ = s' := congrArg Prod.fst heq
    obtain ⟨pid, hrunning, hrest⟩ := Option.bind_eq_some_iff.mp hth
    obtain ⟨found, hfound, hput⟩ := Option.bind_eq_some_iff.mp hrest
    have hpid := find_pid hfound
    refine settled_put_finished h ?_
    rw [hrunning, ← Option.some.inj hput, ← hpid]
  | setStatus status =>
    obtain ⟨pid, hrunning, heq⟩ := Option.map_eq_some_iff.mp hstep
    obtain rfl : _ = s' := congrArg Prod.fst heq
    exact settled_change h pid (fun _ => rfl) (fun _ => rfl) (Or.inl hrunning)
  | updateToLowestExecutionCounter =>
    obtain ⟨pid, hrunning, heq⟩ := Option.map_eq_some_iff.mp hstep
    obtain rfl : _ = s' := congrArg Prod.fst heq
    exact settled_change h pid (fun _ => rfl) (fun _ => rfl) (Or.inl hrunning)
  | newThread pid priority system delegate =>
    obtain ⟨th, hth, heq⟩ := Option.map_eq_some_iff.mp hstep
    obtain rfl : _ = s' := congrArg Prod.fst heq
    have hinserts := hclean th hth
    cases delegate with
    | false => exact settled_put h hinserts
    | true => exact settled_put (settled_put h hinserts) (insertsCleanly_put hinserts)
  | pushThreadProcDelegate pid => exact settled_putting h hclean hstep
  | restart pid fDeleteEvent =>
    obtain ⟨th, hth, heq⟩ := Option.map_eq_some_iff.mp hstep
    obtain rfl : _ = s' := congrArg Prod.fst heq
    have hput := settled_put h (hclean th hth)
    cases fDeleteEvent with
    | false => exact hput
    | true => exact settled_change hput pid (fun _ => rfl) (fun _ => rfl) (Or.inr fun _ => rfl)
  | suspend pid =>
    obtain ⟨th, hfound, hrest⟩ := Option.bind_eq_some_iff.mp hstep
    split_ifs at hrest
    · refine settled_putting h (fun th' hth' => ?_) hrest
      obtain ⟨_, _, heq⟩ := Option.map_eq_some_iff.mp hth'
      rw [← heq]
      exact insertsCleanly_of_ne (Or.inr rfl)
    · obtain rfl : _ = s' := congrArg Prod.fst (Option.some.inj hrest)
      exact h
  | resume pid =>
    obtain ⟨th, hfound, hrest⟩ := Option.bind_eq_some_iff.mp hstep
    split_ifs at hrest
    · exact settled_putting h hclean hrest
    · obtain rfl : _ = s' := congrArg Prod.fst (Option.some.inj hrest)
      exact h
  | terminate pid =>
    refine settled_putting h (fun th' hth' => ?_) hstep
    obtain ⟨_, _, heq⟩ := Option.map_eq_some_iff.mp hth'
    rw [← heq]
    exact insertsCleanly_of_ne (Or.inl fun hready => nomatch hready)
  | release pid =>
    rw [step] at hstep
    split_ifs at hstep
    obtain rfl : _ = s' := congrArg Prod.fst (Option.some.inj hstep)
    exact settled_unlink h pid

/-! ### The range of the counters -/

/-- A counter is not below all others by more than one, nor ahead by more than the credit. -/
def CounterFits (s : Engine) (executionCounter : Int) : Prop :=
  s.globalExecutionCounter - 1 ≤ executionCounter ∧ executionCounter ≤ maxCredit

/-- The counters are far from the ends of the range of `int`.  A call of `ScheduleThreads` lowers
    the global counter by at most 33 a context switch. -/
structure CountersFit (s : Engine) : Prop where
  global_le : s.globalExecutionCounter ≤ 0
  contextSwitches_lt : s.contextSwitches < 2 ^ 16
  le_global : -EXECUTION_COUNTER_MAXIMUM - maxCredit * (2 ^ 16 - 1 - s.contextSwitches) ≤
    s.globalExecutionCounter
  threads : ∀ th ∈ s.threads, CounterFits s th.executionCounter

theorem maxCredit_eq : maxCredit = 33 := rfl

theorem mem_threads :
    th ∈ s.threads ↔ th ∈ s.threadsReady ∨ th ∈ s.threadsWaiting ∨ th ∈ s.threadsZombie := by
  rw [Engine.threads, List.mem_append, List.mem_append, or_assoc]

/-- A change that only touches threads keeps the counters in range if it keeps theirs. -/
theorem CountersFit.of_threads {s' : Engine} (h : CountersFit s)
    (hglobal : s'.globalExecutionCounter = s.globalExecutionCounter)
    (hswitches : s'.contextSwitches = s.contextSwitches)
    (hthreads : ∀ th ∈ s'.threads, CounterFits s th.executionCounter) : CountersFit s' := by
  refine ⟨hglobal ▸ h.global_le, hswitches ▸ h.contextSwitches_lt, ?_, fun th hth => ?_⟩
  · rw [hglobal, hswitches]
    exact h.le_global
  · rw [CounterFits, hglobal]
    exact hthreads th hth

theorem fit_unlink (h : CountersFit s) (pid : Nat) : CountersFit (s.unlink pid) := by
  refine h.of_threads rfl rfl fun th hth => h.threads th ?_
  simp only [mem_threads, Engine.unlink, List.mem_filter] at hth ⊢
  exact hth.imp And.left (Or.imp And.left And.left)

theorem fit_link (h : CountersFit s) (hth : CounterFits s th.executionCounter) :
    CountersFit (s.link th) := by
  have hold := h.threads
  simp only [mem_threads] at hold
  rw [Engine.link]
  cases th.status with
  | ready =>
    split_ifs
    · refine h.of_threads rfl rfl fun th' hth' => ?_
      simp only [mem_threads, List.mem_append, List.mem_singleton] at hth'
      grind
    · refine h.of_threads rfl rfl fun th' hth' => ?_
      simp only [mem_threads, Engine.insertThreadRoundRobin, List.mem_orderedInsert] at hth'
      grind
  | waiting =>
    refine h.of_threads rfl rfl fun th' hth' => ?_
    simp only [mem_threads, List.mem_append, List.mem_singleton] at hth'
    grind
  | terminated =>
    refine h.of_threads rfl rfl fun th' hth' => ?_
    simp only [mem_threads, List.mem_cons, Thread.passivate] at hth'
    grind
  | unstarted =>
    refine h.of_threads rfl rfl fun th' hth' => ?_
    simp only [mem_threads, List.mem_cons] at hth'
    grind

theorem fit_put (h : CountersFit s) (hth : CounterFits s th.executionCounter) :
    CountersFit (s.putInProperList th) := fit_link (fit_unlink h th.pid) hth

theorem fit_change (h : CountersFit s) (pid : Nat) {f : Thread → Thread}
    (hf : ∀ th, CounterFits s th.executionCounter → CounterFits s (f th).executionCounter) :
    CountersFit (s.change pid f) := by
  have hchange : ∀ th, CounterFits s th.executionCounter →
      CounterFits s (changeThread pid f th).executionCounter := by
    intro th hth
    rw [changeThread]
    split_ifs
    · exact hf th hth
    · exact hth
  have hold := h.threads
  refine h.of_threads rfl rfl fun th hth => ?_
  simp only [mem_threads, Engine.change, List.mem_map] at hth hold
  grind

theorem fit_renormalise (h : CountersFit s) (maxContextSwitch : UInt16) :
    CountersFit { s.renormalise with contextSwitches := maxContextSwitch.toNat } := by
  have hlow := h.le_global
  have hswitches := h.contextSwitches_lt
  have hcount : maxContextSwitch.toNat < 2 ^ 16 := maxContextSwitch.toNat_lt
  have hold := h.threads
  rw [maxCredit_eq, show EXECUTION_COUNTER_MAXIMUM = 0x70000000 from rfl] at hlow
  rw [Engine.renormalise]
  split_ifs with hbelow
  · rw [show EXECUTION_COUNTER_MAXIMUM = 0x70000000 from rfl] at hbelow
    refine ⟨?_, hcount, ?_, fun th hth => ?_⟩
    · simp only [EXECUTION_COUNTER_ADJUSTMENT]
      omega
    · simp only [EXECUTION_COUNTER_ADJUSTMENT, EXECUTION_COUNTER_MAXIMUM, maxCredit_eq]
      omega
    · obtain ⟨th', hth', rfl⟩ : ∃ th' ∈ s.threads, th'.adjust
          (s.globalExecutionCounter + EXECUTION_COUNTER_ADJUSTMENT) EXECUTION_COUNTER_ADJUSTMENT =
          th := by
        simp only [mem_threads, List.mem_map] at hth ⊢
        grind
      have hfits := hold th' hth'
      simp only [CounterFits, adjust_counter] at hfits ⊢
      simp only [EXECUTION_COUNTER_ADJUSTMENT, maxCredit_eq] at hfits ⊢
      omega
  · refine ⟨h.global_le, hcount, ?_, hold⟩
    simp only [EXECUTION_COUNTER_MAXIMUM, maxCredit_eq] at hbelow ⊢
    omega

theorem quantumDebit_bounds (th : Thread) : 1 ≤ th.getQuantumDebit ∧ th.getQuantumDebit ≤ 32 := by
  have hall : ∀ p : Fin (System_Highest + 1), (1 : Int) ≤ 1 <<< (System_Highest - p.val) ∧
      (1 : Int) <<< (System_Highest - p.val) ≤ 32 := by decide
  exact hall th.priority

theorem debit_fits {g : Int} (hg : g ≤ 0) (hlow : g - 1 ≤ th.executionCounter) :
    g - maxCredit ≤ (th.debit g).executionCounter ∧ (th.debit g).executionCounter ≤ maxCredit := by
  obtain ⟨hpos, hle⟩ := quantumDebit_bounds (th.bringExecCounterToDate g)
  have hbrought : g - 1 ≤ (th.bringExecCounterToDate g).executionCounter ∧
      (th.bringExecCounterToDate g).executionCounter ≤ g + maxCredit := by
    rw [Thread.bringExecCounterToDate]
    split_ifs with hahead
    · simp only [maxCredit_eq]
      omega
    · omega
  simp only [Thread.debit]
  rw [maxCredit_eq] at hbrought ⊢
  omega

theorem fit_select (h : CountersFit s) (hpositive : 0 < s.contextSwitches) :
    CountersFit s.select.1 := by
  have hlow := h.le_global
  have hswitches := h.contextSwitches_lt
  have hglobal := h.global_le
  have hold := h.threads
  rw [maxCredit_eq] at hlow
  rw [Engine.select]
  cases hready : s.threadsReady with
  | nil =>
    refine ⟨hglobal, Nat.two_pow_pos 16, ?_, fun th hth => hold th ?_⟩
    · simp only [maxCredit_eq]
      omega
    · rw [mem_threads, hready]
      exact mem_threads.mp hth
  | cons first threads =>
    simp only [mem_threads, hready, List.mem_cons] at hold
    have hdebit := debit_fits hglobal (hold first (Or.inl (Or.inl rfl))).1
    rw [maxCredit_eq] at hdebit
    refine ⟨?_, ?_, ?_, fun th hth => ?_⟩
    · simp only
      omega
    · simp only
      omega
    · simp only [maxCredit_eq]
      omega
    · simp only [mem_threads, List.mem_cons] at hth
      simp only [CounterFits, maxCredit_eq] at hold ⊢
      rcases hth with (rfl | hth) | hth
      · omega
      · have hfits := hold th (Or.inl (Or.inr hth))
        omega
      · have hfits := hold th (Or.inr hth)
        omega

theorem putInProperList_global (s : Engine) (th : Thread) :
    (s.putInProperList th).globalExecutionCounter = s.globalExecutionCounter := by
  rw [Engine.putInProperList, Engine.link]
  split <;> first | rfl | (split_ifs <;> rfl)

/-- What is put in a list has a counter in its range. -/
theorem put_fits {e : Event} (h : CountersFit s) (hput : e.put s = some th) :
    CounterFits s th.executionCounter := by
  have hfind : ∀ {pid found}, s.find pid = some found → CounterFits s found.executionCounter :=
    fun hfound => h.threads _ (List.mem_of_find?_eq_some hfound)
  have hzero : CounterFits s 0 := ⟨by have := h.global_le; omega, by decide⟩
  cases e <;> simp only [Event.put, Option.map_eq_some_iff, Option.bind_eq_bind,
    Option.bind_eq_some_iff, reduceCtorEq] at hput
  case newThread pid priority system delegate => grind [Thread.createInstance]
  all_goals grind

/-- Every event keeps the counters in their range. -/
theorem step_fits (s : Engine) (e : Event) (s' : Engine) (r : Option Thread) (h : CountersFit s)
    (hstep : step s e = some (s', r)) : CountersFit s' := by
  have hput : ∀ th, e.put s = some th → CountersFit (s.putInProperList th) :=
    fun th hth => fit_put h (put_fits h hth)
  have hputting : ((e.put s).map fun th => (s.putInProperList th, (none : Option Thread))) =
      some (s', r) → CountersFit s' := by
    intro hmap
    obtain ⟨th, hth, heq⟩ := Option.map_eq_some_iff.mp hmap
    obtain ⟨rfl, -⟩ := Prod.mk.inj heq
    exact hput th hth
  cases e with
  | schedule maxContextSwitch =>
    simp only [step, Option.ite_none_right_eq_some, Option.some.injEq, Prod.mk.injEq] at hstep
    exact hstep.2.1 ▸ fit_renormalise h maxContextSwitch
  | select =>
    simp only [step, Option.ite_none_right_eq_some, Option.some.injEq] at hstep
    obtain ⟨⟨-, hpositive⟩, heq⟩ := hstep
    obtain rfl : s.select.1 = s' := congrArg Prod.fst heq
    exact fit_select h hpositive
  | finish hr =>
    obtain ⟨th, hth, heq⟩ := Option.map_eq_some_iff.mp hstep
    obtain ⟨rfl, -⟩ := Prod.mk.inj heq
    exact (hput th hth).of_threads rfl rfl (hput th hth).threads
  | setStatus status =>
    obtain ⟨pid, -, heq⟩ := Option.map_eq_some_iff.mp hstep
    obtain ⟨rfl, -⟩ := Prod.mk.inj heq
    exact fit_change h pid fun _ hth => hth
  | updateToLowestExecutionCounter =>
    obtain ⟨pid, -, heq⟩ := Option.map_eq_some_iff.mp hstep
    obtain ⟨rfl, -⟩ := Prod.mk.inj heq
    have hglobal := h.global_le
    refine fit_change h pid fun _ _ => ⟨Int.le_refl _, ?_⟩
    simp only [maxCredit_eq]
    omega
  | newThread pid priority system delegate =>
    obtain ⟨th, hth, heq⟩ := Option.map_eq_some_iff.mp hstep
    obtain ⟨rfl, -⟩ := Prod.mk.inj heq
    cases delegate with
    | false => exact hput th hth
    | true =>
      refine fit_put (hput th hth) (?_ : CounterFits (s.putInProperList th) _)
      rw [CounterFits, putInProperList_global]
      exact put_fits h hth
  | pushThreadProcDelegate pid => exact hputting hstep
  | restart pid fDeleteEvent =>
    obtain ⟨th, hth, heq⟩ := Option.map_eq_some_iff.mp hstep
    obtain ⟨rfl, -⟩ := Prod.mk.inj heq
    cases fDeleteEvent with
    | false => exact hput th hth
    | true => exact fit_change (hput th hth) pid fun _ hth => hth
  | suspend pid =>
    obtain ⟨th, -, hrest⟩ := Option.bind_eq_some_iff.mp hstep
    split_ifs at hrest
    · exact hputting hrest
    · obtain ⟨rfl, -⟩ := Prod.mk.inj (Option.some.inj hrest)
      exact h
  | resume pid =>
    obtain ⟨th, -, hrest⟩ := Option.bind_eq_some_iff.mp hstep
    split_ifs at hrest
    · exact hputting hrest
    · obtain ⟨rfl, -⟩ := Prod.mk.inj (Option.some.inj hrest)
      exact h
  | terminate pid => exact hputting hstep
  | release pid =>
    simp only [step, Option.ite_none_left_eq_some, Option.some.injEq, Prod.mk.injEq] at hstep
    exact hstep.2.1 ▸ fit_unlink h pid

/-- No counter of any run leaves the range of `int`, nor does a sum or difference the scheduler
    forms. -/
theorem runs_counters_fit (events : List Event) (s : Engine) (selected : List (Option Thread))
    (hrun : run step .initial events = some (s, selected)) :
    ∀ th ∈ s.threads,
      -2 ^ 31 ≤ th.executionCounter - 32 ∧ th.getExecutionCounter < 2 ^ 31 ∧
        -2 ^ 31 ≤ s.globalExecutionCounter - 1 ∧
        th.executionCounter - s.globalExecutionCounter < 2 ^ 31 := by
  have hinitial : CountersFit .initial :=
    ⟨Int.le_refl 0, Nat.two_pow_pos 16, by decide, fun _ h => absurd h List.not_mem_nil⟩
  have hfit := run_preserves step (fun s e s' r h (_ : True) => step_fits s e s' r h)
    events .initial s selected hinitial
    (meets_of_forall step (fun _ _ => trivial) events .initial) hrun
  intro th hth
  obtain ⟨hlow, hhigh⟩ := hfit.threads th hth
  have hglobal := hfit.le_global
  have hswitches := hfit.contextSwitches_lt
  have hpriority : th.priority.val < 6 := th.priority.isLt
  rw [show EXECUTION_COUNTER_MAXIMUM = 0x70000000 from rfl, maxCredit_eq] at hglobal
  rw [maxCredit_eq] at hhigh
  rw [Thread.getExecutionCounter]
  omega

/-- In a run whose events meet their conditions, the ready list is in order whenever no thread
    runs, and the thread selected next has the greatest counter. -/
theorem runs_select_most_deserving (events : List Event) (s : Engine)
    (selected : List (Option Thread)) (hrun : run step .initial events = some (s, selected))
    (hclean : Meets step Clean .initial events) (hidle : s.running = none) :
    s.threadsReady.Pairwise Before ∧
      ∀ s' th, step s .select = some (s', some th) →
        s.threadsReady.head? = some th ∧
          ∀ th' ∈ s.threadsReady, th'.getExecutionCounter ≤ th.getExecutionCounter := by
  have hsettled := run_preserves step (fun s e s' r => step_settled s e s' r) events .initial s
    selected settled_initial hclean hrun
  refine ⟨hsettled.threadsReady hidle, fun s' th hstep => ?_⟩
  rw [step] at hstep
  split_ifs at hstep
  have hselect : s.select.2 = some th := congrArg Prod.snd (Option.some.inj hstep)
  refine ⟨?_, select_greatest hsettled hidle hselect⟩
  rw [Engine.select] at hselect
  cases hready : s.threadsReady with
  | nil => rw [hready] at hselect; exact absurd hselect (by simp)
  | cons first threads =>
    simp only [hready] at hselect
    exact hselect

/-- A thread starts another one of the same priority, and is served after it. -/
theorem runs_select_most_deserving_start :
    ∃ s selected, run step .initial
        [.newThread 1 2 false true, .schedule 50, .select, .newThread 2 2 false true,
          .finish .reschedule] = some (s, selected) ∧
      s.threadsReady.map (·.pid) = [2, 1] ∧ s.threadsReady.Pairwise Before := by
  let events : List Event :=
    [.newThread 1 2 false true, .schedule 50, .select, .newThread 2 2 false true,
      .finish .reschedule]
  have hclean : Meets step Clean .initial events := by
    refine meets_cons step (fun th _ _ _ _ => undisturbed_of_forall fun _ _ => rfl) rfl
      (meets_cons step (fun hlow => absurd hlow (by decide)) rfl
        (meets_cons step trivial rfl (meets_cons step ?_ rfl (meets_cons step trivial rfl trivial))))
    intro th hput _ _ _ front t back hl _ _ _ b hb
    obtain rfl := Option.some.inj hput
    -- only the running thread is linked, so nothing stands behind it
    have hlength : 1 = (front ++ t :: back).length := congrArg List.length hl
    rw [List.length_append, List.length_cons] at hlength
    have hback : back = [] := List.length_eq_zero_iff.mp (by omega)
    rw [hback] at hb
    exact absurd hb (by simp)
  obtain ⟨s, selected, hrun, hidle, hpids⟩ : ∃ s selected,
      run step .initial events = some (s, selected) ∧ s.running = none ∧
        s.threadsReady.map (·.pid) = [2, 1] := ⟨_, _, rfl, rfl, by decide⟩
  exact ⟨s, selected, hrun, hpids,
    (runs_select_most_deserving events s selected hrun hclean hidle).1⟩

/-- A thread that starts in another's quantum comes before one that deserves more: the running
    thread 1 is debited below thread 3 and stops the search for its place in front of thread 2. -/
theorem ready_list_out_of_order :
    ¬ ∀ (events : List Event) (s : Engine) (selected : List (Option Thread)),
        run step .initial events = some (s, selected) → s.running = none →
        s.threadsReady.Pairwise fun th th' =>
          th'.getExecutionCounter ≤ th.getExecutionCounter := by
  intro h
  have hordered := h
    [.newThread 1 3 false true, .newThread 2 3 false true, .schedule 50, .select,
      .newThread 3 2 false true, .finish .reschedule] _ _ rfl rfl
  revert hordered
  decide

end TinyClr.ExecutionEngine
