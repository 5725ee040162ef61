import TinyClr.Core.Lock
import TinyClr.Library.Runs
import Mathlib.Tactic.Common

/-!
# Locks are monitors

One thread at a time is inside the monitor of an object, the threads that wait get it in the order
in which they asked, and none waits for a monitor that is free: over every run the locks do what
monitors do.
-/

namespace TinyClr.Locks

open TinyClr.Library

variable {thread : Nat → Nat} {s s' : Engine} {r sth th : Nat} {answers : Answers}

/-! ### Monitors -/

/-- How often each subthread is inside, and which of them wait -/
structure Monitor where
  nesting : Nat → Nat
  waiting : List Nat

def Monitor.Free (m : Monitor) : Prop := ∀ sth, m.nesting sth = 0

inductive Settles : Monitor → Monitor → Prop where
  | held {m : Monitor} (h : ¬ m.Free) : Settles m m
  | free {m : Monitor} (h : m.Free) (hnone : m.waiting = []) : Settles m m
  | next {m : Monitor} {sth : Nat} {rest : List Nat} (h : m.Free)
      (hnext : m.waiting = sth :: rest) : Settles m ⟨Function.update (fun _ => 0) sth 1, rest⟩

/-- The node that a subthread needs is missing: a lock where nobody is inside, an owner where other
    subthreads of its thread are, a request where another thread is. -/
def NodeMissing (thread : Nat → Nat) (sth : Nat) (answers : Answers) (m : Monitor) : Prop :=
  ((∀ other, m.nesting other = 0) ∧ answers.lock = false) ∨
    (m.nesting sth = 0 ∧ (∃ other, m.nesting other ≠ 0 ∧ thread other = thread sth) ∧
      answers.owner = false) ∨
    (∃ other, m.nesting other ≠ 0 ∧ thread other ≠ thread sth) ∧ answers.request = false

/-- A subthread enters when no other thread is inside; else it waits. -/
inductive Enters (thread : Nat → Nat) (sth : Nat) (answers : Answers) (m : Monitor) :
    Monitor → Result → Prop where
  | inside {nesting : Nat → Nat} (h : ∀ other, m.nesting other ≠ 0 → thread other = thread sth)
      (hnesting : nesting = Function.update m.nesting sth (m.nesting sth + 1)) :
      Enters thread sth answers m ⟨nesting, m.waiting⟩ .ok
  | waits {other : Nat} (hinside : m.nesting other ≠ 0) (hother : thread other ≠ thread sth) :
      Enters thread sth answers m ⟨m.nesting, m.waiting ++ [sth]⟩ .threadWaiting
  | outOfMemory (h : NodeMissing thread sth answers m) : Enters thread sth answers m m .outOfMemory

inductive Exits (sth : Nat) (m : Monitor) : Monitor → Result → Prop where
  | inside {n : Nat} {nesting : Nat → Nat} {m' : Monitor} (hinside : m.nesting sth = n + 1)
      (hnesting : nesting = Function.update m.nesting sth n)
      (h : Settles ⟨nesting, m.waiting⟩ m') : Exits sth m m' .ok
  | outside (h : m.nesting sth = 0) : Exits sth m m .lockSynchronizationException

inductive MonitorStep (thread : Nat → Nat) (ms : Nat → Monitor) :
    Event → (Nat → Monitor) → Result → Prop where
  | enter {r sth : Nat} {answers : Answers} {m : Monitor} {result : Result}
      (h : Enters thread sth answers (ms r) m result) :
      MonitorStep thread ms (.enter r sth answers) (Function.update ms r m) result
  | exit {r sth : Nat} {answers : Answers} {m : Monitor} {result : Result}
      (h : Exits sth (ms r) m result) :
      MonitorStep thread ms (.exit r sth answers) (Function.update ms r m) result
  | destroy {sth : Nat} {answers : Answers} {ready waiting : List Nat} {ms' : Nat → Monitor}
      (h : ∀ r, Settles ⟨Function.update (ms r).nesting sth 0,
        (ms r).waiting.filter (· ≠ sth)⟩ (ms' r)) :
      MonitorStep thread ms (.destroy sth answers ready waiting) ms' .ok

/-! ### Owners -/

/-- How often a subthread has entered -/
def nestingIn (sth : Nat) : List Owner → Nat
  | [] => 0
  | owner :: owners =>
      if owner.m_owningSubThread = sth then owner.m_recursion.toNat else nestingIn sth owners

def OwnersSound (thread : Nat → Nat) (th : Nat) : List Owner → Prop
  | [] => True
  | owner :: owners => thread owner.m_owningSubThread = th ∧ owner.m_recursion ≠ 0 ∧
      nestingIn owner.m_owningSubThread owners = 0 ∧ OwnersSound thread th owners

theorem toNat_ne_zero {c : UInt32} (h : c ≠ 0) : c.toNat ≠ 0 :=
  fun heq => h (UInt32.toNat_inj.mp heq)

theorem OwnersSound.thread_eq {owners : List Owner} (h : OwnersSound thread th owners)
    (hinside : nestingIn sth owners ≠ 0) : thread sth = th := by
  induction owners with
  | nil => exact absurd rfl hinside
  | cons owner owners ih =>
    rw [nestingIn] at hinside
    rw [OwnersSound] at h
    grind

theorem OwnersSound.inside {owners : List Owner} (h : OwnersSound thread th owners)
    (hne : owners ≠ []) : ∃ sth, nestingIn sth owners ≠ 0 ∧ thread sth = th := by
  cases owners with
  | nil => exact absurd rfl hne
  | cons owner owners =>
    refine ⟨owner.m_owningSubThread, ?_, h.1⟩
    simpa [nestingIn] using toNat_ne_zero h.2.1

theorem nestingIn_cons (sth : Nat) (owners : List Owner) :
    (fun i => nestingIn i (⟨sth, 1⟩ :: owners)) =
      Function.update (fun i => nestingIn i owners) sth 1 := by
  funext i
  rw [Function.update_apply]
  grind [nestingIn, UInt32.toNat_one]

theorem atOwner_none {f : Owner → List Owner} {owners : List Owner}
    (h : atOwner sth f owners = none) : nestingIn sth owners = 0 := by
  induction owners with
  | nil => rfl
  | cons owner owners ih =>
    rw [atOwner] at h
    rw [nestingIn]
    grind [Option.map_eq_none_iff]

/-- Behind another owner the nesting of a subthread changes as it does among the rest. -/
theorem OwnersSound.cons {o : Owner} {owners owners' : List Owner} {c : Nat}
    (h : OwnersSound thread th (o :: owners)) (ho : o.m_owningSubThread ≠ sth)
    (hrest : OwnersSound thread th owners' ∧ (fun i => nestingIn i owners') =
      Function.update (fun i => nestingIn i owners) sth c) :
    OwnersSound thread th (o :: owners') ∧ (fun i => nestingIn i (o :: owners')) =
      Function.update (fun i => nestingIn i (o :: owners)) sth c := by
  have hnesting := congrFun hrest.2
  simp only [Function.update_apply] at hnesting
  refine ⟨⟨h.1, h.2.1, ?_, hrest.1⟩, funext fun i => ?_⟩
  · rw [hnesting, if_neg ho]
    exact h.2.2.1
  · rw [nestingIn, hnesting, Function.update_apply, nestingIn]
    grind

theorem OwnersSound.head {o : Owner} {owners : List Owner} (c : UInt32)
    (h : OwnersSound thread th (o :: owners)) :
    OwnersSound thread th ((if c = 0 then [] else [{ o with m_recursion := c }]) ++ owners) ∧
      (fun i => nestingIn i ((if c = 0 then [] else [{ o with m_recursion := c }]) ++ owners)) =
        Function.update (fun i => nestingIn i (o :: owners)) o.m_owningSubThread c.toNat := by
  obtain ⟨hown, -, hnone, hrest⟩ := h
  split
  · rename_i hzero
    subst hzero
    refine ⟨hrest, funext fun i => ?_⟩
    rw [Function.update_apply, nestingIn]
    grind [UInt32.toNat_zero]
  · rename_i hc
    refine ⟨⟨hown, hc, hnone, hrest⟩, funext fun i => ?_⟩
    rw [Function.update_apply]
    grind [nestingIn]

theorem atOwner_some {f : Owner → List Owner} (g : UInt32 → UInt32) {owners : List Owner} :
    ∀ {owners' : List Owner}, OwnersSound thread th owners →
      atOwner sth f owners = some owners' →
      (∀ o : Owner, o.m_recursion.toNat = nestingIn sth owners → f o =
        if g o.m_recursion = 0 then [] else [{ o with m_recursion := g o.m_recursion }]) →
      ∃ o : Owner, nestingIn sth owners = o.m_recursion.toNat ∧ o.m_recursion ≠ 0 ∧
        OwnersSound thread th owners' ∧ (fun i => nestingIn i owners') =
          Function.update (fun i => nestingIn i owners) sth (g o.m_recursion).toNat := by
  induction owners with
  | nil =>
    intro owners' _ h _
    cases h
  | cons o owners ih =>
    intro owners' hsound h hf
    rw [atOwner] at h
    split at h
    · rename_i heq
      cases h
      subst heq
      have hnesting : nestingIn o.m_owningSubThread (o :: owners) = o.m_recursion.toNat := by
        rw [nestingIn, if_pos rfl]
      refine ⟨o, hnesting, hsound.2.1, ?_⟩
      rw [hf o hnesting.symm]
      exact hsound.head (g o.m_recursion)
    · rename_i hne
      obtain ⟨owners₁, h₁, rfl⟩ := Option.map_eq_some_iff.mp h
      rw [nestingIn, if_neg hne] at hf
      obtain ⟨o₁, hnesting, hpos₁, hrest⟩ := ih hsound.2.2.2 h₁ hf
      refine ⟨o₁, ?_, hpos₁, hsound.cons hne hrest⟩
      rw [nestingIn, if_neg hne]
      exact hnesting

theorem OwnersSound.filter {owners : List Owner} (h : OwnersSound thread th owners) (sth : Nat) :
    OwnersSound thread th (owners.filter (·.m_owningSubThread ≠ sth)) ∧
      (fun i => nestingIn i (owners.filter (·.m_owningSubThread ≠ sth))) =
        Function.update (fun i => nestingIn i owners) sth 0 := by
  induction owners with
  | nil => exact ⟨trivial, (Function.update_eq_self sth _).symm⟩
  | cons o owners ih =>
    have hrest := ih h.2.2.2
    by_cases ho : o.m_owningSubThread = sth
    · rw [List.filter_cons_of_neg (by simpa using ho)]
      refine ⟨hrest.1, hrest.2.trans (funext fun i => ?_)⟩
      rw [Function.update_apply, Function.update_apply, nestingIn]
      grind
    · rw [List.filter_cons_of_pos (by simpa using ho)]
      exact h.cons ho hrest

/-! ### The invariant -/

def monitorOf : Option Lock → Monitor
  | none => ⟨fun _ => 0, []⟩
  | some lock => ⟨fun sth => nestingIn sth lock.m_owners, lock.m_requests⟩

def monitors (s : Engine) : Nat → Monitor := fun r => monitorOf (s.objectLock r)

structure LockSound (thread : Nat → Nat) (lock : Lock) : Prop where
  owned : lock.m_owners ≠ []
  owners : OwnersSound thread lock.m_owningThread lock.m_owners
  foreign : ∀ sth ∈ lock.m_requests, thread sth ≠ lock.m_owningThread
  nodup : lock.m_requests.Nodup

/-- The requests are counted, and the threads that have one wait.  `waiter` has for a thread the
    lock it waits for and its subthread that does. -/
def Counts (thread : Nat → Nat) (s : Engine) (waiter : Nat → Option (Nat × Nat)) : Prop :=
  (∀ th, s.threadLockRequestsCount th = if waiter th = none then 0 else 1) ∧
  (∀ sth, s.m_lockRequestsCount sth =
    if (waiter (thread sth)).map Prod.snd = some sth then 1 else 0) ∧
  ∀ th, s.m_status th = if waiter th = none then .ready else .waiting

structure Sound (thread : Nat → Nat) (s : Engine) (waiter : Nat → Option (Nat × Nat)) : Prop where
  locks : ∀ r lock, s.objectLock r = some lock → LockSound thread lock
  linked : ∀ th r, r ∈ s.m_locks th ↔ (s.objectLock r).map Lock.m_owningThread = some th
  distinct : ∀ th, (s.m_locks th).Nodup
  requests : ∀ r sth, sth ∈ (monitors s r).waiting ↔ waiter (thread sth) = some (r, sth)
  own : ∀ th r sth, waiter th = some (r, sth) → thread sth = th
  counts : Counts thread s waiter

variable {waiter waiter' : Nat → Option (Nat × Nat)}

theorem Counts.change (h : Counts thread s waiter) {x : Option (Nat × Nat)} {diff : Int}
    (hthread : s.threadLockRequestsCount (thread sth) + diff = if x = none then 0 else 1)
    (hsth : s.m_lockRequestsCount sth + diff = if x.map Prod.snd = some sth then 1 else 0)
    (hothers : ∀ other, other ≠ sth → (waiter (thread sth)).map Prod.snd ≠ some other ∧
      x.map Prod.snd ≠ some other) :
    Counts thread (s.changeLockRequestCount thread sth diff).1
      (Function.update waiter (thread sth) x) := by
  obtain ⟨hthreads, hsubthreads, hstatus⟩ := h
  refine ⟨fun th => ?_, fun other => ?_, fun th => ?_⟩ <;>
    simp only [Engine.changeLockRequestCount, Function.update_apply, hthread] <;> grind

theorem Counts.add (h : Counts thread s waiter) (hnone : waiter (thread sth) = none) (r : Nat) :
    Counts thread (s.changeLockRequestCount thread sth 1).1
      (Function.update waiter (thread sth) (some (r, sth))) := by
  apply h.change
  · simp [h.1, hnone]
  · simp [h.2.1, hnone]
  · intro other hother
    simp [hnone, Ne.symm hother]

theorem Counts.sub (h : Counts thread s waiter) (hsome : waiter (thread sth) = some (r, sth)) :
    Counts thread (s.changeLockRequestCount thread sth (-1)).1
        (Function.update waiter (thread sth) none) ∧
      (s.changeLockRequestCount thread sth (-1)).2 = true := by
  have hthread : s.threadLockRequestsCount (thread sth) + -1 = 0 := by
    simp [h.1, hsome]
  refine ⟨h.change hthread ?_ ?_, decide_eq_true hthread⟩
  · simp [h.2.1, hsome]
  · intro other hother
    simp [hsome, Ne.symm hother]

/-- One lock has changed, with the list it is in and the thread that waits for it. -/
theorem Sound.change (h : Sound thread s waiter) {x : Option Lock}
    (hlock : s'.objectLock = Function.update s.objectLock r x)
    (hx : ∀ lock, x = some lock → LockSound thread lock)
    (hlinked : ∀ th r', r' ∈ s'.m_locks th ↔
      if r' = r then x.map Lock.m_owningThread = some th else r' ∈ s.m_locks th)
    (hdistinct : ∀ th, (s'.m_locks th).Nodup)
    (hrequests : ∀ r' sth, waiter' (thread sth) = some (r', sth) ↔
      if r' = r then sth ∈ (monitorOf x).waiting else waiter (thread sth) = some (r', sth))
    (hown : ∀ th r sth, waiter' th = some (r, sth) → thread sth = th)
    (hcounts : Counts thread s' waiter') : Sound thread s' waiter' where
  locks r' lock hlock' := by
    rw [hlock, Function.update_apply] at hlock'
    split at hlock'
    · exact hx lock hlock'
    · exact h.locks r' lock hlock'
  linked th r' := by
    rw [hlinked, hlock, Function.update_apply]
    split
    · rfl
    · exact h.linked th r'
  distinct := hdistinct
  requests r' sth := by
    rw [hrequests, monitors, hlock, Function.update_apply]
    split
    · rfl
    · exact h.requests r' sth
  own := hown
  counts := hcounts

variable {lock : Lock} {owners : List Owner}

theorem Sound.mem_requests (h : Sound thread s waiter) (hlock : s.objectLock r = some lock)
    (sth : Nat) : sth ∈ lock.m_requests ↔ waiter (thread sth) = some (r, sth) := by
  rw [← h.requests, monitors, hlock]
  rfl

theorem Sound.mem_locks (h : Sound thread s waiter) (hlock : s.objectLock r = some lock)
    (th r' : Nat) : r' ∈ s.m_locks th ↔
      if r' = r then some lock.m_owningThread = some th else r' ∈ s.m_locks th := by
  split
  · rename_i heq
    rw [h.linked, heq, hlock]
    rfl
  · rfl

theorem Sound.kept (h : Sound thread s waiter) {x : Option Lock}
    (hx : (monitorOf x).waiting = (monitors s r).waiting) (r' sth : Nat) :
    waiter (thread sth) = some (r', sth) ↔
      if r' = r then sth ∈ (monitorOf x).waiting else waiter (thread sth) = some (r', sth) := by
  split
  · rename_i hr
    rw [hx, hr, h.requests]
  · rfl

theorem Sound.waits (h : Sound thread s waiter) (hmem : sth ∈ (monitors s r).waiting) :
    ∃ lock, s.objectLock r = some lock ∧ thread sth ≠ lock.m_owningThread := by
  cases hlock : s.objectLock r with
  | none => simp [monitors, hlock, monitorOf] at hmem
  | some lock =>
    rw [monitors, hlock] at hmem
    exact ⟨lock, rfl, (h.locks _ _ hlock).foreign sth hmem⟩

theorem mem_linkAtBack (th th' r' : Nat) : r' ∈ (s.linkAtBack r th).m_locks th' ↔
    if r' = r then some th = some th' else r' ∈ s.m_locks th' := by
  simp only [Engine.linkAtBack, Engine.unlink, Function.update_apply]
  grind

theorem Sound.distinct_linkAtBack (h : Sound thread s waiter) (th th' : Nat) :
    ((s.linkAtBack r th).m_locks th').Nodup := by
  have hfilter : ∀ th, ((s.m_locks th).filter (· ≠ r)).Nodup := fun th => (h.distinct th).filter _
  unfold Engine.linkAtBack
  dsimp only
  rw [Function.update_apply]
  split
  · refine List.nodup_append.mpr ⟨hfilter th, List.nodup_singleton r, ?_⟩
    simp only [Engine.unlink]
    grind
  · exact hfilter th'

theorem Sound.setLock (h : Sound thread s waiter) (hlock : s.objectLock r = some lock)
    (hne : owners ≠ []) (howners : OwnersSound thread lock.m_owningThread owners) :
    Sound thread (s.setLock r (some { lock with m_owners := owners })) waiter := by
  have hlockSound := h.locks _ _ hlock
  refine h.change rfl ?_ (fun th r' => ?_) h.distinct (h.kept ?_) h.own h.counts
  · intro lock' heq
    cases heq
    exact ⟨hne, howners, hlockSound.foreign, hlockSound.nodup⟩
  · exact h.mem_locks hlock th r'
  · rw [monitors, hlock]
    rfl

theorem Sound.own_none (h : Sound thread s waiter) (th₀ th r sth : Nat)
    (hsome : Function.update waiter th₀ none th = some (r, sth)) : thread sth = th := by
  have hown := h.own th r sth
  rw [Function.update_apply] at hsome
  grind

theorem Sound.mem_rest (h : Sound thread s waiter) (hlock : s.objectLock r = some lock)
    (hsome : waiter (thread sth) = some (r, sth)) {rest : List Nat}
    (hrest : ∀ other, other ∈ rest ↔ other ∈ lock.m_requests ∧ other ≠ sth) (r' other : Nat) :
    Function.update waiter (thread sth) none (thread other) = some (r', other) ↔
      if r' = r then other ∈ rest else waiter (thread other) = some (r', other) := by
  have hiff := h.mem_requests hlock other
  have hother := hrest other
  rw [Function.update_apply]
  grind

theorem Sound.handOver (h : Sound thread s waiter) (hlock : s.objectLock r = some lock)
    {rest : List Nat} (hrequests : lock.m_requests = sth :: rest) (howner : answers.owner = true) :
    Sound thread (s.changeOwner thread r lock answers) (Function.update waiter (thread sth) none) ∧
      (s.changeOwner thread r lock answers).objectLock =
        Function.update s.objectLock r (some ⟨thread sth, [⟨sth, 1⟩], rest⟩) := by
  have hnodup := (h.locks _ _ hlock).nodup
  rw [hrequests] at hnodup
  have hsome : waiter (thread sth) = some (r, sth) :=
    (h.mem_requests hlock _).mp (hrequests ▸ List.mem_cons_self)
  have hrest : ∀ other, other ∈ rest ↔ other ∈ lock.m_requests ∧ other ≠ sth := by
    intro other
    have hnot := hnodup.notMem
    rw [hrequests, List.mem_cons]
    grind
  have hlocks : (s.changeOwner thread r lock answers).objectLock =
      Function.update s.objectLock r (some ⟨thread sth, [⟨sth, 1⟩], rest⟩) := by
    simp [Engine.changeOwner, hrequests, Engine.incrementOwnership, atOwner, howner, Engine.setLock,
      Engine.linkAtBack, Engine.changeLockRequestCount]
  refine ⟨h.change hlocks ?_ ?_ ?_ (h.mem_rest hlock hsome hrest) (h.own_none _) ?_, hlocks⟩
  · intro lock' heq
    cases heq
    refine ⟨List.cons_ne_nil _ _, ⟨rfl, by simp, rfl, trivial⟩, fun other hother heq => ?_,
      hnodup.of_cons⟩
    have hmem := (hrest other).mp hother
    have hwaits := (h.mem_requests hlock _).mp hmem.1
    rw [heq, hsome, Option.some.injEq, Prod.mk.injEq] at hwaits
    exact hmem.2 hwaits.2.symm
  all_goals
    simp only [Engine.changeOwner, hrequests, Engine.incrementOwnership, if_true, atOwner, howner]
  · exact mem_linkAtBack (thread sth)
  · exact h.distinct_linkAtBack (thread sth)
  · exact (h.counts.sub hsome).1

/-- What becomes of a lock with the owners that are left: it is kept, or given up, or goes to the
    first that waits. -/
theorem Sound.setOwners (h : Sound thread s waiter) (hlock : s.objectLock r = some lock)
    (howners : OwnersSound thread lock.m_owningThread owners) (hanswers : answers.owner = true) :
    ∃ waiter', Sound thread (s.setOwners thread r lock owners answers) waiter' ∧
      waiter' lock.m_owningThread = waiter lock.m_owningThread ∧
      ∃ x, (s.setOwners thread r lock owners answers).objectLock =
          Function.update s.objectLock r x ∧
        Settles ⟨fun sth => nestingIn sth owners, lock.m_requests⟩ (monitorOf x) := by
  rw [Engine.setOwners]
  split
  · rename_i hnil
    subst hnil
    have hfree : Monitor.Free ⟨fun sth => nestingIn sth [], lock.m_requests⟩ := fun _ => rfl
    cases hrequests : lock.m_requests with
    | nil =>
      rw [hrequests] at hfree
      rw [Engine.changeOwner, hrequests]
      refine ⟨waiter, h.change rfl (fun _ heq => by cases heq) ?_ (fun th =>
        (h.distinct th).filter _) (h.kept ?_) h.own h.counts, rfl, none, rfl, .free hfree rfl⟩
      · intro th r'
        by_cases hr : r' = r <;> simp [Engine.setLock, Engine.unlink, hr]
      · rw [monitors, hlock]
        exact hrequests.symm
    | cons sth rest =>
      rw [hrequests] at hfree
      obtain ⟨hsound, hlocks⟩ := h.handOver hlock hrequests hanswers
      refine ⟨_, hsound, Function.update_of_ne (fun heq => ?_) _ _, _, hlocks, ?_⟩
      · exact (h.locks _ _ hlock).foreign sth (hrequests ▸ List.mem_cons_self) heq.symm
      · rw [monitorOf, nestingIn_cons]
        exact .next hfree rfl
  · rename_i hne
    refine ⟨waiter, h.setLock hlock hne howners, rfl, some { lock with m_owners := owners }, rfl,
      .held fun hfree => ?_⟩
    obtain ⟨sth, hinside, -⟩ := howners.inside hne
    exact hinside (hfree sth)

theorem monitors_update {x : Option Lock} (h : s'.objectLock = Function.update s.objectLock r x) :
    monitors s' = Function.update (monitors s) r (monitorOf x) := by
  funext r'
  simp only [monitors, h, Function.update_apply]
  split <;> rfl

theorem Sound.initial : Sound thread initial fun _ => none where
  locks _ _ hlock := by cases hlock
  linked _ _ := by simp [Locks.initial]
  distinct _ := List.nodup_nil
  requests _ _ := by simp [monitors, Locks.initial, monitorOf]
  own _ _ _ hsome := by cases hsome
  counts := ⟨fun _ => rfl, fun _ => rfl, fun _ => rfl⟩

theorem Sound.owner (h : Sound thread s waiter) (hinside : (monitors s r).nesting sth ≠ 0) :
    (s.objectLock r).map Lock.m_owningThread = some (thread sth) := by
  cases hlock : s.objectLock r with
  | none => simp [monitors, hlock, monitorOf] at hinside
  | some lock =>
    rw [monitors, hlock] at hinside
    exact congrArg some ((h.locks _ _ hlock).owners.thread_eq hinside).symm

theorem Sound.free_waiting (h : Sound thread s waiter) (hfree : (monitors s r).Free) :
    (monitors s r).waiting = [] := by
  cases hlock : s.objectLock r with
  | none => simp [monitors, hlock, monitorOf]
  | some lock =>
    rw [monitors, hlock] at hfree
    obtain ⟨sth, hinside, -⟩ := (h.locks _ _ hlock).owners.inside (h.locks _ _ hlock).owned
    exact absurd (hfree sth) hinside

/-! ### The operations -/

/-- The conditions under which an event is in the order of the program: only a thread that is ready
    calls, a lock that is made gets its owner, so does one that goes to another thread, as the node
    of the owner before it is in the event cache; the counts do not overflow; and the two lists have
    every thread with a lock. -/
def Safe (thread : Nat → Nat) (s : Engine) : Event → Prop
  | .enter r sth answers => s.m_status (thread sth) = .ready ∧
      (s.objectLock r = none → answers.lock = true → answers.owner = true) ∧
      (monitors s r).nesting sth + 1 < 2 ^ 32
  | .exit _ _ answers => answers.owner = true
  | .destroy _ answers ready waiting => answers.owner = true ∧
      ∀ th, s.m_locks th ≠ [] → th ∈ ready ++ waiting

def Does (thread : Nat → Nat) (s : Engine) (e : Event) : Prop :=
  ∃ s' result waiter, step thread s e = some (s', result) ∧ Sound thread s' waiter ∧
    MonitorStep thread (monitors s) e (monitors s') result

theorem Does.enter (result : Result) {x : Option Lock}
    (hstep : s.lockObject thread r sth answers = (s', result)) (hsound : Sound thread s' waiter)
    (hx : s'.objectLock = Function.update s.objectLock r x)
    (h : Enters thread sth answers (monitorOf (s.objectLock r)) (monitorOf x) result) :
    Does thread s (.enter r sth answers) :=
  ⟨s', result, waiter, congrArg some hstep, hsound, monitors_update hx ▸ .enter h⟩

theorem Does.exit (result : Result) {x : Option Lock}
    (hstep : s.unlockObject thread r sth answers = (s', result)) (hsound : Sound thread s' waiter)
    (hx : s'.objectLock = Function.update s.objectLock r x)
    (h : Exits sth (monitorOf (s.objectLock r)) (monitorOf x) result) :
    Does thread s (.exit r sth answers) :=
  ⟨s', result, waiter, congrArg some hstep, hsound, monitors_update hx ▸ .exit h⟩

theorem does_exit (h : Sound thread s waiter) (r sth : Nat) (hanswers : answers.owner = true) :
    Does thread s (.exit r sth answers) := by
  have houtside : (monitorOf (s.objectLock r)).nesting sth = 0 →
      s.unlockObject thread r sth answers = (s, .lockSynchronizationException) →
        Does thread s (.exit r sth answers) := fun hnone heq =>
    .exit _ heq h (Function.update_eq_self r _).symm (.outside hnone)
  cases hlock : s.objectLock r with
  | none =>
    apply houtside
    · rw [hlock]
      rfl
    · simp [Engine.unlockObject, hlock]
  | some lock =>
    rw [hlock] at houtside
    have howners := (h.locks _ _ hlock).owners
    by_cases hth : lock.m_owningThread = thread sth
    · cases hat : atOwner sth (fun owner => if owner.m_recursion - 1 = 0 then [] else
          [{ owner with m_recursion := owner.m_recursion - 1 }]) lock.m_owners with
      | none =>
        apply houtside (atOwner_none hat)
        simp [Engine.unlockObject, hlock, hth, hat]
      | some owners =>
        obtain ⟨o, hnesting, hpos, hsound, heq⟩ :=
          atOwner_some (fun c => c - 1) howners hat fun _ _ => rfl
        obtain ⟨waiter', hsound', -, x, hx, hsettles⟩ := h.setOwners hlock hsound hanswers
        refine .exit .ok ?_ hsound' hx ?_
        · simp [Engine.unlockObject, hlock, hth, hat]
        · rw [hlock]
          refine .inside (hnesting.trans ?_) heq hsettles
          have hone := toNat_ne_zero hpos
          have hlt := o.m_recursion.toNat_lt
          rw [UInt32.toNat_sub, UInt32.toNat_one]
          omega
    · apply houtside
      · by_contra hinside
        exact hth (howners.thread_eq hinside).symm
      · simp [Engine.unlockObject, hlock, hth]

theorem does_enter_new (h : Sound thread s waiter) (hlock : s.objectLock r = none)
    (hmade : answers.lock = true) (howner : answers.owner = true) :
    Does thread s (.enter r sth answers) := by
  have hsound : Sound thread ((s.linkAtBack r (thread sth)).setLock r
      (some ⟨thread sth, [⟨sth, 1⟩], []⟩)) waiter := by
    refine h.change rfl ?_ (mem_linkAtBack _) (h.distinct_linkAtBack _) (h.kept ?_) h.own h.counts
    · intro lock heq
      cases heq
      exact ⟨List.cons_ne_nil _ _, ⟨rfl, by simp, rfl, trivial⟩,
        fun _ hother => absurd hother List.not_mem_nil, List.nodup_nil⟩
    · rw [monitors, hlock]
      rfl
  refine .enter .ok ?_ hsound rfl ?_
  · simp [Engine.lockObject, hlock, hmade, Engine.incrementOwnership, atOwner, howner,
      Engine.setLock]
  · rw [hlock]
    exact .inside (fun _ hother => absurd rfl hother) (nestingIn_cons sth [])

theorem does_enter_own (h : Sound thread s waiter) (hlock : s.objectLock r = some lock)
    (hth : lock.m_owningThread = thread sth) (hfit : nestingIn sth lock.m_owners + 1 < 2 ^ 32) :
    Does thread s (.enter r sth answers) := by
  have howners := (h.locks _ _ hlock).owners
  have hinside : ∀ other, nestingIn other lock.m_owners ≠ 0 → thread other = thread sth :=
    fun other hother => (howners.thread_eq hother).trans hth
  cases hat : atOwner sth (fun owner => [{ owner with m_recursion := owner.m_recursion + 1 }])
      lock.m_owners with
  | some owners =>
    have hcount : ∀ c : UInt32, c.toNat = nestingIn sth lock.m_owners →
        (c + 1).toNat = nestingIn sth lock.m_owners + 1 := by
      intro c hc
      rw [UInt32.toNat_add, hc, UInt32.toNat_one, Nat.mod_eq_of_lt hfit]
    obtain ⟨o, hnesting, -, hsound, heq⟩ := atOwner_some (fun c => c + 1) howners hat fun o ho => by
      rw [if_neg fun hzero => ?_]
      have hsucc := hcount _ ho
      simp [hzero] at hsucc
    rw [hcount _ hnesting.symm] at heq
    have hne : owners ≠ [] := by
      rintro rfl
      have hzero := congrFun heq sth
      simp [nestingIn] at hzero
    refine .enter .ok ?_ (h.setLock hlock hne hsound) rfl ?_
    · simp [Engine.lockObject, hlock, Engine.incrementOwnership, hth, hat]
    · rw [hlock]
      exact .inside hinside heq
  | none =>
    have hzero := atOwner_none hat
    by_cases howner : answers.owner = true
    · refine .enter .ok ?_ (h.setLock hlock (List.cons_ne_nil ⟨sth, 1⟩ lock.m_owners)
        ⟨hth.symm, by simp, hzero, howners⟩) rfl ?_
      · simp [Engine.lockObject, hlock, Engine.incrementOwnership, hth, hat, howner]
      · rw [hlock]
        refine .inside hinside ?_
        rw [nestingIn_cons]
        exact congrArg _ (congrArg (· + 1) hzero.symm)
    · refine .enter .outOfMemory ?_ h (Function.update_eq_self r _).symm (.outOfMemory ?_)
      · simp [Engine.lockObject, hlock, Engine.incrementOwnership, hth, hat, howner]
      · obtain ⟨other, hother, heq⟩ := howners.inside (h.locks _ _ hlock).owned
        rw [hlock]
        exact .inr (.inl ⟨hzero, ⟨other, hother, heq.trans hth⟩, by simpa using howner⟩)

theorem Sound.request (h : Sound thread s waiter) (hlock : s.objectLock r = some lock)
    (hnone : waiter (thread sth) = none) (hth : lock.m_owningThread ≠ thread sth) :
    Sound thread ((s.setLock r (some { lock with
        m_requests := lock.m_requests ++ [sth] })).changeLockRequestCount thread sth 1).1
      (Function.update waiter (thread sth) (some (r, sth))) := by
  have hlockSound := h.locks _ _ hlock
  have hnot : ∀ other, thread other = thread sth → other ∉ lock.m_requests := by
    intro other hother hmem
    have hwaits := (h.mem_requests hlock _).mp hmem
    rw [hother, hnone] at hwaits
    cases hwaits
  refine h.change rfl ?_ (fun th r' => ?_) h.distinct ?_ ?_ (Counts.add h.counts hnone r)
  · intro lock' heq
    cases heq
    refine ⟨hlockSound.owned, hlockSound.owners, ?_, ?_⟩
    · intro other hother
      rcases List.mem_append.mp hother with hother | hother
      · exact hlockSound.foreign other hother
      · rw [List.mem_singleton.mp hother]
        exact hth.symm
    · have hsth := hnot sth rfl
      refine List.nodup_append.mpr ⟨hlockSound.nodup, List.nodup_singleton sth, ?_⟩
      grind
  · exact h.mem_locks hlock th r'
  · intro r' other
    have hiff := h.mem_requests hlock other
    have hmem : other ∈ lock.m_requests ++ [sth] ↔ other ∈ lock.m_requests ∨ other = sth := by simp
    rw [Function.update_apply, monitorOf, hmem]
    grind
  · intro th r' other
    have hown := h.own th r' other
    rw [Function.update_apply]
    grind

theorem does_enter (h : Sound thread s waiter) (hsafe : Safe thread s (.enter r sth answers)) :
    Does thread s (.enter r sth answers) := by
  obtain ⟨hready, howner, hfit⟩ := hsafe
  have hrefused : NodeMissing thread sth answers (monitorOf (s.objectLock r)) →
      s.lockObject thread r sth answers = (s, .outOfMemory) →
      Does thread s (.enter r sth answers) := fun hmissing heq =>
    .enter _ heq h (Function.update_eq_self r _).symm (.outOfMemory hmissing)
  cases hlock : s.objectLock r with
  | none =>
    by_cases hmade : answers.lock = true
    · exact does_enter_new h hlock hmade (howner hlock hmade)
    · apply hrefused
      · rw [hlock]
        exact .inl ⟨fun _ => rfl, by simpa using hmade⟩
      · simp [Engine.lockObject, hlock, hmade]
  | some lock =>
    rw [monitors, hlock] at hfit
    by_cases hth : lock.m_owningThread = thread sth
    · exact does_enter_own h hlock hth hfit
    · have hlockSound := h.locks _ _ hlock
      obtain ⟨other, hinside, hother⟩ := hlockSound.owners.inside hlockSound.owned
      have hforeign : thread other ≠ thread sth := fun heq => hth (hother.symm.trans heq)
      by_cases hrequest : answers.request = true
      · have hnone : waiter (thread sth) = none := by
          rw [h.counts.2.2] at hready
          by_contra hsome
          rw [if_neg hsome] at hready
          cases hready
        refine .enter .threadWaiting ?_ (h.request hlock hnone hth) rfl ?_
        · simp [Engine.lockObject, hlock, Engine.incrementOwnership, hth, hrequest]
        · rw [hlock]
          exact .waits hinside hforeign
      · apply hrefused
        · rw [hlock]
          exact .inr (.inr ⟨⟨other, hinside, hforeign⟩, by simpa using hrequest⟩)
        · simp [Engine.lockObject, hlock, Engine.incrementOwnership, hth, hrequest]

/-! ### Subthreads that end -/

theorem Sound.destroyOwners (hanswers : answers.owner = true) : ∀ (resources : List Nat)
    {s : Engine} {waiter : Nat → Option (Nat × Nat)}, Sound thread s waiter → resources.Nodup →
      (∀ r ∈ resources, ∃ lock, s.objectLock r = some lock ∧ lock.m_owningThread = thread sth) →
      ∃ waiter', Sound thread (destroyOwners thread sth answers resources s) waiter' ∧
        waiter' (thread sth) = waiter (thread sth) ∧
        (∀ r ∈ resources, Settles ⟨Function.update (monitors s r).nesting sth 0,
          (monitors s r).waiting⟩ (monitors (destroyOwners thread sth answers resources s) r)) ∧
        ∀ r, r ∉ resources →
          (destroyOwners thread sth answers resources s).objectLock r = s.objectLock r := by
  intro resources
  induction resources with
  | nil =>
    intro s waiter h _ _
    exact ⟨waiter, h, rfl, fun _ hr => absurd hr List.not_mem_nil, fun _ _ => rfl⟩
  | cons r resources ih =>
    intro s waiter h hnodup hown
    obtain ⟨lock, hlock, hth⟩ := hown r List.mem_cons_self
    obtain ⟨hfilter, hnesting⟩ := (h.locks _ _ hlock).owners.filter sth
    obtain ⟨waiter₁, h₁, hwaiter₁, x, hx, hsettles₁⟩ := h.setOwners hlock hfilter hanswers
    have hsame : ∀ r', r' ≠ r → (s.destroyOwner thread r sth answers).objectLock r' =
        s.objectLock r' := by
      intro r' hr
      rw [Engine.destroyOwner, hlock]
      dsimp only
      rw [hx, Function.update_of_ne hr]
    have hne : ∀ r' ∈ resources, r' ≠ r := fun r' hr' heq => hnodup.notMem (heq ▸ hr')
    obtain ⟨waiter', h', hwaiter', hsettles, hothers⟩ := ih
      (show Sound thread (s.destroyOwner thread r sth answers) waiter₁ by
        rw [Engine.destroyOwner, hlock]
        exact h₁) hnodup.of_cons fun r' hr' => by
          rw [hsame r' (hne r' hr')]
          exact hown r' (List.mem_cons_of_mem _ hr')
    rw [hth] at hwaiter₁
    refine ⟨waiter', h', hwaiter'.trans hwaiter₁, fun r' hr' => ?_, fun r' hr' => ?_⟩
    · rcases List.mem_cons.mp hr' with rfl | hr'
      · rw [hnesting] at hsettles₁
        rw [monitors, monitors, Locks.destroyOwners, hothers r' hnodup.notMem, Engine.destroyOwner,
          hlock]
        dsimp only
        rw [hx, Function.update_self]
        exact hsettles₁
      · have hresult := hsettles r' hr'
        rw [monitors, hsame r' (hne r' hr')] at hresult
        exact hresult
    · rw [List.mem_cons, not_or] at hr'
      exact (hothers r' hr'.2).trans (hsame r' hr'.1)

theorem filter_waiting {waiting : List Nat} (hnot : sth ∉ waiting) :
    waiting.filter (· ≠ sth) = waiting := by
  rw [List.filter_eq_self]
  grind

theorem deleteRequests_eq (r : Nat) : ∀ requests : List Nat,
    (sth ∈ requests → (s.deleteRequest thread sth r).2 = true) →
      deleteRequests thread sth r requests s =
        if sth ∈ requests then ((s.deleteRequest thread sth r).1, true) else (s, false) := by
  intro requests
  induction requests with
  | nil =>
    intro _
    rfl
  | cons req requests ih =>
    intro hremoved
    rw [deleteRequests]
    grind

theorem deleteFromLocks_eq (hwaits : ∀ r', sth ∈ (monitors s r').waiting →
    r' = r ∧ (s.deleteRequest thread sth r).2 = true) : ∀ resources : List Nat,
      deleteFromLocks thread sth resources s = if r ∈ resources ∧ sth ∈ (monitors s r).waiting
        then (s.deleteRequest thread sth r).1 else s := by
  intro resources
  induction resources with
  | nil => simp [deleteFromLocks]
  | cons r' resources ih =>
    have hrequests : ((s.objectLock r').map Lock.m_requests).getD [] = (monitors s r').waiting := by
      rw [monitors]
      cases s.objectLock r' <;> rfl
    rw [deleteFromLocks, hrequests, deleteRequests_eq r' _ fun hmem => by
      rw [(hwaits r' hmem).1]
      exact (hwaits r' hmem).2]
    have hr := hwaits r'
    grind

theorem Sound.deleteRequest (h : Sound thread s waiter)
    (hwaiter : waiter (thread sth) = some (r, sth)) :
    Sound thread (s.deleteRequest thread sth r).1 (Function.update waiter (thread sth) none) ∧
      (s.deleteRequest thread sth r).2 = true ∧ ∀ r', monitors (s.deleteRequest thread sth r).1 r' =
        ⟨(monitors s r').nesting, (monitors s r').waiting.filter (· ≠ sth)⟩ := by
  obtain ⟨lock, hlock, -⟩ := h.waits ((h.requests r sth).mpr hwaiter)
  have hlockSound := h.locks _ _ hlock
  obtain ⟨hcounts, hremoved⟩ := Counts.sub (s := s.setLock r ((s.objectLock r).map fun lock =>
    { lock with m_requests := lock.m_requests.erase sth })) h.counts hwaiter
  have hx : (s.deleteRequest thread sth r).1.objectLock = Function.update s.objectLock r
      (some { lock with m_requests := lock.m_requests.erase sth }) := by
    simp [Engine.deleteRequest, Engine.changeLockRequestCount, Engine.setLock, hlock]
  refine ⟨h.change hx ?_ (fun th r' => ?_) h.distinct (h.mem_rest hlock hwaiter fun other => ?_)
    (h.own_none _) hcounts, hremoved, fun r' => ?_⟩
  · intro lock' heq
    cases heq
    exact ⟨hlockSound.owned, hlockSound.owners,
      fun other hother => hlockSound.foreign other (List.mem_of_mem_erase hother),
      hlockSound.nodup.erase sth⟩
  · exact h.mem_locks hlock th r'
  · exact hlockSound.nodup.mem_erase_iff.trans and_comm
  · rw [monitors_update hx]
    by_cases hr : r' = r
    · subst hr
      rw [Function.update_self, monitors, hlock]
      have hfilter := hlockSound.nodup.erase_eq_filter sth
      simp only [monitorOf, hfilter, bne, beq_eq_decide, decide_not]
    · have hnot : sth ∉ (monitors s r').waiting := by
        intro hmem
        have hsame := (h.requests r' sth).mp hmem
        rw [hwaiter, Option.some.injEq, Prod.mk.injEq] at hsame
        exact hr hsame.1.symm
      rw [Function.update_of_ne hr, filter_waiting hnot]

theorem Sound.deleteLockRequests (h : Sound thread s waiter) (ready waiting : List Nat)
    (hlisted : ∀ r, sth ∈ (monitors s r).waiting →
      ∃ th ∈ ready ++ waiting, r ∈ s.m_locks th) :
    ∃ waiter', Sound thread (s.deleteLockRequests thread sth ready waiting) waiter' ∧
      ∀ r, monitors (s.deleteLockRequests thread sth ready waiting) r =
        ⟨(monitors s r).nesting, (monitors s r).waiting.filter (· ≠ sth)⟩ := by
  rw [Engine.deleteLockRequests, h.counts.2.1]
  by_cases hsome : (waiter (thread sth)).map Prod.snd = some sth
  · obtain ⟨⟨r, sth'⟩, hwaiter, heq⟩ := Option.map_eq_some_iff.mp hsome
    obtain rfl : sth' = sth := heq
    obtain ⟨hsound, hremoved, hmonitors⟩ := h.deleteRequest hwaiter
    have hsth := (h.requests r sth').mpr hwaiter
    have hwaits : ∀ r', sth' ∈ (monitors s r').waiting →
        r' = r ∧ (s.deleteRequest thread sth' r).2 = true := by
      intro r' hmem
      have hsame := (h.requests r' sth').mp hmem
      rw [hwaiter, Option.some.injEq, Prod.mk.injEq] at hsame
      exact ⟨hsame.1.symm, hremoved⟩
    have hgone : ∀ r', sth' ∉ (monitors (s.deleteRequest thread sth' r).1 r').waiting := by
      intro r'
      rw [hmonitors]
      simp
    have hdeleted : deleteFromLocks thread sth' (waiting.flatMap
        (deleteFromLocks thread sth' (ready.flatMap s.m_locks) s).m_locks)
          (deleteFromLocks thread sth' (ready.flatMap s.m_locks) s) =
        (s.deleteRequest thread sth' r).1 := by
      rw [deleteFromLocks_eq hwaits]
      split
      · rw [deleteFromLocks_eq (r := r) fun r' hmem => absurd hmem (hgone r'),
          if_neg fun hmem => hgone r hmem.2]
      · rename_i hnot
        obtain ⟨th, hth, hr⟩ := hlisted r hsth
        have hready : th ∉ ready := fun hmem =>
          hnot ⟨List.mem_flatMap.mpr ⟨th, hmem, hr⟩, hsth⟩
        rw [deleteFromLocks_eq hwaits, if_pos ⟨List.mem_flatMap.mpr
          ⟨th, (List.mem_append.mp hth).resolve_left hready, hr⟩, hsth⟩]
    rw [if_pos hsome, if_neg Int.one_ne_zero]
    dsimp only
    rw [hdeleted]
    exact ⟨_, hsound, hmonitors⟩
  · rw [if_neg hsome, if_pos rfl]
    refine ⟨waiter, h, fun r => ?_⟩
    rw [filter_waiting fun hmem => hsome ?_]
    rw [(h.requests r sth).mp hmem]
    rfl

theorem does_destroy (h : Sound thread s waiter) {ready waiting : List Nat}
    (hsafe : Safe thread s (.destroy sth answers ready waiting)) :
    Does thread s (.destroy sth answers ready waiting) := by
  obtain ⟨hanswers, hlisted⟩ := hsafe
  have hown : ∀ r ∈ s.m_locks (thread sth),
      ∃ lock, s.objectLock r = some lock ∧ lock.m_owningThread = thread sth := fun r hr =>
    Option.map_eq_some_iff.mp ((h.linked (thread sth) r).mp hr)
  obtain ⟨waiter₁, h₁, hwaiter₁, hsettles, hothers⟩ :=
    h.destroyOwners hanswers _ (h.distinct (thread sth)) hown
  have hforeign : ∀ r, sth ∈ (monitors s r).waiting → r ∉ s.m_locks (thread sth) := by
    intro r hmem hr
    obtain ⟨lock, hlock, hth⟩ := h.waits hmem
    rw [h.linked, hlock] at hr
    exact hth (Option.some.inj hr).symm
  have hwaits : ∀ r, sth ∈ (monitors (destroyOwners thread sth answers
      (s.m_locks (thread sth)) s) r).waiting → sth ∈ (monitors s r).waiting := by
    intro r hmem
    rw [h₁.requests, hwaiter₁] at hmem
    exact (h.requests r sth).mpr hmem
  obtain ⟨waiter₂, h₂, hmonitors⟩ := h₁.deleteLockRequests ready waiting fun r hmem => by
    obtain ⟨lock, hlock, -⟩ := h.waits (hwaits r hmem)
    have hlinked := congrArg (Option.map Lock.m_owningThread) hlock
    refine ⟨lock.m_owningThread, hlisted _ (List.ne_nil_of_mem ((h.linked _ r).mpr hlinked)), ?_⟩
    rw [h₁.linked, hothers r (hforeign r (hwaits r hmem))]
    exact hlinked
  refine ⟨_, .ok, waiter₂, rfl, h₂, .destroy fun r => ?_⟩
  rw [hmonitors]
  by_cases hr : r ∈ s.m_locks (thread sth)
  · rw [filter_waiting fun hmem => hforeign r (hwaits r hmem) hr,
      filter_waiting fun hmem => hforeign r hmem hr]
    exact hsettles r hr
  · have hsame : monitors (destroyOwners thread sth answers (s.m_locks (thread sth)) s) r =
        monitors s r := congrArg monitorOf (hothers r hr)
    have hzero : (monitors s r).nesting sth = 0 := by
      by_contra hinside
      exact hr ((h.linked _ r).mpr (h.owner hinside))
    have hupdate : Function.update (monitors s r).nesting sth 0 = (monitors s r).nesting := by
      rw [← hzero, Function.update_eq_self]
    rw [hsame, hupdate]
    by_cases hfree : (monitors s r).Free
    · refine .free hfree ?_
      rw [h.free_waiting hfree]
      rfl
    · exact .held hfree

/-! ### Runs -/

/-- **Locks are monitors.**  In every run in the order of the program the locks do what monitors do;
    the subthreads inside one are of one thread, no request waits for a monitor that is free, and
    the threads that wait are those with a request. -/
theorem locks_are_monitors (thread : Nat → Nat) (events : List Event)
    (hsafe : Meets (step thread) (Safe thread) initial events) :
    ∃ s results ms, run (step thread) initial events = some (s, results) ∧
      SpecRuns (MonitorStep thread) (fun _ => ⟨fun _ => 0, []⟩) events ms results ∧
      (∀ r a b, (ms r).nesting a ≠ 0 → (ms r).nesting b ≠ 0 → thread a = thread b) ∧
      (∀ r, (ms r).Free → (ms r).waiting = []) ∧
      ∀ th, s.m_status th = .waiting ↔ ∃ r sth, thread sth = th ∧ sth ∈ (ms r).waiting := by
  have hstep : ∀ (s : Engine) (ms : Nat → Monitor) (e : Event),
      (∃ waiter, Sound thread s waiter) ∧ ms = monitors s → Safe thread s e →
        ∃ s' result ms', step thread s e = some (s', result) ∧ MonitorStep thread ms e ms' result ∧
          (∃ waiter, Sound thread s' waiter) ∧ ms' = monitors s' := by
    rintro s _ e ⟨⟨waiter, h⟩, rfl⟩ hsafe
    have hdoes : Does thread s e := by
      cases e with
      | enter r sth answers => exact does_enter h hsafe
      | exit r sth answers => exact does_exit h r sth hsafe
      | destroy sth answers ready waiting => exact does_destroy h hsafe
    obtain ⟨s', result, waiter', hstep, hsound, hspec⟩ := hdoes
    exact ⟨s', result, _, hstep, hspec, ⟨waiter', hsound⟩, rfl⟩
  obtain ⟨s, results, ms, hrun, hspec, ⟨waiter, h⟩, rfl⟩ :=
    run_refines (step thread) (MonitorStep thread) hstep events initial _
      ⟨⟨_, Sound.initial⟩, rfl⟩ hsafe
  refine ⟨s, results, _, hrun, hspec, fun r a b ha hb => ?_, fun r => h.free_waiting, fun th => ?_⟩
  · exact Option.some.inj ((h.owner ha).symm.trans (h.owner hb))
  · rw [h.counts.2.2]
    constructor
    · intro hstatus
      cases hwaiter : waiter th with
      | none => simp [hwaiter] at hstatus
      | some w =>
        have hth := h.own th w.1 w.2 hwaiter
        exact ⟨w.1, w.2, hth, (h.requests w.1 w.2).mpr (hth ▸ hwaiter)⟩
    · rintro ⟨r, sth, rfl, hmem⟩
      simp [(h.requests r sth).mp hmem]

/-- A node of every kind -/
def plenty : Answers := ⟨true, true, true⟩

/-- A thread that waits gets the lock and ends. -/
def handOver : List Event :=
  [.enter 7 0 plenty, .enter 7 1 plenty, .exit 7 0 plenty, .destroy 1 plenty [0] [1]]

theorem locks_are_monitors_handOver :
    ∃ s results ms, run (step id) initial handOver = some (s, results) ∧
      SpecRuns (MonitorStep id) (fun _ => ⟨fun _ => 0, []⟩) handOver ms results := by
  suffices hsafe : Meets (step id) (Safe id) initial handOver by
    obtain ⟨s, results, ms, hrun, hspec, -⟩ := locks_are_monitors id handOver hsafe
    exact ⟨s, results, ms, hrun, hspec⟩
  refine ⟨⟨rfl, fun _ _ => rfl, by decide⟩, fun _ _ hstep => ?_⟩
  cases hstep
  refine ⟨⟨rfl, fun _ _ => rfl, by decide⟩, fun _ _ hstep => ?_⟩
  cases hstep
  refine ⟨rfl, fun _ _ hstep => ?_⟩
  cases hstep
  refine ⟨⟨rfl, fun th hth => ?_⟩, fun _ _ _ => trivial⟩
  rcases th with _ | _ | th
  · exact List.mem_cons_self
  · exact List.mem_cons_of_mem _ List.mem_cons_self
  · exact absurd rfl hth

end TinyClr.Locks
