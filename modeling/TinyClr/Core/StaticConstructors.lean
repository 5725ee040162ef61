import TinyClr.Library.Runs
import Mathlib.Logic.Function.Basic
import Mathlib.Data.List.Basic

/-!
# Static constructors

`CLR_RT_ExecutionEngine::SpawnStaticConstructor` with its helper (`CLR/Core/Execution.cpp`) and
`CLR_RT_Assembly::FindNextStaticConstructor` (`CLR/Core/TypeSystem.cpp`), without application
domains.

An assembly is its place in `m_assemblies`, which may have gaps.  The constructors run on one
thread; when one has been executed, the callback of the thread asks for the next one.
-/

namespace TinyClr.StaticConstructors

open TinyClr.Library

/-! ### Assemblies -/

/-- `CLR_RT_Assembly`: for each method whether it is a static constructor, and the targets of
    `m_pCrossReference_AssemblyRef` -/
structure Assembly where
  methods : List Bool
  references : List Nat
deriving DecidableEq, Repr

abbrev Assemblies := List (Option Assembly)

structure Method where
  assembly : Nat
  method : Nat
deriving DecidableEq, Repr

/-- The loop of `FindNextStaticConstructor` -/
def findNext : List Bool → Nat → Option Nat
  | [], _ => none
  | true :: _, i => some i
  | false :: methods, i => findNext methods (i + 1)

def Assembly.findNextStaticConstructor (a : Assembly) (idx : Nat) : Option Nat :=
  findNext (a.methods.drop idx) idx

/-! ### The execution engine -/

/-- `c_StaticConstructorsExecuted` of each assembly, and `m_cctorThread` with its `m_dlg` -/
structure State where
  executed : Nat → Bool
  thread : Option (Option Method)

def initial : State := ⟨fun _ => false, none⟩

/-- Which allocation fails when a constructor is to be started -/
inductive Answer where
  | started
  | noDelegate
  | noFrame
deriving DecidableEq, Repr

def State.setExecuted (s : State) (assm : Nat) : State :=
  { s with executed := Function.update s.executed assm true }

def spawnStaticConstructorHelper (assm : Nat) (a : Assembly) (idx : Nat) (s : State)
    (answers : List Answer) : State × Option Method × List Answer :=
  match a.findNextStaticConstructor idx with
  | none => (s.setExecuted assm, none, answers)
  | some m =>
      match answers.headD .started with
      | .started => ({ s with thread := some (some ⟨assm, m⟩) }, some ⟨assm, m⟩, answers.tail)
      | .noDelegate => (s.setExecuted assm, none, answers.tail)
      | .noFrame =>
          ({ s.setExecuted assm with thread := some (some ⟨assm, m⟩) }, none, answers.tail)

/-- `fDepedenciesRun` behind the loop over the references -/
def depedenciesRun (s : State) : List Nat → Bool
  | [] => true
  | target :: references =>
      if s.executed target = false then true else depedenciesRun s references

/-- The loop of `SpawnStaticConstructor` over the assemblies from `i` on -/
def scan : Assemblies → Nat → State → List Answer → State × Option Method
  | [], _, s, _ => ({ s with thread := none }, none)
  | none :: assemblies, i, s, answers => scan assemblies (i + 1) s answers
  | some a :: assemblies, i, s, answers =>
      if s.executed i = false then
        if depedenciesRun s a.references then
          match spawnStaticConstructorHelper i a 0 s answers with
          | (s, some m, _) => (s, some m)
          | (s, none, answers) => scan assemblies (i + 1) s answers
        else scan assemblies (i + 1) s answers
      else scan assemblies (i + 1) s answers

/-- A call of `SpawnStaticConstructor`: whether a thread can be made, and what the allocations for
    the constructors answer -/
structure Call where
  newThread : Bool
  answers : List Answer
deriving DecidableEq, Repr

/-- `SpawnStaticConstructor`, by a thread that has terminated or for the first time; with the
    method that is started.  `none` for a method of no assembly. -/
def spawnStaticConstructor (assemblies : Assemblies) (s : State) (c : Call) :
    Option (State × Option Method) :=
  match s.thread with
  | none =>
      if c.newThread then some (scan assemblies 0 { s with thread := some none } c.answers)
      else some (s, none)
  | some none => some (scan assemblies 0 s c.answers)
  | some (some dlg) =>
      match assemblies[dlg.assembly]?.join with
      | none => none
      | some a =>
          match spawnStaticConstructorHelper dlg.assembly a (dlg.method + 1) s c.answers with
          | (s, some m, _) => some (s, some m)
          | (s, none, answers) => some (scan assemblies 0 s answers)

/-! ### The constructors in the order of the assemblies -/

def constructorsOf (assm : Nat) : List Bool → Nat → List Method
  | [], _ => []
  | true :: methods, idx => ⟨assm, idx⟩ :: constructorsOf assm methods (idx + 1)
  | false :: methods, idx => constructorsOf assm methods (idx + 1)

def constructors : Assemblies → Nat → List Method
  | [], _ => []
  | none :: assemblies, i => constructors assemblies (i + 1)
  | some a :: assemblies, i => constructorsOf i a.methods 0 ++ constructors assemblies (i + 1)

def IsConstructor (assemblies : Assemblies) (m : Method) : Prop :=
  ∃ a, assemblies[m.assembly]? = some (some a) ∧ a.methods[m.method]? = some true

def Assembly.constructorsFrom (a : Assembly) (assm idx : Nat) : List Method :=
  constructorsOf assm (a.methods.drop idx) idx

theorem findNext_some (assm : Nat) : ∀ (methods : List Bool) (idx m : Nat),
    findNext methods idx = some m → idx ≤ m ∧
      constructorsOf assm methods idx =
        ⟨assm, m⟩ :: constructorsOf assm (methods.drop (m + 1 - idx)) (m + 1) := by
  intro methods
  induction methods with
  | nil => intro idx m h; cases h
  | cons b methods ih =>
    intro idx m h
    cases b with
    | true =>
      obtain rfl := Option.some.inj h
      refine ⟨Nat.le_refl _, ?_⟩
      rw [Nat.add_sub_cancel_left]
      rfl
    | false =>
      obtain ⟨hle, heq⟩ := ih (idx + 1) m h
      have hdrop : m + 1 - idx = m + 1 - (idx + 1) + 1 := by omega
      refine ⟨by omega, ?_⟩
      rw [hdrop, List.drop_succ_cons, ← heq]
      rfl

theorem findNext_none (assm : Nat) : ∀ (methods : List Bool) (idx : Nat),
    findNext methods idx = none → constructorsOf assm methods idx = [] := by
  intro methods
  induction methods with
  | nil => intro idx _; rfl
  | cons b methods ih =>
    intro idx h
    cases b with
    | true => exact absurd h (by simp [findNext])
    | false => exact ih (idx + 1) h

section Find

variable {a : Assembly} {idx m : Nat} (assm : Nat)

theorem Assembly.constructorsFrom_some (h : a.findNextStaticConstructor idx = some m) :
    a.constructorsFrom assm idx = ⟨assm, m⟩ :: a.constructorsFrom assm (m + 1) := by
  obtain ⟨hle, heq⟩ := findNext_some assm _ _ _ h
  have hsum : idx + (m + 1 - idx) = m + 1 := by omega
  rw [Assembly.constructorsFrom, heq, List.drop_drop, hsum]
  rfl

theorem Assembly.constructorsFrom_none (h : a.findNextStaticConstructor idx = none) :
    a.constructorsFrom assm idx = [] := findNext_none assm _ _ h

end Find

variable {k : Nat}

theorem mem_constructorsOf {assm pos : Nat} : ∀ {methods : List Bool} {idx : Nat},
    ⟨pos, k⟩ ∈ constructorsOf assm methods idx ↔
      pos = assm ∧ idx ≤ k ∧ methods[k - idx]? = some true := by
  intro methods
  induction methods with
  | nil => intro idx; simp [constructorsOf]
  | cons b methods ih =>
    intro idx
    rcases Nat.lt_trichotomy k idx with hlt | rfl | hgt
    · cases b <;> simp only [constructorsOf, List.mem_cons, ih, Method.mk.injEq] <;> omega
    · have hself : ¬ k + 1 ≤ k := Nat.not_succ_le_self k
      cases b <;> simp only [constructorsOf, List.mem_cons, ih, Method.mk.injEq, hself, false_and,
        and_false, or_false, and_true, Nat.le_refl, Nat.sub_self, List.getElem?_cons_zero,
        Option.some.injEq, Bool.false_eq_true]
    · have hsub : k - idx = k - (idx + 1) + 1 := by omega
      rw [hsub, List.getElem?_cons_succ]
      cases b <;> simp only [constructorsOf, List.mem_cons, ih, Method.mk.injEq] <;> grind

theorem mem_constructors {m : Method} : ∀ {assemblies : Assemblies} {i : Nat},
    m ∈ constructors assemblies i ↔ i ≤ m.assembly ∧
      ∃ a, assemblies[m.assembly - i]? = some (some a) ∧ a.methods[m.method]? = some true := by
  intro assemblies
  induction assemblies with
  | nil => intro i; simp [constructors]
  | cons x assemblies ih =>
    intro i
    obtain ⟨pos, k⟩ := m
    rcases Nat.lt_trichotomy pos i with hlt | rfl | hgt
    · cases x with
      | none =>
        rw [constructors, ih]
        exact ⟨fun h => absurd h.1 (by dsimp only; omega), fun h => absurd h.1 (by dsimp only; omega)⟩
      | some a =>
        rw [constructors, List.mem_append, mem_constructorsOf, ih]
        dsimp only
        omega
    · have hself : ¬ pos + 1 ≤ pos := Nat.not_succ_le_self pos
      cases x with
      | none =>
        rw [constructors, ih]
        simp only [hself, false_and, Nat.le_refl, true_and, Nat.sub_self, List.getElem?_cons_zero,
          Option.some.injEq, reduceCtorEq, exists_false]
      | some a =>
        rw [constructors, List.mem_append, mem_constructorsOf, ih]
        simp only [hself, false_and, or_false, Nat.zero_le, true_and, Nat.sub_zero, Nat.le_refl,
          Nat.sub_self, List.getElem?_cons_zero, Option.some.injEq, exists_eq_left']
    · have hsub : pos - i = pos - (i + 1) + 1 := by omega
      cases x with
      | none =>
        rw [constructors, ih]
        dsimp only
        rw [hsub, List.getElem?_cons_succ]
        exact and_congr_left' (by omega)
      | some a =>
        rw [constructors, List.mem_append, mem_constructorsOf, ih]
        dsimp only
        rw [hsub, List.getElem?_cons_succ]
        constructor
        · rintro (h | h)
          · omega
          · exact ⟨by omega, h.2⟩
        · exact fun h => Or.inr ⟨by omega, h.2⟩

/-- A constructor comes before another one. -/
def Before (m m' : Method) : Prop :=
  m.assembly < m'.assembly ∨ m.assembly = m'.assembly ∧ m.method < m'.method

theorem pairwise_constructorsOf (assm : Nat) : ∀ (methods : List Bool) (idx : Nat),
    (constructorsOf assm methods idx).Pairwise Before := by
  intro methods
  induction methods with
  | nil => intro idx; exact List.Pairwise.nil
  | cons b methods ih =>
    intro idx
    cases b with
    | true =>
      refine List.Pairwise.cons (fun m hm => ?_) (ih (idx + 1))
      obtain ⟨hassm, hle, -⟩ := mem_constructorsOf.mp hm
      exact Or.inr ⟨hassm.symm, hle⟩
    | false => exact ih (idx + 1)

theorem pairwise_constructors : ∀ (assemblies : Assemblies) (i : Nat),
    (constructors assemblies i).Pairwise Before := by
  intro assemblies
  induction assemblies with
  | nil => intro i; exact List.Pairwise.nil
  | cons x assemblies ih =>
    intro i
    cases x with
    | none => exact ih (i + 1)
    | some a =>
      refine List.pairwise_append.mpr ⟨pairwise_constructorsOf i _ _, ih (i + 1), ?_⟩
      intro m hm m' hm'
      have hassm : m.assembly = i := (mem_constructorsOf.mp hm).1
      have hle : i + 1 ≤ m'.assembly := (mem_constructors.mp hm').1
      exact Or.inl (by omega)

variable {i : Nat}

theorem constructors_gap {assemblies : Assemblies} (h : assemblies[i]? = some none) :
    constructors (assemblies.drop i) i = constructors (assemblies.drop (i + 1)) (i + 1) := by
  obtain ⟨hlt, hget⟩ := List.getElem?_eq_some_iff.mp h
  rw [List.drop_eq_getElem_cons hlt, hget]
  rfl

theorem constructors_assembly {assemblies : Assemblies} {a : Assembly}
    (h : assemblies[i]? = some (some a)) : constructors (assemblies.drop i) i =
      a.constructorsFrom i 0 ++ constructors (assemblies.drop (i + 1)) (i + 1) := by
  obtain ⟨hlt, hget⟩ := List.getElem?_eq_some_iff.mp h
  rw [List.drop_eq_getElem_cons hlt, hget]
  rfl

/-! ### What one call does -/

section Calls

variable {assemblies : Assemblies} {s : State}

structure Call.Succeeds (c : Call) : Prop where
  newThread : c.newThread = true
  answers : ∀ answer ∈ c.answers, answer = .started

/-- The assemblies in front of `cur` are done, and none from there on. -/
def Flags (assemblies : Assemblies) (s : State) (cur : Nat) : Prop :=
  ∀ i a, assemblies[i]? = some (some a) → (s.executed i = true ↔ i < cur)

/-- The constructors that are still to be started -/
inductive Remaining (assemblies : Assemblies) (s : State) : List Method → Prop where
  | between {cur : Nat} (hflags : Flags assemblies s cur)
      (hthread : s.thread = none ∨ s.thread = some none) :
      Remaining assemblies s (constructors (assemblies.drop cur) cur)
  | inside {cur m : Nat} {a : Assembly} (hflags : Flags assemblies s cur)
      (ha : assemblies[cur]? = some (some a)) (hthread : s.thread = some (some ⟨cur, m⟩)) :
      Remaining assemblies s (a.constructorsFrom cur (m + 1) ++
        constructors (assemblies.drop (cur + 1)) (cur + 1))

def Finished (assemblies : Assemblies) (s : State) : Prop :=
  s.thread = none ∧ ∀ i a, assemblies[i]? = some (some a) → s.executed i = true

/-- A call starts the first of the constructors that remain, or ends the process. -/
inductive Starts (assemblies : Assemblies) (s : State) : List Method → Option Method → Prop where
  | started {m : Method} {rest : List Method} (h : Remaining assemblies s rest) :
      Starts assemblies s (m :: rest) (some m)
  | ended (h : Remaining assemblies s []) (hfinished : Finished assemblies s) :
      Starts assemblies s [] none

theorem depedenciesRun_eq (s : State) : ∀ references, depedenciesRun s references = true := by
  intro references
  induction references with
  | nil => rfl
  | cons target references ih =>
    rw [depedenciesRun]
    split
    · rfl
    · exact ih

variable {answers : List Answer}

theorem headD_started (h : ∀ answer ∈ answers, answer = .started) :
    answers.headD .started = .started := by
  cases answers with
  | nil => rfl
  | cons answer answers => exact h answer List.mem_cons_self

theorem Flags.next {cur : Nat} (h : Flags assemblies s cur) :
    Flags assemblies (s.setExecuted cur) (cur + 1) := by
  intro i a ha
  by_cases hi : i = cur
  · subst hi
    simp only [State.setExecuted, Function.update_self, Nat.lt_succ_self]
  · simp only [State.setExecuted, Function.update_of_ne hi, h i a ha]
    omega

theorem Flags.gap {cur : Nat} (h : Flags assemblies s cur) (hgap : assemblies[cur]? = some none) :
    Flags assemblies s (cur + 1) := by
  intro i a ha
  have hne : i ≠ cur := by
    rintro rfl
    rw [hgap] at ha
    exact absurd (Option.some.inj ha) (by simp)
  rw [h i a ha]
  omega

/-- `SpawnStaticConstructorHelper` starts the next constructor of the assembly, or sets its flag. -/
theorem helper_spec (cur : Nat) (a : Assembly) (idx : Nat)
    (hflags : Flags assemblies s cur) (hanswers : ∀ answer ∈ answers, answer = .started) :
    (∃ m s' answers', spawnStaticConstructorHelper cur a idx s answers = (s', some ⟨cur, m⟩, answers') ∧
      a.constructorsFrom cur idx = ⟨cur, m⟩ :: a.constructorsFrom cur (m + 1) ∧
      Flags assemblies s' cur ∧ s'.thread = some (some ⟨cur, m⟩)) ∨
    (spawnStaticConstructorHelper cur a idx s answers = (s.setExecuted cur, none, answers) ∧
      a.constructorsFrom cur idx = []) := by
  rw [spawnStaticConstructorHelper]
  rcases hfind : a.findNextStaticConstructor idx with _ | m
  · exact Or.inr ⟨rfl, Assembly.constructorsFrom_none cur hfind⟩
  · refine Or.inl ⟨m, { s with thread := some (some ⟨cur, m⟩) }, answers.tail, ?_,
      Assembly.constructorsFrom_some cur hfind, hflags, rfl⟩
    rw [headD_started hanswers]

/-- The loop of `SpawnStaticConstructor` over the assemblies from `i` on -/
theorem scan_spec (hanswers : ∀ answer ∈ answers, answer = .started) :
    ∀ (suffix : Assemblies) (i cur : Nat) (s : State), assemblies.drop i = suffix → i ≤ cur →
      Flags assemblies s cur →
      Starts assemblies (scan suffix i s answers).1 (constructors (assemblies.drop cur) cur)
        (scan suffix i s answers).2 := by
  intro suffix
  induction suffix with
  | nil =>
    intro i cur s hdrop hle hflags
    have hlength : assemblies.length ≤ cur :=
      Nat.le_trans (List.drop_eq_nil_iff.mp hdrop) hle
    have hnil : constructors (assemblies.drop cur) cur = [] := by
      rw [List.drop_eq_nil_of_le hlength]
      rfl
    rw [hnil, scan]
    refine .ended ?_ ⟨rfl, fun i a ha => ?_⟩
    · rw [← hnil]
      exact .between hflags (Or.inl rfl)
    · exact (hflags i a ha).mpr (Nat.lt_of_lt_of_le (List.getElem?_eq_some_iff.mp ha).1 hlength)
  | cons x suffix ih =>
    intro i cur s hdrop hle hflags
    have hget : assemblies[i]? = some x := by
      rw [← List.head?_drop, hdrop]
      rfl
    have hnext : assemblies.drop (i + 1) = suffix := by
      rw [← List.drop_drop, hdrop]
      rfl
    rcases Nat.lt_or_eq_of_le hle with hlt | rfl
    · have hskip : scan (x :: suffix) i s answers = scan suffix (i + 1) s answers := by
        cases x with
        | none => rfl
        | some a => exact if_neg (by rw [(hflags i a hget).mpr hlt]; simp)
      rw [hskip]
      exact ih (i + 1) cur s hnext hlt hflags
    · cases x with
      | none =>
        rw [constructors_gap hget]
        exact ih (i + 1) (i + 1) s hnext (Nat.le_refl _) (hflags.gap hget)
      | some a =>
        have hexecuted : s.executed i = false := by
          rw [← Bool.not_eq_true, hflags i a hget]
          exact Nat.lt_irrefl i
        rw [constructors_assembly hget, scan, if_pos hexecuted, if_pos (depedenciesRun_eq s _)]
        rcases helper_spec i a 0 hflags hanswers with
          ⟨m, s', answers', heq, hfrom, hflags', hthread⟩ | ⟨heq, hfrom⟩
        · rw [heq, hfrom]
          exact .started (.inside hflags' hget hthread)
        · rw [heq, hfrom]
          exact ih (i + 1) (i + 1) _ hnext (Nat.le_refl _) hflags.next

/-- **One call** -/
theorem spawnStaticConstructor_spec {c : Call} (hc : c.Succeeds) {rest : List Method}
    (hs : Remaining assemblies s rest) : ∃ s' r, spawnStaticConstructor assemblies s c = some (s', r) ∧
      Starts assemblies s' rest r := by
  rw [spawnStaticConstructor]
  cases hs with
  | @between cur hflags hthread =>
    rcases hthread with hthread | hthread
    · rw [hthread]
      dsimp only
      rw [if_pos hc.newThread]
      exact ⟨_, _, rfl, scan_spec hc.answers assemblies 0 cur _ rfl (Nat.zero_le _) hflags⟩
    · rw [hthread]
      exact ⟨_, _, rfl, scan_spec hc.answers assemblies 0 cur _ rfl (Nat.zero_le _) hflags⟩
  | @inside cur m a hflags ha hthread =>
    rw [hthread]
    dsimp only
    rw [ha]
    rcases helper_spec cur a (m + 1) hflags hc.answers with
      ⟨m', s', answers', heq, hfrom, hflags', hthread'⟩ | ⟨heq, hfrom⟩
    · rw [hfrom]
      exact ⟨s', some ⟨cur, m'⟩, by simp only [Option.join_some, heq],
        .started (.inside hflags' ha hthread')⟩
    · rw [hfrom]
      refine ⟨_, _, by simp only [Option.join_some, heq]; rfl, ?_⟩
      exact scan_spec hc.answers assemblies 0 (cur + 1) _ rfl (Nat.zero_le _) hflags.next

/-- The calls of a run start the constructors that remain one after the other. -/
theorem run_spec : ∀ (calls : List Call) (s : State) (rest : List Method),
    (∀ c ∈ calls, c.Succeeds) → Remaining assemblies s rest →
      ∃ s' rs, run (spawnStaticConstructor assemblies) s calls = some (s', rs) ∧
        rs = (List.range calls.length).map (fun k => rest[k]?) ∧
        (rest.length < calls.length → Finished assemblies s') := by
  intro calls
  induction calls with
  | nil => intro s rest _ _; exact ⟨s, [], rfl, rfl, fun h => absurd h (Nat.not_lt_zero _)⟩
  | cons c calls ih =>
    intro s rest hcalls hs
    obtain ⟨s₁, r, hstep, hstarts⟩ := spawnStaticConstructor_spec (hcalls c List.mem_cons_self) hs
    have hrest : ∀ c' ∈ calls, c'.Succeeds := fun c' hc' => hcalls c' (List.mem_cons_of_mem c hc')
    cases hstarts with
    | @started m rest h =>
      obtain ⟨s', rs, hrun, hrs, hfinished⟩ := ih s₁ rest hrest h
      refine ⟨s', some m :: rs, by rw [run_cons _ calls hstep, hrun]; rfl, ?_, fun hlt =>
        hfinished (Nat.lt_of_succ_lt_succ hlt)⟩
      rw [List.length_cons, List.range_succ_eq_map, List.map_cons, List.map_map, hrs]
      rfl
    | ended h hfinished =>
      obtain ⟨s', rs, hrun, hrs, hlast⟩ := ih s₁ [] hrest h
      refine ⟨s', none :: rs, by rw [run_cons _ calls hstep, hrun]; rfl, ?_, fun _ => ?_⟩
      · rw [List.length_cons, List.range_succ_eq_map, List.map_cons, List.map_map, hrs]
        rfl
      · cases calls with
        | nil =>
          obtain ⟨rfl, -⟩ := Prod.mk.inj (Option.some.inj hrun)
          exact hfinished
        | cons c' calls => exact hlast (Nat.succ_pos _)

end Calls

/-! ### Runs -/

/-- A constructor is started after all those of the assemblies that its assembly references. -/
def Respected (assemblies : Assemblies) (rs : List (Option Method)) : Prop :=
  ∀ (k : Nat) (m : Method) (a : Assembly), rs[k]? = some (some m) →
    assemblies[m.assembly]? = some (some a) → ∀ b ∈ a.references, ∀ m',
      IsConstructor assemblies ⟨b, m'⟩ → some ⟨b, m'⟩ ∈ rs.take k

def all (assemblies : Assemblies) : List Method := constructors assemblies 0

/-- An assembly with static constructors stands behind those that it references and that have some. -/
def Ordered (assemblies : Assemblies) : Prop :=
  ∀ (m : Method) (a : Assembly), IsConstructor assemblies m →
    assemblies[m.assembly]? = some (some a) → ∀ b ∈ a.references, ∀ m',
      IsConstructor assemblies ⟨b, m'⟩ → b < m.assembly

section Runs

variable {assemblies : Assemblies}

theorem mem_all {m : Method} : m ∈ all assemblies ↔ IsConstructor assemblies m := by
  rw [all, mem_constructors, Nat.sub_zero]
  exact and_iff_right (Nat.zero_le _)

theorem before_of_lt {j : Nat} {m m' : Method} (hm : (all assemblies)[i]? = some m)
    (hm' : (all assemblies)[j]? = some m') (hij : i < j) : Before m m' := by
  obtain ⟨hi, rfl⟩ := List.getElem?_eq_some_iff.mp hm
  obtain ⟨hj, rfl⟩ := List.getElem?_eq_some_iff.mp hm'
  exact List.pairwise_iff_getElem.mp (pairwise_constructors assemblies 0) i j hi hj hij

theorem remaining_initial (assemblies : Assemblies) :
    Remaining assemblies initial (all assemblies) := by
  have hflags : Flags assemblies initial 0 := fun _ _ _ => by simp [initial]
  exact .between hflags (Or.inl rfl)

def replies (assemblies : Assemblies) (n : Nat) : List (Option Method) :=
  (List.range n).map fun k => (all assemblies)[k]?

theorem replies_getElem? {n : Nat} {m : Method} :
    (replies assemblies n)[k]? = some (some m) ↔ k < n ∧ (all assemblies)[k]? = some m := by
  rw [replies, List.getElem?_map, Option.map_eq_some_iff]
  constructor
  · rintro ⟨j, hj, hm⟩
    obtain ⟨hlt, rfl⟩ := List.getElem?_eq_some_iff.mp hj
    rw [List.getElem_range] at hm
    rw [List.length_range] at hlt
    exact ⟨hlt, hm⟩
  · rintro ⟨hlt, hm⟩
    exact ⟨k, List.getElem?_range hlt, hm⟩

theorem mem_take_replies {n : Nat} {m : Method} :
    some m ∈ (replies assemblies n).take k ↔ ∃ j < min k n, (all assemblies)[j]? = some m := by
  rw [replies, ← List.map_take, List.take_range, List.mem_map]
  simp only [List.mem_range]

theorem respected_of_ordered (h : Ordered assemblies) (n : Nat) :
    Respected assemblies (replies assemblies n) := by
  intro k m a hk ha b hb m' hm'
  obtain ⟨hkn, hm⟩ := replies_getElem?.mp hk
  have hlt := h m a (mem_all.mp (List.mem_of_getElem? hm)) ha b hb m' hm'
  obtain ⟨j, hj⟩ := List.getElem?_of_mem (mem_all.mpr hm')
  refine mem_take_replies.mpr ⟨j, ?_, hj⟩
  have hjk : ¬ k ≤ j := by
    intro hkj
    rcases Nat.lt_or_eq_of_le hkj with hkj | rfl
    · rcases before_of_lt hm hj hkj with hbefore | ⟨heq, -⟩
      · exact Nat.lt_asymm hlt hbefore
      · exact absurd heq (Nat.ne_of_gt hlt)
    · rw [hm] at hj
      obtain rfl := Option.some.inj hj
      exact Nat.lt_irrefl _ hlt
  omega

theorem ordered_of_respected (h : ∀ n, Respected assemblies (replies assemblies n)) :
    Ordered assemblies := by
  intro m a hm ha b hb m' hm'
  obtain ⟨k, hk⟩ := List.getElem?_of_mem (mem_all.mpr hm)
  have hbefore : ∀ m₁, IsConstructor assemblies ⟨b, m₁⟩ → Before ⟨b, m₁⟩ m := by
    intro m₁ hm₁
    obtain ⟨j, hj, hj'⟩ := mem_take_replies.mp
      (h (k + 1) k m a (replies_getElem?.mpr ⟨Nat.lt_succ_self k, hk⟩) ha b hb m₁ hm₁)
    exact before_of_lt hj' hk (Nat.lt_of_lt_of_le hj (Nat.min_le_left _ _))
  rcases hbefore m' hm' with hlt | ⟨rfl, -⟩
  · exact hlt
  · -- an assembly that references itself
    rcases hbefore m.method hm with hlt | ⟨-, hlt⟩
    · exact hlt
    · exact absurd hlt (Nat.lt_irrefl _)

/-- **The static constructors respect the references exactly if the assemblies stand in the order of
    their references; the process ends with every assembly flagged in any case.** -/
theorem constructors_respected_iff (assemblies : Assemblies) :
    (∀ calls : List Call, (∀ c ∈ calls, c.Succeeds) →
      ∃ s rs, run (spawnStaticConstructor assemblies) initial calls = some (s, rs) ∧
        Respected assemblies rs ∧
        ((all assemblies).length < calls.length → Finished assemblies s)) ↔
      Ordered assemblies := by
  constructor
  · intro h
    refine ordered_of_respected fun n => ?_
    have hcalls : ∀ c ∈ List.replicate n (⟨true, []⟩ : Call), c.Succeeds := by
      intro c hc
      obtain rfl := List.eq_of_mem_replicate hc
      exact ⟨rfl, fun _ hanswer => absurd hanswer List.not_mem_nil⟩
    obtain ⟨s, rs, hrun, hrespected, -⟩ := h _ hcalls
    obtain ⟨s', rs', hrun', hrs, -⟩ :=
      run_spec (List.replicate n ⟨true, []⟩) initial _ hcalls (remaining_initial assemblies)
    rw [hrun] at hrun'
    obtain ⟨-, rfl⟩ := Prod.mk.inj (Option.some.inj hrun')
    rw [List.length_replicate] at hrs
    rw [hrs] at hrespected
    exact hrespected
  · intro h calls hcalls
    obtain ⟨s, rs, hrun, rfl, hfinished⟩ :=
      run_spec calls initial _ hcalls (remaining_initial assemblies)
    exact ⟨s, _, hrun, respected_of_ordered h _, hfinished⟩

end Runs

/-- Two assemblies with one static constructor each; the first one references the second one. -/
def unordered : Assemblies := [some ⟨[true], [1]⟩, some ⟨[true], []⟩]

/-- The constructor of the first assembly is started before that of the one it references. -/
theorem started_before_reference : ¬ ∀ calls : List Call, (∀ c ∈ calls, c.Succeeds) →
    ∃ s rs, run (spawnStaticConstructor unordered) initial calls = some (s, rs) ∧
      Respected unordered rs ∧ ((all unordered).length < calls.length → Finished unordered s) := by
  intro hall
  obtain ⟨s, rs, hrun, hrespected, -⟩ := hall [⟨true, []⟩] fun c hc => by
    obtain rfl := List.mem_singleton.mp hc
    exact ⟨rfl, fun _ hanswer => absurd hanswer List.not_mem_nil⟩
  have hreplies : (run (spawnStaticConstructor unordered) initial [⟨true, []⟩]).map (·.2) =
      some [some ⟨0, 0⟩] := by decide
  rw [hrun] at hreplies
  have hrs : rs = [some ⟨0, 0⟩] := Option.some.inj hreplies
  rw [hrs] at hrespected
  have hmem := hrespected 0 ⟨0, 0⟩ ⟨[true], [1]⟩ rfl rfl 1 (by decide) 0 ⟨⟨[true], []⟩, rfl, rfl⟩
  exact absurd hmem (by decide)

end TinyClr.StaticConstructors
