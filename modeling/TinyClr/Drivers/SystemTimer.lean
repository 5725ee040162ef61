import TinyClr.Library.MachineInt
import TinyClr.Library.Runs

/-!
# The system timer

`AT91_TIME_Driver::CounterValue` (`DeviceCode/Targets/Native/AT91/DeviceCode/AT91_TIME`), which makes
a tick counter of 64 bits from the 16-bit counter of the hardware and its overflow flag.

The hardware counts on between any two accesses to its registers; reading the status register
clears the flag.
-/

namespace TinyClr.SystemTimer

open TinyClr.Library

/-! ### The hardware -/

/-- The timer: the ticks since it was started, and `TC_COVFS` -/
structure Timer where
  ticks : Nat
  covfs : Bool
deriving DecidableEq, Repr

namespace Timer

/-- How often the counter has wrapped around -/
def wraps (t : Timer) : Nat := t.ticks / 2 ^ 16

def advance (t : Timer) (n : Nat) : Timer :=
  ⟨t.ticks + n, t.covfs || decide (t.ticks / 2 ^ 16 < (t.ticks + n) / 2 ^ 16)⟩

def readCounter (t : Timer) : UInt16 := UInt16.ofNat t.ticks

def didTimerOverFlow (t : Timer) : Bool × Timer := (t.covfs, { t with covfs := false })

end Timer

/-! ### The driver -/

structure State where
  timer : Timer
  lastRead : UInt64
deriving DecidableEq, Repr

/-- After `Initialize` -/
def initial : State := ⟨⟨0, false⟩, 0⟩

/-- A call: the ticks before it is entered, up to the access to the counter, from there to that to
    the flag, and up to the return -/
structure Call where
  before : Nat
  toCounter : Nat
  toFlag : Nat
  toReturn : Nat
deriving DecidableEq, Repr

def counterValue (s : State) (c : Call) : State × UInt64 :=
  let timer := s.timer.advance (c.before + c.toCounter)
  let value := timer.readCounter
  let lastRead := s.lastRead &&& 0xFFFFFFFFFFFF0000
  let (overflow, timer) := (timer.advance c.toFlag).didTimerOverFlow
  let lastRead := if overflow then lastRead + (1 : UInt64) <<< (16 : UInt64) else lastRead
  let lastRead := lastRead ||| value.toUInt64
  (⟨timer.advance c.toReturn, lastRead⟩, lastRead)

def step (s : State) (c : Call) : Option (State × UInt64) := some (counterValue s c)

/-! ### What a call returns -/

def State.counterAt (s : State) (c : Call) : Nat := s.timer.ticks + c.before + c.toCounter

def State.flagAt (s : State) (c : Call) : Nat := s.counterAt c + c.toFlag

def State.high (s : State) : Nat := s.lastRead.toNat / 2 ^ 16

/-- The counter does not wrap around between the two accesses, and at most once since the flag was
    read before. -/
structure Proper (s : State) (c : Call) : Prop where
  together : s.counterAt c / 2 ^ 16 = s.flagAt c / 2 ^ 16
  once : s.flagAt c / 2 ^ 16 ≤ s.high + 1
  fits : s.flagAt c < 2 ^ 64

/-- The value is the number of ticks at an instant of the call. -/
def Exact (s : State) (c : Call) (s' : State) (r : UInt64) : Prop :=
  s.timer.ticks + c.before ≤ r.toNat ∧ r.toNat ≤ s'.timer.ticks

/-- The flag tells whether the counter has wrapped around since the last value. -/
structure Synced (s : State) : Prop where
  le : s.high ≤ s.timer.wraps
  covfs : s.timer.covfs = true ↔ s.high < s.timer.wraps

theorem initial_synced : Synced initial := ⟨Nat.le_refl _, by decide⟩

theorem and_high (x : Nat) (hx : x < 2 ^ 64) : x &&& 0xFFFFFFFFFFFF0000 = x / 2 ^ 16 * 2 ^ 16 := by
  have hlow : (x &&& 0xFFFFFFFFFFFF0000) % 2 ^ 16 = 0 := by
    rw [Nat.and_mod_two_pow]
    exact Nat.and_zero _
  have hhigh : (x &&& 0xFFFFFFFFFFFF0000) / 2 ^ 16 = x / 2 ^ 16 := by
    rw [Nat.and_div_two_pow]
    exact (and_mask 48 (by decide) _).trans (Nat.mod_eq_of_lt (by omega))
  have hdiv := Nat.div_add_mod (x &&& 0xFFFFFFFFFFFF0000) (2 ^ 16)
  omega

theorem toNat_join (lastRead : UInt64) (value : UInt16) (overflow : Bool)
    (hfits : lastRead.toNat / 2 ^ 16 + (if overflow then 1 else 0) < 2 ^ 48) :
    ((if overflow then (lastRead &&& 0xFFFFFFFFFFFF0000) + (1 : UInt64) <<< (16 : UInt64)
        else lastRead &&& 0xFFFFFFFFFFFF0000) ||| value.toUInt64).toNat =
      (lastRead.toNat / 2 ^ 16 + if overflow then 1 else 0) * 2 ^ 16 + value.toNat := by
  have hhigh : (lastRead &&& 0xFFFFFFFFFFFF0000).toNat = lastRead.toNat / 2 ^ 16 * 2 ^ 16 := by
    rw [UInt64.toNat_and]
    exact and_high _ lastRead.toNat_lt
  have hvalue : value.toNat < 2 ^ 16 := value.toNat_lt
  rw [← shift_or 16 _ hvalue, UInt64.toNat_or, UInt16.toNat_toUInt64, Nat.shiftLeft_eq]
  congr 1
  cases overflow with
  | false => exact hhigh
  | true =>
    rw [if_pos rfl] at hfits
    have hone : ((1 : UInt64) <<< (16 : UInt64)).toNat = 2 ^ 16 := by decide
    simp only [if_true]
    rw [UInt64.toNat_add, hhigh, hone]
    omega

variable {s : State}

/-- The flag as it is read: it is set when the counter has wrapped around before the call or in it. -/
theorem covfs_at {c : Call} (hs : Synced s) (hproper : Proper s c) :
    (s.timer.advance (c.before + c.toCounter)).advance c.toFlag =
      ⟨s.flagAt c, decide (s.high < s.flagAt c / 2 ^ 16)⟩ := by
  have hticks : s.timer.ticks + (c.before + c.toCounter) = s.counterAt c :=
    (Nat.add_assoc _ _ _).symm
  have hflag : s.counterAt c + c.toFlag = s.flagAt c := rfl
  have hmono : s.timer.ticks / 2 ^ 16 ≤ s.counterAt c / 2 ^ 16 :=
    Nat.div_le_div_right (hticks ▸ Nat.le_add_right _ _)
  have hle : s.high ≤ s.timer.ticks / 2 ^ 16 := hs.le
  have hcovfs : s.timer.covfs = true ↔ s.high < s.timer.ticks / 2 ^ 16 := hs.covfs
  simp only [Timer.advance, hticks, hflag, Timer.mk.injEq, true_and]
  rw [← hproper.together, Bool.or_assoc, Bool.eq_iff_iff]
  simp only [Bool.or_eq_true, decide_eq_true_eq, hcovfs]
  omega

theorem counterValue_eq {c : Call} (hs : Synced s) (hproper : Proper s c) :
    (counterValue s c).2.toNat = s.counterAt c ∧
      (counterValue s c).1.timer = Timer.advance ⟨s.flagAt c, false⟩ c.toReturn ∧
      (counterValue s c).1.high = s.flagAt c / 2 ^ 16 := by
  obtain ⟨htogether, honce, hfits⟩ := hproper
  have hcovfs := covfs_at hs ⟨htogether, honce, hfits⟩
  have hticks : (s.timer.advance (c.before + c.toCounter)).ticks = s.counterAt c :=
    (Nat.add_assoc _ _ _).symm
  have hle : s.high ≤ s.flagAt c / 2 ^ 16 := by
    refine Nat.le_trans hs.le (Nat.div_le_div_right ?_)
    rw [State.flagAt, State.counterAt, Nat.add_assoc, Nat.add_assoc]
    exact Nat.le_add_right _ _
  have hhigh : s.high + (if decide (s.high < s.flagAt c / 2 ^ 16) then 1 else 0) =
      s.flagAt c / 2 ^ 16 := by
    by_cases hlt : s.high < s.flagAt c / 2 ^ 16
    · rw [decide_eq_true hlt, if_pos rfl]
      omega
    · rw [decide_eq_false hlt, if_neg Bool.false_ne_true]
      omega
  have hvalue : (counterValue s c).2.toNat = s.counterAt c := by
    have hjoin := toNat_join s.lastRead (UInt16.ofNat (s.counterAt c))
      (decide (s.high < s.flagAt c / 2 ^ 16)) (by
        refine lt_of_eq_of_lt hhigh ?_
        omega)
    have hlast : s.lastRead.toNat / 2 ^ 16 = s.high := rfl
    simp only [counterValue, Timer.didTimerOverFlow, hcovfs, Timer.readCounter, hticks]
    rw [hjoin, hlast, hhigh, ← htogether, UInt16.toNat_ofNat']
    have hdiv := Nat.div_add_mod (s.counterAt c) (2 ^ 16)
    omega
  refine ⟨hvalue, ?_, ?_⟩
  · simp only [counterValue, Timer.didTimerOverFlow, hcovfs]
  · rw [← htogether, ← hvalue]
    rfl

/-- **One call** -/
theorem counterValue_spec {c : Call} (hs : Synced s) (hproper : Proper s c) :
    Exact s c (counterValue s c).1 (counterValue s c).2 ∧ Synced (counterValue s c).1 := by
  obtain ⟨hvalue, htimer, hhigh'⟩ := counterValue_eq hs hproper
  refine ⟨⟨?_, ?_⟩, ?_, ?_⟩
  · rw [hvalue]
    exact Nat.le_add_right _ _
  · rw [hvalue, htimer]
    exact Nat.le_trans (Nat.le_add_right _ _) (Nat.le_add_right _ _)
  · rw [hhigh', htimer]
    exact Nat.div_le_div_right (Nat.le_add_right _ _)
  · rw [hhigh', htimer, Timer.advance, Bool.false_or]
    exact decide_eq_true_iff

/-! ### The bound on the time between calls -/

/-- The ticks from the end of the call before to the end of this one -/
def Call.length (c : Call) : Nat := c.before + c.toCounter + c.toFlag + c.toReturn

/-- The counter does not wrap around from the access to it to the return, and fewer than 65536 ticks
    pass between the ends of consecutive calls. -/
structure Steady (s : State) (c : Call) : Prop where
  together : s.counterAt c / 2 ^ 16 = (s.flagAt c + c.toReturn) / 2 ^ 16
  short : c.length < 2 ^ 16
  fits : s.flagAt c < 2 ^ 64

/-- The bound is enough for one wrap at most. -/
theorem Steady.proper {c : Call} (h : Steady s c) (hhigh : s.high = s.timer.wraps) : Proper s c := by
  obtain ⟨htogether, hshort, hfits⟩ := h
  simp only [Call.length, State.flagAt, State.counterAt, Timer.wraps] at *
  refine ⟨?_, ?_, hfits⟩
  · simp only [State.flagAt, State.counterAt]
    omega
  · simp only [State.flagAt, State.counterAt]
    omega

theorem meets_proper : ∀ (calls : List Call) (s : State), Synced s → s.high = s.timer.wraps →
    Meets step Steady s calls → Meets step Proper s calls := by
  intro calls
  induction calls with
  | nil => exact fun _ _ _ _ => trivial
  | cons c calls ih =>
    rintro s hs hhigh ⟨hsteady, hrest⟩
    have hproper := hsteady.proper hhigh
    refine ⟨hproper, fun s' r hstep => ?_⟩
    have hcall := hrest s' r hstep
    obtain rfl : (counterValue s c).1 = s' := congrArg Prod.fst (Option.some.inj hstep)
    obtain ⟨-, htimer, hnext⟩ := counterValue_eq hs hproper
    refine ih _ (counterValue_spec hs hproper).2 ?_ hcall
    rw [hnext, htimer, ← hproper.together]
    exact hsteady.together

/-! ### Runs -/

theorem pairwise_le {s' : State} {calls : List Call} {rs : List UInt64}
    (h : SpecRuns Exact s calls s' rs) :
    (∀ r ∈ rs, s.timer.ticks ≤ r.toNat) ∧ rs.Pairwise fun r r' => r ≤ r' := by
  induction h with
  | nil s => exact ⟨by simp, List.Pairwise.nil⟩
  | cons hstep _ ih =>
    obtain ⟨hbound, hpairwise⟩ := ih
    obtain ⟨hfrom, hto⟩ := hstep
    refine ⟨fun r hr => ?_, List.Pairwise.cons (fun r hr => ?_) hpairwise⟩
    · rcases List.mem_cons.mp hr with rfl | hr
      · exact Nat.le_trans (Nat.le_add_right _ _) hfrom
      · exact Nat.le_trans (Nat.le_trans (Nat.le_add_right _ _) hfrom)
          (Nat.le_trans hto (hbound r hr))
    · exact UInt64.le_iff_toNat_le.mpr (Nat.le_trans hto (hbound r hr))

/-- **While the counter never wraps around between the two accesses of a call, and at most once from
    one look at the flag to the next, every value is exact, and the values do not decrease.**  The
    bound on the time between calls is enough where it does not wrap around up to the return. -/
theorem counterValue_exact (calls : List Call) :
    (Meets step Steady initial calls → Meets step Proper initial calls) ∧
      (Meets step Proper initial calls →
        ∃ s rs, run step initial calls = some (s, rs) ∧ SpecRuns Exact initial calls s rs ∧
          rs.Pairwise fun r r' => r ≤ r') := by
  refine ⟨meets_proper calls initial initial_synced rfl, fun hcalls => ?_⟩
  have hstep : ∀ (s t : State) (c : Call), (s = t ∧ Synced s) → Proper s c →
      ∃ s' r t', step s c = some (s', r) ∧ Exact t c t' r ∧ (s' = t' ∧ Synced s') := by
    rintro s _ c ⟨rfl, hs⟩ hproper
    obtain ⟨hexact, hs'⟩ := counterValue_spec hs hproper
    exact ⟨_, _, _, rfl, hexact, rfl, hs'⟩
  obtain ⟨s, rs, _, hrun, hspec, rfl, -⟩ := run_refines step Exact hstep calls initial initial
    ⟨rfl, initial_synced⟩ hcalls
  exact ⟨s, rs, hrun, hspec, (pairwise_le hspec).2⟩

/-- Three calls, with a wrap in front of the second one -/
def threeCalls : List Call := [⟨0xFFF0, 1, 1, 1⟩, ⟨0x100, 1, 1, 1⟩, ⟨0x8000, 2, 3, 1⟩]

theorem counterValue_exact_wrapped : ∃ s rs, run step initial threeCalls = some (s, rs) ∧
    SpecRuns Exact initial threeCalls s rs ∧ rs.Pairwise fun r r' => r ≤ r' := by
  obtain ⟨hbound, hexact⟩ := counterValue_exact threeCalls
  refine hexact (hbound ?_)
  refine meets_cons step ⟨by decide, by decide, by decide⟩ rfl ?_
  refine meets_cons step ⟨by decide, by decide, by decide⟩ rfl ?_
  exact ⟨⟨by decide, by decide, by decide⟩, fun _ _ _ => trivial⟩

/-- The counter wraps around between the two accesses of the second call, and the value is 65535
    ticks too large. -/
theorem counterValue_ahead : ¬ ∀ calls : List Call, (∀ c ∈ calls, c.length < 2 ^ 16) →
    ∃ s rs, run step initial calls = some (s, rs) ∧
      SpecRuns Exact initial calls s rs ∧ rs.Pairwise fun r r' => r ≤ r' := by
  intro hall
  obtain ⟨s, rs, hrun, -, hpairwise⟩ :=
    hall [⟨0x8000, 0, 0, 0⟩, ⟨0x7FFF, 0, 1, 1⟩, ⟨1, 1, 1, 1⟩] (by decide)
  have hvalues : (run step initial [⟨0x8000, 0, 0, 0⟩, ⟨0x7FFF, 0, 1, 1⟩, ⟨1, 1, 1, 1⟩]).map
      (·.2) = some [0x8000, 0x1FFFF, 0x10003] := by decide
  rw [hrun] at hvalues
  have hrs : rs = [0x8000, 0x1FFFF, 0x10003] := Option.some.inj hvalues
  rw [hrs] at hpairwise
  exact absurd hpairwise (by decide)

end TinyClr.SystemTimer
