import TinyClr.Core.HeapBlockTimer
import TinyClr.Library.Runs
import Mathlib.Data.Int.ModEq

/-!
# Reconfiguration that is atomic, and rescheduling that is sound

A change that is refused at once, or whose arguments are all in range, leaves a timer that can be
rescheduled.  Between the two the arguments have been stored when the call fails.
-/

namespace TinyClr.HeapBlockTimer

open TinyClr.Library
open TinyClr.ExecutionEngine (TIMEOUT_INFINITE)
open TinyClr.TimeDriver (SystemTime toSystemTime fromSystemTime)

/-! ### Changes -/

/-- The change fails before anything is stored. -/
def Refused (t : Timer) : Input → Prop
  | .int32 _ _ => t.m_flags.anyChange ≠ .noFixedChange ∨ t.m_flags.absoluteTimer = true
  | .timeSpan due _ => t.m_flags.anyChange ≠ .noFixedChange ∨ t.m_flags.absoluteTimer = true ∨
      due = none
  | .absolute due _ => t.m_flags.anyChange ≠ .noFixedChange ∨ t.m_flags.absoluteTimer = false ∨
      due = none

/-- The times that a change accepts; the due time of an absolute timer is not checked. -/
def InRange : Input → Prop
  | .int32 due period =>
      (due = -1 ∨ 0 ≤ due ∧ due ≤ 0x7FFFFFFF) ∧ (period = -1 ∨ 0 ≤ period ∧ period ≤ 0x7FFFFFFF)
  | .timeSpan due period => ∃ d p, due = some d ∧ period = some p ∧
      (d = -timeConversionToMilliseconds ∨ d = TIMEOUT_INFINITE ∨ minTime ≤ d ∧ d ≤ maxTime) ∧
      (p = -timeConversionToMilliseconds ∨ p = TIMEOUT_INFINITE ∨ minTime ≤ p ∧ p ≤ maxTime)
  | .absolute due period => ∃ d p, due = some d ∧ period = some p ∧
      (p = TIMEOUT_INFINITE ∨ minTime ≤ p ∧ p ≤ maxTime)

def Good (t : Timer) : Prop := t.m_flags.recurring = true → 0 < t.m_timeFrequency

namespace Timer

variable {t : Timer} {input : Input}

theorem change_of_refused (h : Refused t input) (now : Int) : t.change input now = (t, false) := by
  unfold change
  by_cases hfixed : t.m_flags.anyChange ≠ .noFixedChange
  · rw [if_pos hfixed]
  · have hstore : t.storeInput input = (t, false) := by
      cases input with
      | int32 due period =>
        have habsolute := h.resolve_left hfixed
        simp [storeInput, habsolute]
      | timeSpan due period =>
        rcases h.resolve_left hfixed with habsolute | rfl
        · simp [storeInput, habsolute]
        · simp [storeInput]
      | absolute due period =>
        rcases h.resolve_left hfixed with hrelative | rfl
        · simp [storeInput, hrelative]
        · simp [storeInput]
    rw [if_neg hfixed, hstore]
    rfl

/-- What a stored time stands for -/
def scale (input : Input) (x : Int) : Int :=
  if input.isInt32 then x * timeConversionToMilliseconds else x

/-- A stored time that passes the checks -/
def Accepted (input : Input) (x : Int) : Prop :=
  x = TIMEOUT_INFINITE ∨ minTime ≤ scale input x ∧ scale input x ≤ maxTime

theorem int64_scale {x : Int} (h : minTime ≤ scale input x ∧ scale input x ≤ maxTime) :
    (if input.isInt32 then int64 (x * timeConversionToMilliseconds) else x) = scale input x := by
  unfold minTime maxTime timeConversionToMilliseconds at h
  unfold scale timeConversionToMilliseconds at *
  split
  · rename_i hint
    rw [if_pos hint] at h
    exact int64_eq_self (by omega) (by omega)
  · rfl

theorem enable_accepted (now : Int)
    (h : input.isAbsolute = true ∨ Accepted input t.m_timeExpire) :
    ∃ expire enabled, t.enable input now =
      ({ t with m_timeExpire := expire, m_flags := { t.m_flags with enabledTimer := enabled } },
        true) := by
  unfold enable
  by_cases hinf : t.m_timeExpire = TIMEOUT_INFINITE
  · exact ⟨t.m_timeExpire, false, if_pos hinf⟩
  · rw [if_neg hinf]
    by_cases habsolute : input.isAbsolute = true
    · exact ⟨t.m_timeExpire, true, if_pos habsolute⟩
    · have hrange := (h.resolve_left habsolute).resolve_left hinf
      rw [if_neg habsolute]
      refine ⟨int64 (scale input t.m_timeExpire + now), true, ?_⟩
      have hscaled : (if input.isInt32 then
          { t with m_timeExpire := int64 (t.m_timeExpire * timeConversionToMilliseconds) }
          else t) = { t with m_timeExpire := scale input t.m_timeExpire } := by
        rw [← int64_scale hrange]
        split <;> rfl
      rw [hscaled]
      exact if_pos hrange

theorem recur_accepted (h : Accepted input t.m_timeFrequency) :
    ∃ t', t.recur input = (t', true) ∧ Good t' := by
  unfold recur
  by_cases hnone : t.m_timeFrequency = 0 ∨ t.m_timeFrequency = TIMEOUT_INFINITE
  · exact ⟨_, if_pos hnone, nofun⟩
  · rw [if_neg hnone]
    obtain ⟨hzero, hinf⟩ := not_or.mp hnone
    have hrange := h.resolve_left hinf
    have hscaled : (if input.isInt32 then
        { t with m_timeFrequency := int64 (t.m_timeFrequency * timeConversionToMilliseconds) }
        else t) = { t with m_timeFrequency := scale input t.m_timeFrequency } := by
      rw [← int64_scale hrange]
      split <;> rfl
    rw [hscaled]
    refine ⟨_, if_pos hrange, fun _ => ?_⟩
    have hlow := hrange.1
    change 0 < scale input t.m_timeFrequency
    unfold scale minTime timeConversionToMilliseconds at *
    split at hlow <;> omega

theorem storeInput_inRange (hnot : ¬ Refused t input) (h : InRange input) :
    ∃ due period, t.storeInput input =
        ({ t with m_timeExpire := due, m_timeFrequency := period }, true) ∧
      (input.isAbsolute = true ∨ Accepted input due) ∧ Accepted input period := by
  cases input with
  | int32 due period =>
    have hrelative : t.m_flags.absoluteTimer = false :=
      Bool.eq_false_iff.mpr fun h => hnot (Or.inr h)
    have hscale (x : Int) (hx : x = -1 ∨ 0 ≤ x ∧ x ≤ 0x7FFFFFFF) :
        Accepted (.int32 due period) (if x = -1 then TIMEOUT_INFINITE else x) := by
      split
      · exact Or.inl rfl
      · rename_i hx'
        have hrange := hx.resolve_left hx'
        refine Or.inr ?_
        change 0 ≤ x * 10000 ∧ x * 10000 ≤ 0x7FFFFFFF * 10000
        omega
    refine ⟨_, _, ?_, Or.inr (hscale due h.1), hscale period h.2⟩
    simp [storeInput, hrelative]
  | timeSpan due period =>
    obtain ⟨d, p, rfl, rfl, hd, hp⟩ := h
    have hrelative : t.m_flags.absoluteTimer = false :=
      Bool.eq_false_iff.mpr fun h => hnot (Or.inr (Or.inl h))
    have hscale (x : Int) (hx : x = -timeConversionToMilliseconds ∨ x = TIMEOUT_INFINITE ∨
        minTime ≤ x ∧ x ≤ maxTime) : Accepted (.timeSpan (some d) (some p))
          (if x = -timeConversionToMilliseconds then TIMEOUT_INFINITE else x) := by
      split
      · exact Or.inl rfl
      · rename_i hx'
        exact hx.resolve_left hx'
    refine ⟨_, _, ?_, Or.inr (hscale d hd), hscale p hp⟩
    simp [storeInput, hrelative]
  | absolute due period =>
    obtain ⟨d, p, rfl, rfl, hp⟩ := h
    have habsolute : t.m_flags.absoluteTimer = true := by
      by_contra hno
      exact hnot (Or.inr (Or.inl (Bool.eq_false_iff.mpr hno)))
    refine ⟨d, p, ?_, Or.inl rfl, hp⟩
    simp [storeInput, habsolute]

theorem not_fixed (hnot : ¬ Refused t input) : t.m_flags.anyChange = .noFixedChange := by
  by_contra hfixed
  cases input with
  | int32 due period => exact hnot (Or.inl hfixed)
  | timeSpan due period => exact hnot (Or.inl hfixed)
  | absolute due period => exact hnot (Or.inl hfixed)

theorem change_inRange (hnot : ¬ Refused t input) (h : InRange input) (now : Int) :
    ∃ t', t.change input now = (t', true) ∧ Good t' := by
  obtain ⟨due, period, hstore, hdue, hperiod⟩ := storeInput_inRange hnot h
  obtain ⟨expire, enabled, henable⟩ := enable_accepted
    (t := { t with m_timeExpire := due, m_timeFrequency := period }) now hdue
  obtain ⟨t', hrecur, hgood⟩ := recur_accepted
    (t := { t with
      m_timeExpire := expire
      m_timeFrequency := period
      m_flags := { t.m_flags with enabledTimer := enabled } }) hperiod
  refine ⟨t', ?_, hgood⟩
  unfold change
  rw [if_neg (not_not.mpr (not_fixed hnot)), hstore]
  simp only [Bool.not_true, Bool.false_eq_true, if_false, henable]
  exact hrecur

/-! ### Expirations -/

theorem trigger_good (h : Good t) : Good t.trigger := by
  unfold trigger
  split
  · exact h
  · split <;> exact h

theorem spawnTimer_good (h : Good t) (pushed : Bool) (now : Int) :
    Good (t.spawnTimer pushed now) := by
  unfold spawnTimer
  cases pushed <;> exact h

theorem adjustNextFixedExpire_good {systemTime : SystemTime} {fNext : Bool} {t' : Timer}
    (h : Good t) (hadjust : t.adjustNextFixedExpire systemTime fNext = some t') : Good t' := by
  unfold adjustNextFixedExpire at hadjust
  cases hfixed : fixedPeriod systemTime t.m_flags.anyChange with
  | none =>
    rw [hfixed] at hadjust
    obtain rfl := Option.some.inj hadjust
    exact h
  | some fixed =>
    rw [hfixed] at hadjust
    obtain ⟨add, st⟩ := fixed
    have hadd : 0 < add := by
      unfold fixedPeriod timeConversionToSeconds at hfixed
      cases hchange : t.m_flags.anyChange <;> rw [hchange] at hfixed <;>
        simp only [Option.some.injEq, Prod.mk.injEq, reduceCtorEq] at hfixed <;> omega
    obtain ⟨baseTime, -, hset⟩ := Option.bind_eq_some_iff.mp hadjust
    obtain rfl := Option.some.inj hset
    exact fun _ => hadd

def Fits (cmp : Int) (t : Timer) : Prop :=
  t.m_flags.recurring = true → t.m_flags.enabledTimer = true →
    -2 ^ 63 ≤ t.m_timeLastExpiration + t.m_timeFrequency ∧
      t.m_timeLastExpiration + t.m_timeFrequency < 2 ^ 63 ∧
      cmp - (t.m_timeLastExpiration + t.m_timeFrequency) < 2 ^ 63 ∧
      cmp + t.m_timeFrequency < 2 ^ 63

/-- The next expiry of a timer that recurs -/
structure Rescheduled (cmp : Int) (t t' : Timer) : Prop where
  notPast : cmp ≤ t'.m_timeExpire
  soon : t.m_timeLastExpiration + t.m_timeFrequency < cmp →
    t'.m_timeExpire ≤ cmp + t.m_timeFrequency
  inStep : t'.m_timeExpire ≡ t.m_timeLastExpiration [ZMOD t.m_timeFrequency]

theorem reschedule_spec {cmp : Int} (hgood : Good t) (hfits : Fits cmp t) :
    ∃ t', t.reschedule cmp = some t' ∧ t'.m_flags = t.m_flags ∧
      t'.m_timeFrequency = t.m_timeFrequency ∧
      (t.m_flags.recurring = true → t.m_flags.enabledTimer = true → Rescheduled cmp t t') := by
  unfold reschedule
  by_cases hgoes : (t.m_flags.recurring && t.m_flags.enabledTimer) = true
  · obtain ⟨hrecurring, henabled⟩ := (Bool.and_eq_true _ _).mp hgoes
    have hpos := hgood hrecurring
    obtain ⟨hlow, hhigh, hdistance, hnext⟩ := hfits hrecurring henabled
    rw [if_pos hgoes, int64_eq_self hlow hhigh]
    by_cases hlate : t.m_timeLastExpiration + t.m_timeFrequency < cmp
    · have hnonneg : 0 ≤ cmp - (t.m_timeLastExpiration + t.m_timeFrequency) := by omega
      have hmod := Int.emod_nonneg (cmp - (t.m_timeLastExpiration + t.m_timeFrequency)) hpos.ne'
      have hmod' := Int.emod_lt_of_pos (cmp - (t.m_timeLastExpiration + t.m_timeFrequency)) hpos
      have hdvd := Int.emod_add_mul_ediv (cmp - (t.m_timeLastExpiration + t.m_timeFrequency))
        t.m_timeFrequency
      have hq : 0 ≤ (cmp - (t.m_timeLastExpiration + t.m_timeFrequency)) / t.m_timeFrequency :=
        Int.ediv_nonneg hnonneg hpos.le
      simp only [if_pos hlate, if_neg hpos.ne']
      rw [int64_eq_self (by omega) hdistance, Int.tmod_eq_emod_of_nonneg hnonneg]
      generalize (cmp - (t.m_timeLastExpiration + t.m_timeFrequency)) % t.m_timeFrequency = r at *
      generalize (cmp - (t.m_timeLastExpiration + t.m_timeFrequency)) / t.m_timeFrequency = q at *
      have hsteps := Int.mul_nonneg hpos.le hq
      rw [int64_eq_self (x := cmp - r) (by omega) (by omega), int64_eq_self (by omega) (by omega)]
      refine ⟨_, rfl, rfl, rfl, fun _ _ => ⟨?_, fun _ => ?_, ?_⟩⟩
      · change cmp ≤ cmp - r + t.m_timeFrequency
        omega
      · change cmp - r + t.m_timeFrequency ≤ cmp + t.m_timeFrequency
        omega
      · refine (Int.modEq_iff_dvd.mpr ⟨q + 2, ?_⟩).symm
        change cmp - r + t.m_timeFrequency - t.m_timeLastExpiration = t.m_timeFrequency * (q + 2)
        rw [Int.mul_add]
        omega
    · simp only [if_neg hlate]
      refine ⟨_, rfl, rfl, rfl, fun _ _ =>
        ⟨Int.not_lt.mp hlate, fun h => absurd h hlate, ?_⟩⟩
      exact Int.add_modEq_right
  · rw [if_neg hgoes]
    refine ⟨t, rfl, rfl, rfl, fun hrecurring henabled => ?_⟩
    exact absurd (by rw [hrecurring, henabled]; rfl) hgoes

end Timer

/-! ### Runs -/

/-- All timers that recur have a period. -/
def Inv (s : Engine) : Prop := ∀ i, Good (s.timers i)

namespace Engine

variable {s s' : Engine}

theorem set_inv (hs : Inv s) {t : Timer} (ht : Good t) (i : Nat) : Inv (s.set i t) := by
  intro j
  by_cases hj : j = i
  · rw [hj]
    change Good (Function.update s.timers i t i)
    rwa [Function.update_self]
  · change Good (Function.update s.timers i t j)
    rw [Function.update_of_ne hj]
    exact hs j

theorem forEach_inv {f : Timer → Option Timer}
    (hf : ∀ t t', Good t → f t = some t' → Good t') :
    ∀ (is : List Nat) {s s' : Engine}, Inv s → s.forEach f is = some s' → Inv s'
  | [], _, _, hs, h => Option.some.inj h ▸ hs
  | i :: is, s, s', hs, h => by
    obtain ⟨t, ht, hrest⟩ := Option.bind_eq_some_iff.mp h
    exact forEach_inv hf is (set_inv hs (hf _ _ (hs i) ht) i) hrest

theorem spawnTimer_inv (hs : Inv s) (created pushed : Bool) : Inv (s.spawnTimer created pushed) := by
  unfold spawnTimer
  split
  · exact hs
  · split
    · exact set_inv hs (Timer.spawnTimer_good (hs _) _ _) _
    · exact hs

theorem checkTimers_inv {pauseTimers created pushed : Bool} (hs : Inv s)
    (h : s.checkTimers pauseTimers created pushed = some s') : Inv s' := by
  obtain ⟨s₁, hwalk, h⟩ := Option.bind_eq_some_iff.mp h
  have hs₁ : Inv s₁ := by
    refine forEach_inv (fun t t' ht h => ?_) s.m_timers hs hwalk
    obtain rfl := Option.some.inj h
    split
    · exact Timer.trigger_good ht
    · exact ht
  obtain rfl := Option.some.inj h
  split
  · exact spawnTimer_inv hs₁ _ _
  · exact hs₁

theorem processTimeEvent_inv {event : AnyChange} {created pushed : Bool} (hs : Inv s)
    (h : s.processTimeEvent event created pushed = some s') : Inv s' := by
  obtain ⟨systemTime, -, h⟩ := Option.bind_eq_some_iff.mp h
  obtain ⟨s₁, hwalk, h⟩ := Option.bind_eq_some_iff.mp h
  have hs₁ : Inv s₁ := by
    refine forEach_inv (fun t t' ht h => ?_) s.m_timers hs hwalk
    split at h
    · obtain ⟨t₁, hadjust, h⟩ := Option.bind_eq_some_iff.mp h
      have ht₁ := Timer.adjustNextFixedExpire_good ht hadjust
      obtain rfl := Option.some.inj h
      split
      · exact Timer.trigger_good ht₁
      · exact ht₁
    · exact Option.some.inj h ▸ ht
  obtain rfl := Option.some.inj h
  exact spawnTimer_inv hs₁ _ _

theorem updateTime_inv {machineTime localTime : Int} {offsetChanged : Bool} (hs : Inv s)
    (h : s.updateTime machineTime localTime offsetChanged = some s') : Inv s' := by
  unfold updateTime at h
  split at h
  · obtain ⟨systemTime, -, h⟩ := Option.bind_eq_some_iff.mp h
    refine forEach_inv (fun t t' ht h => ?_) s.m_timers ?_ h
    · split at h
      · exact Timer.adjustNextFixedExpire_good ht h
      · exact Option.some.inj h ▸ ht
    · exact hs
  · obtain rfl := Option.some.inj h
    exact hs

theorem link_inv (hs : Inv s) {t : Timer} (ht : Good t) : Inv (s.link t) := set_inv hs ht s.count

end Engine

/-- The condition on an event: a change is refused at once or in range, as is a construction, and
the sums of `Reschedule` do not overflow. -/
def Careful (s : Engine) : Event → Prop
  | .construct callback allocated input _ => callback = false ∨ allocated = false ∨ InRange input
  | .change i input _ => Refused (s.timers i) input ∨ InRange input
  | .threadTerminationCallback _ _ =>
      ∀ i, s.timerThread = some i → Timer.Fits (s.timeOf (s.timers i)) (s.timers i)
  | _ => True

/-- What is asked of an event: a call that fails changes nothing, and to reschedule is sound. -/
def Sound (s : Engine) : Event → Prop
  | .construct callback allocated input now =>
      ∀ s', step s (.construct callback allocated input now) = some (s', false) → s' = s
  | .constructFixed callback allocated anyChange =>
      ∀ s', step s (.constructFixed callback allocated anyChange) = some (s', false) → s' = s
  | .change i input now =>
      ∀ s', step s (.change i input now) = some (s', false) → s'.timers i = s.timers i
  | .threadTerminationCallback _ _ => ∀ i, s.timerThread = some i →
      let t := { s.timers i with m_flags := { (s.timers i).m_flags with executing := false } }
      ∃ t', t.reschedule (s.timeOf t) = some t' ∧
        (t.m_flags.recurring = true → t.m_flags.enabledTimer = true →
          Timer.Rescheduled (s.timeOf t) t t')
  | _ => True

def PeriodsPositive (s : Engine) : Prop :=
  ∀ i, i < s.count → (s.timers i).m_flags.enabledTimer = true →
    (s.timers i).m_flags.recurring = true → 0 < (s.timers i).m_timeFrequency

theorem constructed_not_refused {input : Input} (h : InRange input) :
    ¬ Refused (constructed input) input := by
  cases input with
  | int32 due period => exact fun hrefused => hrefused.elim (fun h => h rfl) nofun
  | timeSpan due period =>
    obtain ⟨d, p, rfl, -, -⟩ := h
    exact fun hrefused => hrefused.elim (fun h => h rfl) (fun h => h.elim nofun nofun)
  | absolute due period =>
    obtain ⟨d, p, rfl, -, -⟩ := h
    exact fun hrefused => hrefused.elim (fun h => h rfl) (fun h => h.elim nofun nofun)

theorem constructed_change {input : Input} (h : InRange input) (now : Int) :
    ∃ t', (constructed input).change input now = (t', true) ∧ Good t' :=
  Timer.change_inRange (constructed_not_refused h) h now

theorem createInstance_good : Good Timer.createInstance := nofun

theorem step_inv {s s' : Engine} {event : Event} {ok : Bool} (hs : Inv s)
    (hcareful : Careful s event) (h : step s event = some (s', ok)) : Inv s' := by
  cases event with
  | construct callback allocated input now =>
    by_cases hfails : (!callback || !allocated) = true
    · rw [step, if_pos hfails] at h
      obtain ⟨rfl, -⟩ := Prod.mk.inj (Option.some.inj h)
      exact hs
    · have hrange : InRange input := by
        rcases hcareful with rfl | rfl | hrange
        · exact absurd rfl hfails
        · exact absurd (Bool.or_true _) hfails
        · exact hrange
      obtain ⟨t', hchange, ht'⟩ := constructed_change hrange now
      rw [step, if_neg hfails, hchange] at h
      obtain ⟨rfl, -⟩ := Prod.mk.inj (Option.some.inj h)
      exact Engine.link_inv hs ht'
  | constructFixed callback allocated anyChange =>
    rw [step] at h
    split at h
    · obtain ⟨rfl, -⟩ := Prod.mk.inj (Option.some.inj h)
      exact hs
    · obtain ⟨systemTime, -, h⟩ := Option.bind_eq_some_iff.mp h
      obtain ⟨t, hadjust, h⟩ := Option.bind_eq_some_iff.mp h
      obtain ⟨rfl, -⟩ := Prod.mk.inj (Option.some.inj h)
      have hnew (recurring : Bool) (hrecurring : recurring = false) :
          Good { Timer.createInstance with m_flags := ⟨anyChange, false, false, true, recurring, true⟩ } :=
        fun h => absurd (hrecurring.symm.trans h) Bool.false_ne_true
      exact Engine.link_inv hs (Timer.adjustNextFixedExpire_good (hnew false rfl) hadjust)
  | change i input now =>
    rw [step] at h
    split at h
    · exact nomatch h
    · by_cases hrefused : Refused (s.timers i) input
      · rw [Timer.change_of_refused hrefused] at h
        obtain ⟨rfl, -⟩ := Prod.mk.inj (Option.some.inj h)
        exact Engine.set_inv hs (hs i) i
      · obtain ⟨t', hchange, ht'⟩ :=
          Timer.change_inRange hrefused (hcareful.resolve_left hrefused) now
        rw [hchange] at h
        obtain ⟨rfl, -⟩ := Prod.mk.inj (Option.some.inj h)
        exact Engine.set_inv hs ht' i
  | dispose i =>
    rw [step] at h
    split at h
    · exact nomatch h
    · obtain ⟨rfl, -⟩ := Prod.mk.inj (Option.some.inj h)
      refine Engine.set_inv hs ?_ i
      exact hs i
  | release i =>
    rw [step] at h
    split at h
    · exact nomatch h
    · obtain ⟨rfl, -⟩ := Prod.mk.inj (Option.some.inj h)
      refine Engine.set_inv hs ?_ i
      exact hs i
  | updateTime machineTime localTime offsetChanged =>
    obtain ⟨s₁, hrun, h⟩ := Option.map_eq_some_iff.mp h
    obtain ⟨rfl, -⟩ := Prod.mk.inj h
    exact Engine.updateTime_inv hs hrun
  | checkTimers pauseTimers created pushed =>
    obtain ⟨s₁, hrun, h⟩ := Option.map_eq_some_iff.mp h
    obtain ⟨rfl, -⟩ := Prod.mk.inj h
    exact Engine.checkTimers_inv hs hrun
  | processTimeEvent event created pushed =>
    obtain ⟨s₁, hrun, h⟩ := Option.map_eq_some_iff.mp h
    obtain ⟨rfl, -⟩ := Prod.mk.inj h
    exact Engine.processTimeEvent_inv hs hrun
  | threadTerminationCallback created pushed =>
    rw [step] at h
    cases hthread : s.timerThread with
    | none =>
      rw [hthread] at h
      exact nomatch h
    | some i =>
      rw [hthread] at h
      obtain ⟨t', hreschedule, h⟩ := Option.bind_eq_some_iff.mp h
      obtain ⟨rfl, -⟩ := Prod.mk.inj (Option.some.inj h)
      have hgood : Good
          { s.timers i with m_flags := { (s.timers i).m_flags with executing := false } } := hs i
      obtain ⟨t₁, ht₁, hflags, hperiod, -⟩ :=
        Timer.reschedule_spec hgood (hcareful i hthread)
      obtain rfl := Option.some.inj (ht₁.symm.trans hreschedule)
      refine Engine.spawnTimer_inv ?_ created pushed
      refine Engine.set_inv hs ?_ i
      intro hrecurring
      rw [hflags] at hrecurring
      rw [hperiod]
      exact hgood hrecurring

theorem sound_of_careful {s : Engine} {event : Event} (hs : Inv s) (hcareful : Careful s event) :
    Sound s event := by
  cases event with
  | construct callback allocated input now =>
    intro s' h
    by_cases hfails : (!callback || !allocated) = true
    · rw [step, if_pos hfails] at h
      exact (Prod.mk.inj (Option.some.inj h)).1.symm
    · have hrange : InRange input := by
        rcases hcareful with rfl | rfl | hrange
        · exact absurd rfl hfails
        · exact absurd (Bool.or_true _) hfails
        · exact hrange
      obtain ⟨t', hchange, -⟩ := constructed_change hrange now
      rw [step, if_neg hfails, hchange] at h
      exact absurd (Prod.mk.inj (Option.some.inj h)).2 nofun
  | constructFixed callback allocated anyChange =>
    intro s' h
    rw [step] at h
    split at h
    · exact (Prod.mk.inj (Option.some.inj h)).1.symm
    · obtain ⟨systemTime, -, h⟩ := Option.bind_eq_some_iff.mp h
      obtain ⟨t, -, h⟩ := Option.bind_eq_some_iff.mp h
      exact absurd (Prod.mk.inj (Option.some.inj h)).2 nofun
  | change i input now =>
    intro s' h
    rw [step] at h
    split at h
    · exact nomatch h
    · by_cases hrefused : Refused (s.timers i) input
      · rw [Timer.change_of_refused hrefused] at h
        obtain ⟨rfl, -⟩ := Prod.mk.inj (Option.some.inj h)
        exact Function.update_self i (s.timers i) s.timers
      · obtain ⟨t', hchange, -⟩ :=
          Timer.change_inRange hrefused (hcareful.resolve_left hrefused) now
        rw [hchange] at h
        exact absurd (Prod.mk.inj (Option.some.inj h)).2 nofun
  | threadTerminationCallback created pushed =>
    intro i hthread
    have hgood : Good
        { s.timers i with m_flags := { (s.timers i).m_flags with executing := false } } := hs i
    obtain ⟨t', ht', -, -, hsound⟩ := Timer.reschedule_spec hgood (hcareful i hthread)
    exact ⟨t', ht', hsound⟩
  | dispose i => exact trivial
  | release i => exact trivial
  | updateTime machineTime localTime offsetChanged => exact trivial
  | checkTimers pauseTimers created pushed => exact trivial
  | processTimeEvent event created pushed => exact trivial

/-- After every run whose events meet the condition, periods are positive, and the next event that
meets it is sound. -/
theorem timers_sound {events : List Event} {s : Engine} {replies : List Bool}
    (hmeets : Meets step Careful initial events)
    (hrun : run step initial events = some (s, replies)) :
    PeriodsPositive s ∧ ∀ event, Careful s event → Sound s event := by
  have hinv : Inv s := run_preserves step (fun _ _ _ _ hs hcareful h => step_inv hs hcareful h)
    events initial s replies (fun _ => createInstance_good) hmeets hrun
  exact ⟨fun i _ _ hrecurring => hinv i hrecurring,
    fun event hcareful => sound_of_careful hinv hcareful⟩

/-! ### A timer of one second -/

/-- A timer is constructed, falls behind and fires. -/
def oneSecond : List Event :=
  [.construct true true (.int32 0 1000) 0, .updateTime 100 100 false, .checkTimers false true true,
    .updateTime 55000000 55000000 false]

theorem oneSecond_careful : Meets step Careful initial oneSecond := by
  have hrange : InRange (.int32 0 1000) := ⟨Or.inr (by decide), Or.inr (by decide)⟩
  exact ⟨Or.inr (Or.inr hrange), fun _ _ _ => ⟨trivial, fun _ _ _ => ⟨trivial, fun _ _ _ =>
    ⟨trivial, fun _ _ _ => trivial⟩⟩⟩⟩

/-- What is looked at of a state -/
def view (r : Engine × List Bool) : Option Nat × Timer × Int :=
  (r.1.timerThread, r.1.timers 0, r.1.m_currentMachineTime)

theorem oneSecond_view : (run step initial oneSecond).map view =
    some (some 0, ⟨true, ⟨.noFixedChange, false, true, false, true, true⟩, TIMEOUT_INFINITE,
      10000000, 0, 100⟩, 55000000) := by
  decide

theorem timers_sound_oneSecond : ∃ s replies, run step initial oneSecond = some (s, replies) ∧
    PeriodsPositive s ∧ Sound s (.threadTerminationCallback true true) := by
  obtain ⟨⟨s, replies⟩, hrun, hview⟩ := Option.map_eq_some_iff.mp oneSecond_view
  obtain ⟨hthread, hview⟩ := Prod.mk.inj hview
  obtain ⟨htimer, htime⟩ := Prod.mk.inj hview
  obtain ⟨hpositive, hsound⟩ := timers_sound oneSecond_careful hrun
  refine ⟨s, replies, hrun, hpositive, hsound _ fun i hi => ?_⟩
  obtain rfl := Option.some.inj (hi.symm.trans hthread)
  intro _ _
  have hcmp : s.timeOf (s.timers 0) = 55000000 := by
    rw [htimer]
    exact htime
  rw [hcmp, htimer]
  decide

/-- Its callback changes it, without success: there is a period of 0, and a division by it. -/
theorem failed_change_divides : ∃ s replies,
    run step initial (oneSecond ++ [.change 0 (.int32 (-5) 0) 100]) = some (s, replies) ∧
      replies.getLast? = some false ∧ ¬ PeriodsPositive s ∧
      step s (.threadTerminationCallback true true) = none := by
  have hview : (run step initial (oneSecond ++ [.change 0 (.int32 (-5) 0) 100])).map (fun r =>
      (view r, r.2.getLast?, r.1.count, (step r.1 (.threadTerminationCallback true true)).isNone)) =
      some ((some 0, ⟨true, ⟨.noFixedChange, false, true, false, true, true⟩, -50000, 0, 0, 100⟩,
        55000000), some false, 1, true) := by decide
  obtain ⟨⟨s, replies⟩, hrun, hview⟩ := Option.map_eq_some_iff.mp hview
  obtain ⟨hview, hrest⟩ := Prod.mk.inj hview
  obtain ⟨hlast, hrest⟩ := Prod.mk.inj hrest
  obtain ⟨hcount, hnone⟩ := Prod.mk.inj hrest
  have htimer := (Prod.mk.inj (Prod.mk.inj hview).2).1
  refine ⟨s, replies, hrun, hlast, fun hpositive => ?_, Option.isNone_iff_eq_none.mp hnone⟩
  have hperiod := hpositive 0 (by rw [hcount]; decide)
  rw [htimer] at hperiod
  exact absurd (hperiod rfl rfl) (by decide)

end TinyClr.HeapBlockTimer
