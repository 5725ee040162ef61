import TinyClr.Library.Runs
import TinyClr.Pal.I2c
import TinyClr.Pal.UsartSpec

/-!
# I2C transactions run one at a time

Every call that may have made room for another transaction starts the first of the queue, whether
or not it is already being processed.  As long as nothing is in progress at those calls, each
transaction is started once, in order, and so is each of its units.
-/

namespace TinyClr.I2c

open TinyClr.Library TinyClr.Usart

/-! ### Units -/

/-- The queue of a unit has what is still to be written, or room for what is still to be read. -/
def XActionUnit.Sound (unit : XActionUnit) : Prop :=
  ∃ xs, unit.dataQueue.Holds xs ∧
    (unit.fRead = false → xs.length = unit.bytesToTransfer) ∧
    (unit.fRead = true → xs.length + unit.bytesToTransfer = unit.dataQueue.size)

theorem fill_holds : ∀ (src : List UInt8) {q : Queue} {xs : List UInt8}, q.Holds xs →
    xs.length + src.length ≤ q.size → (fill q src).Holds (xs ++ src) := by
  intro src
  induction src with
  | nil =>
    intro q xs h _
    rw [fill, List.append_nil]
    exact h
  | cons c src ih =>
    intro q xs h hroom
    rw [List.length_cons] at hroom
    obtain ⟨q', hpush, hholds, hsize⟩ := h.push (by omega) c
    have hfill := ih hholds (by rw [List.length_append, List.length_singleton, hsize]; omega)
    rw [fill, hpush]
    rw [List.append_assoc] at hfill
    exact hfill

namespace XActionUnit

variable {unit : XActionUnit}

theorem Sound.ofRequest (request : Request) : (XActionUnit.ofRequest request).Sound := by
  have hempty := Queue.Holds.ofData request.length_pos
  rw [XActionUnit.ofRequest]
  cases hread : request.fRead with
  | true =>
    refine ⟨[], ?_, fun hwrite => Bool.noConfusion hwrite, fun _ => Nat.zero_add _⟩
    rw [if_pos rfl]
    exact hempty
  | false =>
    refine ⟨request.src, ?_, fun _ => request.length_eq, fun hread => Bool.noConfusion hread⟩
    rw [if_neg (by decide)]
    have hle : ([] : List UInt8).length + request.src.length ≤
        (Queue.ofData request.dst).size := by
      rw [List.length_nil, Nat.zero_add, request.length_eq]
      exact Nat.le_refl _
    exact fill_holds request.src hempty hle

theorem writeToSubordinate_spec (h : unit.Sound) (hwrite : unit.fRead = false)
    (hpos : unit.bytesToTransfer ≠ 0) :
    ∃ unit', unit.writeToSubordinate = some unit' ∧ unit'.Sound ∧ unit'.fRead = unit.fRead := by
  obtain ⟨xs, hholds, hlength, -⟩ := h
  have hlength := hlength hwrite
  cases xs with
  | nil => exact absurd hlength.symm hpos
  | cons x xs =>
    obtain ⟨q, hpop, hholds', -⟩ := hholds.pop
    rw [writeToSubordinate, hpop]
    refine ⟨_, rfl, ⟨xs, hholds', fun _ => ?_, fun hread => ?_⟩, rfl⟩
    · rw [List.length_cons] at hlength
      exact Nat.eq_sub_of_add_eq hlength
    · have hread' : unit.fRead = true := hread
      exact absurd (hwrite.symm.trans hread') (by decide)

theorem readFromSubordinate_spec (h : unit.Sound) (hread : unit.fRead = true)
    (hpos : unit.bytesToTransfer > 0) (data : UInt8) :
    ∃ unit', unit.readFromSubordinate data = some unit' ∧ unit'.Sound ∧
      unit'.fRead = unit.fRead := by
  obtain ⟨xs, hholds, -, hlength⟩ := h
  have hlength := hlength hread
  obtain ⟨q, hpush, hholds', hsize⟩ := hholds.push (by omega) data
  rw [readFromSubordinate, hpush]
  refine ⟨_, rfl, ⟨xs ++ [data], hholds', fun hwrite => ?_, fun _ => ?_⟩, rfl⟩
  · have hwrite' : unit.fRead = false := hwrite
    exact absurd (hwrite'.symm.trans hread) (by decide)
  · have hsum : (xs ++ [data]).length + (unit.bytesToTransfer - 1) = q.size := by
      rw [List.length_append, List.length_singleton, hsize]
      omega
    exact hsum

end XActionUnit

/-! ### What has been started -/

def unitsStarted {κ : Type} [DecidableEq κ] (x : κ) (log : List (Started κ)) : List Nat :=
  log.filterMap fun
    | .unit y index => if y = x then some index else none
    | .next _ => none

/-- The transactions that `StartNext` starts -/
def transactionsStarted {κ : Type} (log : List (Started κ)) : List κ :=
  log.filterMap fun
    | .next x => some x
    | .unit _ _ => none

def enqueued {κ : Type} (events : List (Event κ)) : List κ :=
  events.filterMap fun
    | .enqueue x => some x
    | _ => none

/-! ### One at a time -/

/-- What holds of a transaction, where `current` says that the controller works on it and `waiting`
    that its callback has not run -/
structure Fine (xAction : XAction) (current waiting : Prop) : Prop where
  processing : xAction.status = .processing ↔ current
  idle : xAction.status = .idle → xAction.current = 0 ∧ ¬ waiting
  not_scheduled : xAction.status ≠ .scheduled
  waiting : waiting → xAction.status = .completed ∨ xAction.status = .aborted
  current_le : xAction.current ≤ xAction.numXActionUnits
  sound : ∀ unit ∈ xAction.xActionUnits, unit.Sound

theorem Fine.congr {xAction : XAction} {current current' waiting waiting' : Prop}
    (h : Fine xAction current waiting) (hcurrent : current' ↔ current)
    (hwaiting : waiting' ↔ waiting) : Fine xAction current' waiting' := by
  rw [propext hcurrent, propext hwaiting]
  exact h

/-- The transaction that is processed is the one in the queue and that of the controller. -/
structure Serial {κ : Type} (d : Driver κ) : Prop where
  fine : ∀ x, Fine (d.xAction x) (d.currentXAction = some x) (x ∈ d.continuations)
  xActions : d.xActions = d.currentXAction.toList
  interrupts : d.interrupts = d.currentXAction.isSome
  unit : ∀ x, d.currentXAction = some x → ∃ index unit, d.currentXActionUnit = some (x, index) ∧
    (d.xAction x).current = index + 1 ∧ (d.xAction x).xActionUnits[index]? = some unit ∧
    d.mread = unit.fRead
  unit_none : d.currentXAction = none → d.currentXActionUnit = none
  nodup : d.continuations.Nodup

/-- No transaction is started while one is in progress, and none is enqueued twice or without
    units. -/
def Proper {κ : Type} (d : Driver κ) : Event κ → Prop
  | .enqueue x => d.currentXAction = none ∧ (d.xAction x).status = .idle ∧
      (d.xAction x).xActionUnits ≠ []
  | .cancel x => d.currentXAction = none ∨ d.currentXAction = some x ∨
      (d.xAction x).status = .idle ∨ (d.xAction x).status = .cancelled
  | .isr _ _ => True
  | .dequeueAndExecute => d.currentXAction = none ∨ d.continuations = []

def Extends {κ : Type} [DecidableEq κ] (d : Driver κ) (log : List (Started κ)) (d' : Driver κ) :
    Prop :=
  ∀ x, List.range (d'.xAction x).current = List.range (d.xAction x).current ++ unitsStarted x log

section Steps

variable {κ : Type} [DecidableEq κ] {d : Driver κ} {x : κ}

theorem startNext_nil (h : d.xActions = []) : d.startNext = some (d, []) := by
  rw [Driver.startNext, h]

theorem extends_nil {d' : Driver κ}
    (h : ∀ x, (d'.xAction x).current = (d.xAction x).current) : Extends d [] d' := by
  intro y
  rw [h y]
  exact (List.append_nil _).symm

theorem extends_unit {d' : Driver κ}
    (hx : (d'.xAction x).current = (d.xAction x).current + 1)
    (h : ∀ y, y ≠ x → (d'.xAction y).current = (d.xAction y).current) :
    Extends d [.unit x (d.xAction x).current] d' := by
  intro y
  by_cases hy : y = x
  · subst hy
    rw [hx, List.range_succ]
    simp [unitsStarted]
  · rw [h y hy]
    simp [unitsStarted, Ne.symm hy]

theorem setState_current (y : κ) (status : Status) :
    ((d.setState x status).xAction y).current = (d.xAction y).current := by
  by_cases hy : y = x
  · subst hy
    simp [Driver.setState, Driver.setXAction]
  · simp [Driver.setState, Driver.setXAction, hy]

omit [DecidableEq κ] in
theorem Serial.free (h : Serial d) (hnone : d.currentXAction = none) : d.xActions = [] := by
  rw [h.xActions, hnone]
  rfl

omit [DecidableEq κ] in
theorem Serial.stop_eq (h : Serial d) (hnone : d.currentXAction = none) :
    d.masterXActionStop = d := by
  have hinterrupts := h.interrupts
  have hunit := h.unit_none hnone
  rw [hnone, Option.isSome_none] at hinterrupts
  rw [Driver.masterXActionStop]
  cases d
  dsimp only at hnone hinterrupts hunit
  rw [hnone, hinterrupts, hunit]

theorem Serial.leave (h : Serial d) (hx : d.currentXAction = none ∨ d.currentXAction = some x) :
    ((d.masterXActionStop.unlink x).setState x .cancelled).xActions = [] ∧
    Serial ((d.masterXActionStop.unlink x).setState x .cancelled) := by
  have hempty : d.xActions.erase x = [] := by
    rw [h.xActions]
    rcases hx with hx | hx <;> rw [hx]
    · rfl
    · exact List.erase_cons_head x []
  refine ⟨hempty, ⟨fun y => ?_, hempty, rfl, fun y hy => absurd hy (Option.some_ne_none y).symm,
    fun _ => rfl, h.nodup.erase x⟩⟩
  have hfine := h.fine y
  by_cases hy : y = x
  · subst hy
    have hout : y ∉ d.continuations.erase y := h.nodup.not_mem_erase
    simp only [Driver.setState, Driver.setXAction, Driver.unlink, Driver.masterXActionStop,
      Function.update_self]
    exact ⟨⟨fun heq => Status.noConfusion heq, fun heq => absurd heq (Option.some_ne_none y).symm⟩,
      fun heq => Status.noConfusion heq, fun heq => Status.noConfusion heq,
      fun hin => absurd hin hout, hfine.current_le, hfine.sound⟩
  · have hcurrent : d.currentXAction ≠ some y := by
      rcases hx with hx | hx <;> rw [hx]
      · exact (Option.some_ne_none y).symm
      · exact fun heq => hy (Option.some.inj heq).symm
    simp only [Driver.setState, Driver.setXAction, Driver.unlink, Driver.masterXActionStop,
      Function.update_of_ne hy]
    exact hfine.congr
      ⟨fun heq => absurd heq (Option.some_ne_none y).symm, fun heq => absurd heq hcurrent⟩
      (List.mem_erase_of_ne hy)

theorem Serial.signal (h : Serial d) (hx : d.currentXAction = some x) {state : Status}
    (hstate : state = .completed ∨ state = .aborted) :
    Serial (d.signal x state) ∧ Extends d [] (d.signal x state) := by
  have hne : state ≠ .cancelled := by
    rcases hstate with rfl | rfl <;> exact fun heq => Status.noConfusion heq
  have heq : d.signal x state = Driver.masterXActionStop { (d.setState x state).unlink x with
      continuations := d.continuations.erase x ++ [x] } := by
    have hstatus : (((d.setState x state).unlink x).xAction x).status = state := by
      simp [Driver.setState, Driver.setXAction, Driver.unlink]
    rw [Driver.signal]
    exact if_pos (by rw [hstatus]; exact hne)
  have hwaiting : x ∉ d.continuations := by
    intro hin
    rcases (h.fine x).waiting hin with hstatus | hstatus <;>
      exact Status.noConfusion (hstatus.symm.trans ((h.fine x).processing.mpr hx))
  have hempty : d.xActions.erase x = [] := by
    rw [h.xActions, hx]
    exact List.erase_cons_head x []
  rw [heq, List.erase_of_not_mem hwaiting]
  refine ⟨⟨fun y => ?_, hempty, rfl, fun y hy => absurd hy (Option.some_ne_none y).symm,
    fun _ => rfl, ?_⟩, extends_nil fun y => setState_current y state⟩
  · have hfine := h.fine y
    by_cases hy : y = x
    · subst hy
      simp only [Driver.setState, Driver.setXAction, Driver.unlink, Driver.masterXActionStop,
        Function.update_self]
      refine ⟨⟨fun heq => ?_, fun heq => absurd heq (Option.some_ne_none y).symm⟩, fun heq => ?_,
        fun heq => ?_, fun _ => hstate, hfine.current_le, hfine.sound⟩ <;>
      · dsimp only at heq
        rcases hstate with rfl | rfl <;> exact Status.noConfusion heq
    · simp only [Driver.setState, Driver.setXAction, Driver.unlink, Driver.masterXActionStop,
        Function.update_of_ne hy]
      refine hfine.congr ⟨fun heq => absurd heq (Option.some_ne_none y).symm, fun heq => ?_⟩ ?_
      · exact absurd (Option.some.inj (heq.symm.trans hx)) hy
      · rw [List.mem_append, List.mem_singleton]
        exact or_iff_left hy
  · exact List.nodup_append.mpr ⟨h.nodup, List.pairwise_singleton _ x, fun y hy z hz hyz =>
      hwaiting (List.mem_singleton.mp hz ▸ hyz ▸ hy)⟩

/-- The next unit of the transaction that is processed, or the first of one that is started -/
theorem masterXActionStart_spec (hfine : ∀ y, y ≠ x → Fine (d.xAction y)
      (d.currentXAction = some y) (y ∈ d.continuations))
    (hx : Fine (d.xAction x) True (x ∈ d.continuations)) (hxActions : d.xActions = [x])
    (hother : ∀ y, y ≠ x → d.currentXAction ≠ some y) (hnodup : d.continuations.Nodup)
    (hunit : (d.xAction x).current < (d.xAction x).numXActionUnits) :
    ∃ d', d.masterXActionStart x = some (d', [.unit x (d.xAction x).current]) ∧ Serial d' ∧
      Extends d [.unit x (d.xAction x).current] d' := by
  have hget : (d.xAction x).xActionUnits[(d.xAction x).current]? =
      some (d.xAction x).xActionUnits[(d.xAction x).current] := List.getElem?_eq_getElem hunit
  have hself : (Function.update d.xAction x
      { d.xAction x with current := (d.xAction x).current + 1 } x) =
        { d.xAction x with current := (d.xAction x).current + 1 } := Function.update_self ..
  rw [Driver.masterXActionStart, hget]
  refine ⟨_, rfl, ⟨fun y => ?_, hxActions, rfl, fun y hy => ?_,
    fun hnone => absurd hnone (Option.some_ne_none x), hnodup⟩, extends_unit ?_ fun y hy => ?_⟩
  · by_cases hy : y = x
    · subst hy
      simp only [Driver.setXAction, hself]
      have hnever : (d.xAction y).status ≠ .idle := fun hidle =>
        Status.noConfusion (hidle.symm.trans (hx.processing.mpr trivial))
      exact ⟨⟨fun _ => by trivial, fun _ => hx.processing.mpr trivial⟩, fun heq => absurd heq hnever,
        hx.not_scheduled, hx.waiting, hunit, hx.sound⟩
    · simp only [Driver.setXAction, Function.update_of_ne hy]
      exact (hfine y hy).congr
        ⟨fun heq => absurd (Option.some.inj heq).symm hy, fun heq => absurd heq (hother y hy)⟩
        Iff.rfl
  · have hxy := Option.some.inj hy
    subst hxy
    simp only [Driver.setXAction, hself]
    exact ⟨_, _, rfl, rfl, hget, rfl⟩
  · simp only [Driver.setXAction, hself]
  · simp only [Driver.setXAction, Function.update_of_ne hy]

theorem Serial.setUnit (h : Serial d) (hx : d.currentXAction = some x) {index : Nat}
    {unit unit' : XActionUnit} (hunit : (d.xAction x).xActionUnits[index]? = some unit)
    (hsound : unit'.Sound) (hread : unit'.fRead = unit.fRead) :
    Serial (d.setUnit x index unit') ∧ Extends d [] (d.setUnit x index unit') := by
  have hself : ∀ xAction, Function.update d.xAction x xAction x = xAction := fun _ =>
    Function.update_self ..
  obtain ⟨hlt, -⟩ := List.getElem?_eq_some_iff.mp hunit
  refine ⟨⟨fun y => ?_, h.xActions, h.interrupts, fun y hy => ?_, h.unit_none, h.nodup⟩,
    extends_nil fun y => ?_⟩
  · have hfine := h.fine y
    by_cases hy : y = x
    · subst hy
      simp only [Driver.setUnit, Driver.setXAction, hself]
      refine ⟨hfine.processing, hfine.idle, hfine.not_scheduled, hfine.waiting, ?_,
        fun unit₁ hmem => ?_⟩
      · rw [XAction.numXActionUnits, List.length_set]
        exact hfine.current_le
      · rcases List.mem_or_eq_of_mem_set hmem with hmem | rfl
        · exact hfine.sound unit₁ hmem
        · exact hsound
    · simp only [Driver.setUnit, Driver.setXAction, Function.update_of_ne hy]
      exact hfine
  · obtain ⟨index₁, unit₁, hindex, hcurrent, hget, hmread⟩ := h.unit y hy
    have hxy := Option.some.inj (hx.symm.trans hy)
    subst hxy
    simp only [Driver.setUnit, Driver.setXAction, hself]
    refine ⟨index₁, if index₁ = index then unit' else unit₁, hindex, hcurrent, ?_, ?_⟩
    · by_cases heq : index₁ = index
      · subst heq
        rw [if_pos rfl, List.getElem?_set_self hlt]
      · rw [if_neg heq, List.getElem?_set_ne (Ne.symm heq)]
        exact hget
    · by_cases heq : index₁ = index
      · subst heq
        rw [if_pos rfl, hread, hmread, Option.some.inj (hget.symm.trans hunit)]
      · rw [if_neg heq]
        exact hmread
  · by_cases hy : y = x
    · subst hy
      simp only [Driver.setUnit, Driver.setXAction, hself]
    · simp only [Driver.setUnit, Driver.setXAction, Function.update_of_ne hy]

/-! ### Calls, callbacks and interrupts -/

theorem enqueue_spec (h : Serial d) (hproper : Proper d (.enqueue x)) :
    ∃ d' r, d.enqueue x = some (d', r) ∧ Serial d' ∧ Extends d r d' ∧
      transactionsStarted r = [x] := by
  obtain ⟨hnone, hidle, hunits⟩ := hproper
  obtain ⟨hcurrent, hout⟩ := (h.fine x).idle hidle
  have hfree := h.free hnone
  have hlinked : ¬ (x ∈ d.xActions ∨ x ∈ d.continuations) := by
    rw [hfree]
    rintro (hin | hin)
    · exact List.not_mem_nil hin
    · exact hout hin
  rw [Driver.enqueue, if_neg hlinked]
  dsimp only
  have hqueue : (d.setState x .scheduled).xActions ++ [x] = [x] := by
    have hnil : (d.setState x .scheduled).xActions = [] := hfree
    rw [hnil, List.nil_append]
  rw [hqueue, Driver.startNext]
  dsimp only
  generalize hstart : Driver.setState { d.setState x .scheduled with xActions := [x] } x
    .processing = d₀
  have hself : d₀.xAction x = { d.xAction x with status := .processing } := by
    subst hstart
    simp [Driver.setState, Driver.setXAction]
  have hother : ∀ y, y ≠ x → d₀.xAction y = d.xAction y := by
    intro y hy
    subst hstart
    simp [Driver.setState, Driver.setXAction, hy]
  have hxActions : d₀.xActions = [x] := by
    subst hstart
    rfl
  have hcurrents : d₀.currentXAction = d.currentXAction := by
    subst hstart
    rfl
  have hcontinuations : d₀.continuations = d.continuations := by
    subst hstart
    rfl
  have hx : Fine (d₀.xAction x) True (x ∈ d₀.continuations) := by
    rw [hself, hcontinuations]
    exact ⟨⟨fun _ => trivial, fun _ => rfl⟩, fun heq => Status.noConfusion heq,
      fun heq => Status.noConfusion heq, fun hin => absurd hin hout, (h.fine x).current_le,
      (h.fine x).sound⟩
  have hlt : (d₀.xAction x).current < (d₀.xAction x).numXActionUnits := by
    rw [hself]
    exact hcurrent ▸ List.length_pos_iff.mpr hunits
  obtain ⟨d', heq, hserial, hextends⟩ := masterXActionStart_spec
    (fun y hy => by rw [hother y hy, hcurrents, hcontinuations]; exact h.fine y) hx hxActions
    (fun y _ => by rw [hcurrents, hnone]; exact (Option.some_ne_none y).symm)
    (by rw [hcontinuations]; exact h.nodup) hlt
  rw [heq]
  refine ⟨d', _, rfl, hserial, fun y => ?_, rfl⟩
  have hbefore : (d₀.xAction y).current = (d.xAction y).current := by
    by_cases hy : y = x
    · subst hy
      rw [hself]
    · rw [hother y hy]
  rw [hextends y, hbefore]
  rfl

theorem cancel_spec (h : Serial d) (hproper : Proper d (.cancel x)) :
    ∃ d', d.cancel x = some (d', []) ∧ Serial d' ∧ Extends d [] d' := by
  have hleft : (d.currentXAction = none ∨ d.currentXAction = some x) →
      ∃ d', ((d.masterXActionStop.unlink x).setState x .cancelled).startNext = some (d', []) ∧
        Serial d' ∧ Extends d [] d' := by
    intro hx
    obtain ⟨hempty, hserial⟩ := h.leave hx
    exact ⟨_, startNext_nil hempty, hserial, extends_nil fun y => setState_current y .cancelled⟩
  have hstopped : (d.xAction x).status ≠ .processing → (d.xAction x).status ≠ .idle →
      (d.xAction x).status ≠ .cancelled →
      ∃ d', ((d.unlink x).setState x .cancelled).startNext = some (d', []) ∧
        Serial d' ∧ Extends d [] d' := by
    intro hprocessing hidle hcancelled
    have hnone : d.currentXAction = none := by
      rcases hproper with hnone | hx | hstatus | hstatus
      · exact hnone
      · exact absurd ((h.fine x).processing.mpr hx) hprocessing
      · exact absurd hstatus hidle
      · exact absurd hstatus hcancelled
    have hspec := hleft (Or.inl hnone)
    rw [h.stop_eq hnone] at hspec
    exact hspec
  rw [Driver.cancel]
  cases hstatus : (d.xAction x).status with
  | processing => exact hleft (Or.inr ((h.fine x).processing.mp hstatus))
  | scheduled => exact absurd hstatus (h.fine x).not_scheduled
  | completed => exact hstopped (by simp [hstatus]) (by simp [hstatus]) (by simp [hstatus])
  | aborted => exact hstopped (by simp [hstatus]) (by simp [hstatus]) (by simp [hstatus])
  | idle => exact ⟨d, rfl, h, extends_nil fun _ => rfl⟩
  | cancelled => exact ⟨d, rfl, h, extends_nil fun _ => rfl⟩

theorem dequeueAndExecute_spec (h : Serial d) (hproper : Proper d .dequeueAndExecute) :
    ∃ d', d.dequeueAndExecute = some (d', []) ∧ Serial d' ∧ Extends d [] d' := by
  rw [Driver.dequeueAndExecute]
  cases hcontinuations : d.continuations with
  | nil => exact ⟨d, rfl, h, extends_nil fun _ => rfl⟩
  | cons x continuations =>
    have hnone : d.currentXAction = none := by
      rcases hproper with hnone | hnil
      · exact hnone
      · exact absurd (hcontinuations.symm.trans hnil) (List.cons_ne_nil _ _)
    have hserial : Serial { d with continuations := continuations } := by
      refine ⟨fun y => ?_, h.xActions, h.interrupts, h.unit, h.unit_none, ?_⟩
      · have hfine := h.fine y
        rw [hcontinuations] at hfine
        exact ⟨hfine.processing,
          fun hidle => ⟨(hfine.idle hidle).1, fun hin => (hfine.idle hidle).2
            (List.mem_cons_of_mem x hin)⟩,
          hfine.not_scheduled, fun hin => hfine.waiting (List.mem_cons_of_mem x hin),
          hfine.current_le, hfine.sound⟩
      · have hnodup := h.nodup
        rw [hcontinuations] at hnodup
        exact (List.nodup_cons.mp hnodup).2
    refine ⟨_, ?_, hserial, extends_nil fun _ => rfl⟩
    dsimp only
    rw [Driver.completedCallback]
    split
    · exact startNext_nil (h.free hnone)
    · rfl

def Interrupted (d : Driver κ) (result : Option (Driver κ × List (Started κ))) : Prop :=
  ∃ d' r, result = some (d', r) ∧ Serial d' ∧ Extends d r d' ∧ transactionsStarted r = []

theorem Serial.interrupted (h : Serial d) : Interrupted d (some (d, [])) :=
  ⟨d, [], rfl, h, extends_nil fun _ => rfl, rfl⟩

theorem signal_interrupted (h : Serial d) (hx : d.currentXAction = some x) {state : Status}
    (hstate : state = .completed ∨ state = .aborted) :
    Interrupted d (some (d.signal x state, [])) :=
  ⟨_, [], rfl, (h.signal hx hstate).1, (h.signal hx hstate).2, rfl⟩

theorem unit_interrupted (h : Serial d) (hx : d.currentXAction = some x) :
    Interrupted d (if (d.xAction x).processingLastUnit then some (d.signal x .completed, [])
      else d.masterXActionStart x) := by
  by_cases hlast : (d.xAction x).processingLastUnit = true
  · rw [if_pos hlast]
    exact signal_interrupted h hx (Or.inl rfl)
  · rw [if_neg hlast]
    have hne : (d.xAction x).current ≠ (d.xAction x).numXActionUnits := fun heq =>
      hlast (decide_eq_true heq)
    have hxActions : d.xActions = [x] := by
      rw [h.xActions, hx]
      rfl
    obtain ⟨d', heq, hserial, hextends⟩ := masterXActionStart_spec (fun y _ => h.fine y)
      ((h.fine x).congr (iff_of_true trivial hx) Iff.rfl) hxActions
      (fun y hy heq => hy (Option.some.inj (hx.symm.trans heq)).symm) h.nodup
      (Nat.lt_of_le_of_ne (h.fine x).current_le hne)
    exact ⟨d', _, heq, hserial, hextends, rfl⟩

theorem Interrupted.after {d₁ : Driver κ} {result : Option (Driver κ × List (Started κ))}
    (h : Interrupted d₁ result) (hextends : Extends d [] d₁) : Interrupted d result := by
  obtain ⟨d', r, heq, hserial, hr, hnone⟩ := h
  refine ⟨d', r, heq, hserial, fun y => ?_, hnone⟩
  have hnil : List.range (d₁.xAction y).current = List.range (d.xAction y).current :=
    (hextends y).trans (List.append_nil _)
  rw [hr y, hnil]

section Interrupt

variable {index : Nat} {unit : XActionUnit} (h : Serial d) (hx : d.currentXAction = some x)
  (hunit : (d.xAction x).xActionUnits[index]? = some unit)

include h hx hunit

theorem isrTx_spec (hwrite : d.mread = false) (hmread : d.mread = unit.fRead) (status : UInt32) :
    Interrupted d (d.isrTx x x index unit status) := by
  rw [Driver.isrTx]
  by_cases hnack : status &&& TWI_SR_NACK ≠ 0
  · rw [if_pos hnack]
    exact signal_interrupted h hx (Or.inr rfl)
  rw [if_neg hnack]
  by_cases hzero : unit.bytesToTransfer = 0
  · rw [if_pos hzero]
    by_cases hcomp : status &&& TWI_SR_TXCOMP ≠ 0
    · rw [if_pos hcomp]
      exact unit_interrupted h hx
    · rw [if_neg hcomp]
      exact h.interrupted
  rw [if_neg hzero]
  have hread : unit.fRead = false := hmread.symm.trans hwrite
  rw [if_neg (by rw [hread]; decide)]
  by_cases hstatus : status ≠ 0
  · rw [if_pos hstatus]
    have hsound := (h.fine x).sound unit (List.mem_of_getElem? hunit)
    obtain ⟨unit', heq, hsound', hread'⟩ := XActionUnit.writeToSubordinate_spec hsound hread hzero
    obtain ⟨hserial, hextends⟩ := h.setUnit hx hunit hsound' hread'
    rw [heq]
    exact ⟨_, [], rfl, hserial, hextends, rfl⟩
  · rw [if_neg hstatus]
    exact h.interrupted

theorem isrRx_spec (hread : d.mread ≠ false) (hmread : d.mread = unit.fRead) (status : UInt32)
    (data : UInt8) : Interrupted d (d.isrRx x x index unit status data) := by
  rw [Driver.isrRx]
  by_cases habort : status &&& TWI_SR_TXCOMP ≠ 0 ∧ unit.bytesToTransfer > 0
  · rw [if_pos habort]
    exact signal_interrupted h hx (Or.inr rfl)
  rw [if_neg habort]
  have hsound := (h.fine x).sound unit (List.mem_of_getElem? hunit)
  have hfRead : unit.fRead = true := hmread.symm.trans (eq_true_of_ne_false hread)
  have hbyte : ∃ unit', (if unit.bytesToTransfer > 0 ∧ status &&& TWI_SR_RXRDY ≠ 0 then
      unit.readFromSubordinate data else some unit) = some unit' ∧ unit'.Sound ∧
      unit'.fRead = unit.fRead := by
    split
    next hready => exact XActionUnit.readFromSubordinate_spec hsound hfRead hready.1 data
    next => exact ⟨unit, rfl, hsound, rfl⟩
  obtain ⟨unit', heq, hsound', hread'⟩ := hbyte
  obtain ⟨hserial, hextends⟩ := h.setUnit hx hunit hsound' hread'
  have hlast : (d.xAction x).processingLastUnit =
      ((d.setUnit x index unit').xAction x).processingLastUnit := by
    have hself : (d.setUnit x index unit').xAction x = { d.xAction x with
        xActionUnits := (d.xAction x).xActionUnits.set index unit' } := Function.update_self ..
    rw [hself, XAction.processingLastUnit, XAction.processingLastUnit, XAction.numXActionUnits,
      XAction.numXActionUnits, List.length_set]
  dsimp only
  rw [heq]
  dsimp only
  split
  · rw [hlast]
    exact (unit_interrupted hserial hx).after hextends
  · exact hserial.interrupted.after hextends

end Interrupt

theorem isr_spec (h : Serial d) (status : UInt32) (data : UInt8) :
    Interrupted d (d.isr status data) := by
  rw [Driver.isr]
  by_cases hoff : d.interrupts = false
  · rw [if_pos hoff]
    exact h.interrupted
  rw [if_neg hoff]
  have hsome : d.currentXAction.isSome = true := by
    rw [← h.interrupts]
    exact eq_true_of_ne_false hoff
  obtain ⟨x, hx⟩ := Option.isSome_iff_exists.mp hsome
  obtain ⟨index, unit, hindex, -, hunit, hmread⟩ := h.unit x hx
  rw [hx, hindex]
  dsimp only
  rw [hunit]
  dsimp only
  by_cases hwrite : d.mread = false
  · rw [if_pos hwrite]
    exact isrTx_spec h hx hunit hwrite hmread status
  · rw [if_neg hwrite]
    exact isrRx_spec h hx hunit hwrite hmread status data

/-- **One call, callback or interrupt** -/
theorem step_spec (h : Serial d) {event : Event κ} (hproper : Proper d event) :
    ∃ d' r, step d event = some (d', r) ∧ Serial d' ∧ Extends d r d' ∧
      transactionsStarted r = enqueued [event] := by
  cases event with
  | enqueue x => exact enqueue_spec h hproper
  | cancel x =>
    obtain ⟨d', heq, hserial, hextends⟩ := cancel_spec h hproper
    exact ⟨d', [], heq, hserial, hextends, rfl⟩
  | isr status data => exact isr_spec h status data
  | dequeueAndExecute =>
    obtain ⟨d', heq, hserial, hextends⟩ := dequeueAndExecute_spec h hproper
    exact ⟨d', [], heq, hserial, hextends, rfl⟩

end Steps

/-! ### Runs -/

section Runs

variable {κ : Type} [DecidableEq κ]

/-- What a run has started so far -/
structure History (d : Driver κ) (events : List (Event κ)) (rs : List (List (Started κ))) :
    Prop where
  serial : Serial d
  units : ∀ x, unitsStarted x rs.flatten = List.range (d.xAction x).current
  transactions : transactionsStarted rs.flatten = enqueued events

theorem History.step {d : Driver κ} {events : List (Event κ)} {rs : List (List (Started κ))}
    (h : History d events rs) {event : Event κ} (hproper : Proper d event) :
    ∃ d' r, step d event = some (d', r) ∧ History d' (events ++ [event]) (rs ++ [r]) := by
  obtain ⟨d', r, heq, hserial, hextends, htransactions⟩ := step_spec h.serial hproper
  have hflatten : (rs ++ [r]).flatten = rs.flatten ++ r := by
    rw [List.flatten_append, List.flatten_singleton]
  refine ⟨d', r, heq, hserial, fun x => ?_, ?_⟩
  · rw [hflatten, unitsStarted, List.filterMap_append, hextends x, ← h.units x]
    rfl
  · rw [hflatten, transactionsStarted, enqueued, List.filterMap_append, List.filterMap_append]
    exact congrArg₂ (· ++ ·) h.transactions htransactions

end Runs

end TinyClr.I2c
