import TinyClr.Library.Runs
import TinyClr.Pal.Usart

/-!
# Software flow control tells the truth

The sender has been told the last of the flow-control characters that are out or pending, where a
pending XON comes behind a pending XOFF.  That is right as long as no reason for XOFF comes up
while an XON is pending.
-/

namespace TinyClr.Usart

open TinyClr.Library

/-! ### Queues -/

structure Queue.Holds (q : Queue) (xs : List UInt8) : Prop where
  ring : Ring q.data q.reader xs
  writer : q.writer = (q.reader + xs.length) % q.size
  full : q.full = true ↔ xs.length = q.size

namespace Queue.Holds

variable {q : Queue} {xs : List UInt8}

theorem length_le (h : q.Holds xs) : xs.length ≤ q.size := h.ring.length_le

theorem reader_lt (h : q.Holds xs) : q.reader < q.size := h.ring.head_lt

theorem writer_cases (h : q.Holds xs) :
    q.reader + xs.length < q.size ∧ q.writer = q.reader + xs.length ∨
      q.size ≤ q.reader + xs.length ∧ q.writer = q.reader + xs.length - q.size := by
  have hwriter := h.writer
  have hle := h.length_le
  have hlt := h.reader_lt
  rcases Nat.lt_or_ge (q.reader + xs.length) q.size with hin | hout
  · rw [Nat.mod_eq_of_lt hin] at hwriter
    exact Or.inl ⟨hin, hwriter⟩
  · rw [Nat.mod_eq_sub_mod hout, Nat.mod_eq_of_lt (by omega)] at hwriter
    exact Or.inr ⟨hout, hwriter⟩

theorem numberOfElements (h : q.Holds xs) : q.numberOfElements = xs.length := by
  have hle := h.length_le
  have hlt := h.reader_lt
  rw [Queue.numberOfElements]
  by_cases hfull : q.full = true
  · have hlength := h.full.mp hfull
    rcases h.writer_cases with ⟨hin, hwriter⟩ | ⟨hout, hwriter⟩ <;>
      · rw [if_neg (by omega), if_pos hfull, hlength]
  · have hlength : xs.length ≠ q.size := fun heq => hfull (h.full.mpr heq)
    rw [if_neg hfull]
    rcases h.writer_cases with ⟨hin, hwriter⟩ | ⟨hout, hwriter⟩
    · rw [if_neg (by omega)]
      omega
    · rw [if_pos (by omega)]
      omega

theorem empty_iff (h : q.Holds xs) : (q.reader = q.writer ∧ q.full = false) ↔ xs = [] := by
  have hle := h.length_le
  have hlt := h.reader_lt
  rw [← List.length_eq_zero_iff]
  constructor
  · rintro ⟨heq, hfull⟩
    have hlength : xs.length ≠ q.size := by
      intro hlength
      rw [h.full.mpr hlength] at hfull
      exact absurd hfull (by decide)
    rcases h.writer_cases with ⟨hin, hwriter⟩ | ⟨hout, hwriter⟩ <;> omega
  · intro hzero
    refine ⟨?_, ?_⟩
    · rcases h.writer_cases with ⟨hin, hwriter⟩ | ⟨hout, hwriter⟩ <;> omega
    · rw [← Bool.not_eq_true, h.full]
      omega

theorem ofData {data : List UInt8} (h : 0 < data.length) : (Queue.ofData data).Holds [] :=
  ⟨Ring.nil h, (Nat.zero_mod _).symm, ⟨fun hfull => absurd hfull (by simp [Queue.ofData]),
    fun hlength => absurd hlength (Nat.ne_of_lt h)⟩⟩

theorem push (h : q.Holds xs) (hroom : xs.length < q.size) (c : UInt8) :
    ∃ q', q.push c = some q' ∧ q'.Holds (xs ++ [c]) ∧ q'.size = q.size := by
  have hlt := h.reader_lt
  have hfull : ¬ q.full = true := fun hfull => Nat.ne_of_lt hroom (h.full.mp hfull)
  have hring := h.ring.push hroom c
  have hwrap : q.wrap (q.writer + 1) = (q.reader + (xs.length + 1)) % q.size := by
    rw [Queue.wrap]
    rcases h.writer_cases with ⟨hin, hwriter⟩ | ⟨hout, hwriter⟩
    · by_cases hend : q.writer + 1 = q.size
      · have hsum : q.reader + (xs.length + 1) = q.size := by omega
        rw [if_pos hend, hsum, Nat.mod_self]
      · rw [if_neg hend, Nat.mod_eq_of_lt (by omega)]
        omega
    · rw [if_neg (by omega), Nat.mod_eq_sub_mod (by omega), Nat.mod_eq_of_lt (by omega)]
      omega
  refine ⟨_, if_neg hfull, ⟨?_, ?_, ?_⟩, List.length_set⟩
  · rw [← Queue.size, ← h.writer] at hring
    exact hring
  · rw [List.length_append, List.length_singleton, Queue.size, List.length_set]
    exact hwrap
  · rw [List.length_append, List.length_singleton, Queue.size, List.length_set, decide_eq_true_iff,
      hwrap, ← Queue.size]
    rcases Nat.lt_or_ge (q.reader + (xs.length + 1)) q.size with hin | hout
    · rw [Nat.mod_eq_of_lt hin]
      omega
    · rw [Nat.mod_eq_sub_mod hout, Nat.mod_eq_of_lt (by omega)]
      omega

theorem push_full (h : q.Holds xs) (hlength : xs.length = q.size) (c : UInt8) :
    q.push c = none := if_pos (h.full.mpr hlength)

theorem pop {x : UInt8} (h : q.Holds (x :: xs)) :
    ∃ q', q.pop = some (x, q') ∧ q'.Holds xs ∧ q'.size = q.size := by
  have hle := h.length_le
  have hlt := h.reader_lt
  have hne : ¬ (q.reader = q.writer ∧ q.full = false) := fun hempty =>
    absurd (h.empty_iff.mp hempty) (List.cons_ne_nil _ _)
  have hwrap : q.wrap (q.reader + 1) = (q.reader + 1) % q.size := by
    rw [Queue.wrap]
    split
    next heq => rw [heq, Nat.mod_self]
    next hne => rw [Nat.mod_eq_of_lt (by omega)]
  rw [List.length_cons] at hle
  rw [Queue.pop, if_neg hne, h.ring.peek, Option.map_some, hwrap]
  refine ⟨_, rfl, ⟨h.ring.advance, ?_, ?_⟩, rfl⟩
  · have hsum : q.reader + 1 + xs.length = q.reader + (xs.length + 1) := by omega
    rw [h.writer, List.length_cons]
    exact (congrArg (· % q.size) hsum.symm).trans (Nat.mod_add_mod _ _ _).symm
  · exact ⟨fun hfull => absurd hfull (by simp), fun heq => absurd heq (Nat.ne_of_lt hle)⟩

/-- How many elements a pop takes: those up to the end of the memory -/
def piece (q : Queue) (xs : List UInt8) (n : Nat) : Nat := min (min n xs.length) (q.size - q.reader)

theorem popPiece (h : q.Holds xs) (n : Nat) :
    ∃ q', q.popPiece n = (xs.take (piece q xs n), q') ∧ q'.Holds (xs.drop (piece q xs n)) ∧
      q'.size = q.size ∧ (q.size - q.reader < min n xs.length → q'.reader = 0) := by
  have hle := h.length_le
  have hlt := h.reader_lt
  rw [Queue.popPiece]
  by_cases hn : n = 0
  · subst hn
    have hzero : piece q xs 0 = 0 := by rw [piece, Nat.zero_min, Nat.zero_min]
    rw [if_pos rfl, hzero]
    exact ⟨q, rfl, h, rfl, fun hmin => absurd hmin (by omega)⟩
  rw [if_neg hn]
  by_cases hempty : xs = []
  · subst hempty
    rw [if_pos (h.empty_iff.mpr rfl), List.take_nil, List.drop_nil]
    refine ⟨_, rfl, ⟨Ring.nil (Nat.zero_lt_of_lt hlt), (Nat.zero_mod _).symm, h.full⟩, rfl, fun _ => rfl⟩
  rw [if_neg fun hzero => hempty (h.empty_iff.mp hzero)]
  have hpos := List.length_pos_iff.mpr hempty
  have hmax : (if q.writer ≤ q.reader then q.size - q.reader else q.writer - q.reader) =
      min xs.length (q.size - q.reader) := by
    rcases h.writer_cases with ⟨hin, hwriter⟩ | ⟨hout, hwriter⟩
    · rw [if_neg (by omega)]
      omega
    · rw [if_pos (by omega)]
      omega
  have hpiece : (if min xs.length (q.size - q.reader) < n then min xs.length (q.size - q.reader)
      else n) = piece q xs n := by
    rw [piece]
    split <;> omega
  have hk : piece q xs n ≤ xs.length := by rw [piece]; omega
  have hend : q.reader + piece q xs n ≤ q.size := by rw [piece]; omega
  have hkpos : 0 < piece q xs n := by rw [piece]; omega
  have hwrap : q.wrap (q.reader + piece q xs n) = (q.reader + piece q xs n) % q.size := by
    rw [Queue.wrap]
    split
    next heq => rw [heq, Nat.mod_self]
    next hne => rw [Nat.mod_eq_of_lt (by omega)]
  dsimp only
  rw [hmax, hpiece, h.ring.piece hk hend, hwrap]
  refine ⟨_, rfl, ⟨h.ring.drop hk, ?_, ?_⟩, rfl, fun hmin => ?_⟩
  · have hsum : q.reader + piece q xs n + (xs.length - piece q xs n) = q.reader + xs.length := by
      omega
    rw [List.length_drop, h.writer]
    exact (congrArg (· % q.size) hsum.symm).trans (Nat.mod_add_mod _ _ _).symm
  · rw [List.length_drop]
    exact ⟨fun hfull => absurd hfull (by simp), fun heq => absurd heq (by
      rw [Queue.size]
      exact Nat.ne_of_lt (Nat.lt_of_lt_of_le (by omega) hle))⟩
  · have hsize : q.reader + piece q xs n = q.size := by rw [piece]; omega
    exact hsize ▸ Nat.mod_self _

theorem discardQueue (h : q.Holds xs) :
    (Port.discardQueue q).Holds [] ∧ (Port.discardQueue q).size = q.size := by
  obtain ⟨q₁, heq₁, h₁, hsize₁, hreader⟩ := h.popPiece q.numberOfElements
  obtain ⟨q₂, heq₂, h₂, hsize₂, -⟩ := h₁.popPiece q₁.numberOfElements
  have hle := h.length_le
  have hlt := h.reader_lt
  have hdrop : (xs.drop (piece q xs q.numberOfElements)).drop
      (piece q₁ (xs.drop (piece q xs q.numberOfElements)) q₁.numberOfElements) = [] := by
    rw [List.drop_drop, List.drop_eq_nil_iff, h₁.numberOfElements, h.numberOfElements]
    rw [h.numberOfElements] at hreader
    simp only [piece, List.length_drop, hsize₁]
    rcases Nat.lt_or_ge (q.size - q.reader) xs.length with hwrapped | hstraight
    · rw [hreader (by omega)]
      omega
    · omega
  rw [hdrop] at h₂
  rw [Port.discardQueue, heq₁]
  dsimp only
  rw [heq₂]
  exact ⟨h₂, hsize₂.trans hsize₁⟩

end Queue.Holds

/-! ### What the sender has been told -/

/-- The received characters that have not been read, and whether the last flow-control character
    was XOFF -/
structure Line where
  fifo : List UInt8
  xoff : Bool
deriving DecidableEq, Repr

/-- A flow-control character of the sender, for a port that obeys them -/
def isFlow (swOut : Bool) (c : UInt8) : Prop := swOut = true ∧ (c = XOFF ∨ c = XON)

/-- What a flow-control character changes -/
def Line.sent (t : Line) : Option Sent → Line
  | some (.flow c) => { t with xoff := decide (c = XOFF) }
  | _ => t

/-- What an event does to the characters and to what the sender has been told -/
def Carries (size : Nat) (swOut : Bool) (t : Line) (event : Event) (t' : Line) (r : Reply) : Prop :=
  match event with
  | .addChar c =>
      (isFlow swOut c ∧ r = .added true ∧ t' = t) ∨
      (¬ isFlow swOut c ∧ r = .added true ∧ t' = { t with fifo := t.fifo ++ [c] }) ∨
      (¬ isFlow swOut c ∧ r = .added false ∧ t' = t ∧ t.fifo.length = size)
  | .readPiece toRead => ∃ k ≤ toRead, (0 < toRead → t.fifo ≠ [] → 0 < k) ∧
      r = .read (t.fifo.take k) ∧ t' = { t with fifo := t.fifo.drop k }
  | .writePiece src => ∃ nWritten ≤ src.length, r = .written nWritten ∧ t' = t
  | .discardBuffer fRx => r = .done ∧ t' = if fRx then { t with fifo := [] } else t
  | .prepareForClockStop => r = .done ∧ t' = t
  | .clockStopFinished => r = .done ∧ t' = t
  | .removeChar => ∃ what, r = .sent what ∧ t' = t.sent what

/-- The sender has been told the truth, and the full reason goes with the water marks. -/
structure Truthful (p : Port) (t : Line) : Prop where
  told : p.txBufferXOFF = false → p.txBufferXON = false →
    (t.xoff = true ↔ ∃ reason, p.rxXoffState reason = true)
  high : p.rxBufferHighWaterMark ≤ p.rxQueue.numberOfElements → p.rxXoffState .flagFull = true
  low : p.rxQueue.numberOfElements ≤ p.rxBufferLowWaterMark → p.rxXoffState .flagFull = false

/-- No reason for XOFF comes up while there is none and an XON is pending. -/
def Proper (p : Port) : Event → Prop
  | .addChar c => p.noReason = true → p.txBufferXON = true →
      isFlow p.txSwFlowCtrl c ∨ p.rxQueue.numberOfElements + 1 < p.rxBufferHighWaterMark ∨
        p.rxQueue.full = true
  | .prepareForClockStop => p.noReason = true → p.txBufferXON = false
  | _ => True

/-- What the sender will have been told when nothing is pending -/
def told (p : Port) (t : Line) : Bool := !p.txBufferXON && (p.txBufferXOFF || t.xoff)

/-- A port with software flow control on its input, and what it has in its queue -/
structure Flow (size : Nat) (swOut : Bool) (p : Port) (t : Line) : Prop where
  holds : p.rxQueue.Holds t.fifo
  queueSize : p.rxQueue.size = size
  told : told p t = !p.noReason
  high : p.rxBufferHighWaterMark ≤ t.fifo.length → p.rxXoffState .flagFull = true
  low : t.fifo.length ≤ p.rxBufferLowWaterMark → p.rxXoffState .flagFull = false
  marks : p.rxBufferLowWaterMark < p.rxBufferHighWaterMark
  high_le : p.rxBufferHighWaterMark ≤ size
  rxSwFlowCtrl : p.rxSwFlowCtrl = true
  txSwFlowCtrl : p.txSwFlowCtrl = swOut
  powersave : p.powersave = false
  initialized : p.initialized = true

theorem noReason_iff (p : Port) : p.noReason = true ↔ ∀ reason, p.rxXoffState reason = false := by
  rw [Port.noReason, Bool.and_eq_true, Bool.not_eq_true', Bool.not_eq_true']
  constructor
  · rintro ⟨hfull, hhalt⟩ reason
    cases reason
    · exact hfull
    · exact hhalt
  · exact fun h => ⟨h _, h _⟩

section Steps

variable {size : Nat} {swOut : Bool} {p : Port} {t : Line}

theorem Flow.truthful (h : Flow size swOut p t) : Truthful p t := by
  refine ⟨fun hoff hon => ?_, fun hle => h.high ?_, fun hle => h.low ?_⟩
  · have htold := h.told
    rw [Usart.told, hoff, hon, Bool.not_false, Bool.true_and, Bool.false_or] at htold
    rw [htold, Bool.not_eq_true', ← Bool.not_eq_true, noReason_iff]
    simp only [not_forall, Bool.not_eq_false]
  · rwa [h.holds.numberOfElements] at hle
  · rwa [h.holds.numberOfElements] at hle

theorem told_sendXOFF (h : told p t = !p.noReason) (flag : Reason) (hpower : p.powersave = false)
    (hpending : p.noReason = true → p.txBufferXON = false) :
    told (p.sendXOFF flag) t = !(p.sendXOFF flag).noReason := by
  have hreason : (p.sendXOFF flag).noReason = false := by
    rw [← Bool.not_eq_true, noReason_iff]
    intro hall
    have hflag := hall flag
    simp [Port.sendXOFF, hpower, Port.setReason] at hflag
  rw [hreason]
  cases hnone : p.noReason with
  | true => simp [Port.sendXOFF, hpower, hnone, Port.setReason, told, hpending hnone]
  | false =>
    rw [hnone] at h
    simpa [Port.sendXOFF, hpower, hnone, Port.setReason, told] using h

theorem told_sendXON (h : told p t = !p.noReason) (flag : Reason) (hpower : p.powersave = false) :
    told (p.sendXON flag) t = !(p.sendXON flag).noReason := by
  cases hnone : (p.setReason flag false).noReason with
  | true =>
    have hreason : (p.sendXON flag).noReason = true := by
      simp only [Port.sendXON, hpower, hnone, if_true, Bool.false_eq_true, if_false]
      exact hnone
    rw [hreason]
    simp [Port.sendXON, hpower, hnone, told]
  | false =>
    have hbefore : p.noReason = false := by
      rw [← Bool.not_eq_true, noReason_iff] at hnone ⊢
      refine fun hall => hnone fun reason => ?_
      rw [Port.setReason]
      dsimp only
      split
      · rfl
      · exact hall reason
    have hsend : p.sendXON flag = p.setReason flag false := by
      simp only [Port.sendXON, hpower, hnone, Bool.false_eq_true, if_false]
    rw [hsend, hnone]
    rw [hbefore] at h
    exact h

/-- What sending XOFF or XON leaves alone -/
structure SameQueue (p p' : Port) : Prop where
  rxQueue : p'.rxQueue = p.rxQueue
  high : p'.rxBufferHighWaterMark = p.rxBufferHighWaterMark
  low : p'.rxBufferLowWaterMark = p.rxBufferLowWaterMark
  rxSwFlowCtrl : p'.rxSwFlowCtrl = p.rxSwFlowCtrl
  txSwFlowCtrl : p'.txSwFlowCtrl = p.txSwFlowCtrl
  powersave : p'.powersave = p.powersave
  initialized : p'.initialized = p.initialized

theorem sendXOFF_same (p : Port) (flag : Reason) : SameQueue p (p.sendXOFF flag) := by
  rw [Port.sendXOFF]
  dsimp only
  split
  · exact ⟨rfl, rfl, rfl, rfl, rfl, rfl, rfl⟩
  · split <;> exact ⟨rfl, rfl, rfl, rfl, rfl, rfl, rfl⟩

theorem sendXON_same (p : Port) (flag : Reason) : SameQueue p (p.sendXON flag) := by
  rw [Port.sendXON]
  dsimp only
  split
  · exact ⟨rfl, rfl, rfl, rfl, rfl, rfl, rfl⟩
  · split <;> exact ⟨rfl, rfl, rfl, rfl, rfl, rfl, rfl⟩

theorem sendXOFF_reason (flag reason : Reason) (hpower : p.powersave = false) :
    (p.sendXOFF flag).rxXoffState reason = if reason = flag then true else p.rxXoffState reason := by
  simp only [Port.sendXOFF, hpower, Bool.false_eq_true, if_false]
  split <;> rfl

theorem sendXON_reason (flag reason : Reason) (hpower : p.powersave = false) :
    (p.sendXON flag).rxXoffState reason = if reason = flag then false else p.rxXoffState reason := by
  simp only [Port.sendXON, hpower, Bool.false_eq_true, if_false]
  split <;> rfl

theorem Flow.of_queue {q : Queue} {p' : Port} {t' : Line} (h : Flow size swOut p t)
    (hholds : q.Holds t'.fifo) (hsize : q.size = size) (hsame : SameQueue { p with rxQueue := q } p')
    (htold : Usart.told p' t' = !p'.noReason)
    (hhigh : p.rxBufferHighWaterMark ≤ t'.fifo.length → p'.rxXoffState .flagFull = true)
    (hlow : t'.fifo.length ≤ p.rxBufferLowWaterMark → p'.rxXoffState .flagFull = false) :
    Flow size swOut p' t' := by
  refine ⟨by rw [hsame.rxQueue]; exact hholds, by rw [hsame.rxQueue]; exact hsize, htold, ?_, ?_, ?_,
    ?_, ?_, ?_, ?_, ?_⟩
  · rw [hsame.high]
    exact hhigh
  · rw [hsame.low]
    exact hlow
  · rw [hsame.low, hsame.high]
    exact h.marks
  · rw [hsame.high]
    exact h.high_le
  · rw [hsame.rxSwFlowCtrl]
    exact h.rxSwFlowCtrl
  · rw [hsame.txSwFlowCtrl]
    exact h.txSwFlowCtrl
  · rw [hsame.powersave]
    exact h.powersave
  · rw [hsame.initialized]
    exact h.initialized

theorem Flow.of_same {p' : Port} {t' : Line} (h : Flow size swOut p t) (hfifo : t'.fifo = t.fifo)
    (hsame : SameQueue p p') (hfull : p'.rxXoffState .flagFull = p.rxXoffState .flagFull)
    (htold : Usart.told p' t' = !p'.noReason) : Flow size swOut p' t' := by
  refine h.of_queue (by rw [hfifo]; exact h.holds) h.queueSize hsame htold ?_ ?_
  · rw [hfifo, hfull]
    exact h.high
  · rw [hfifo, hfull]
    exact h.low

theorem prepareForClockStop_spec (h : Flow size swOut p t)
    (hproper : Proper p .prepareForClockStop) : Flow size swOut p.prepareForClockStop t := by
  rw [Port.prepareForClockStop, if_pos h.rxSwFlowCtrl]
  exact h.of_same rfl (sendXOFF_same p _) (sendXOFF_reason _ _ h.powersave)
    (told_sendXOFF h.told _ h.powersave hproper)

theorem clockStopFinished_spec (h : Flow size swOut p t) :
    Flow size swOut p.clockStopFinished t := by
  rw [Port.clockStopFinished, if_pos h.rxSwFlowCtrl]
  exact h.of_same rfl (sendXON_same p _) (sendXON_reason _ _ h.powersave)
    (told_sendXON h.told _ h.powersave)

theorem addChar_spec (h : Flow size swOut p t) {c : UInt8} (hproper : Proper p (.addChar c)) :
    ∃ t', Carries size swOut t (.addChar c) t' (.added (p.addCharToRxBuffer c).2) ∧
      Flow size swOut (p.addCharToRxBuffer c).1 t' := by
  have hsame : ∀ xon, SameQueue p { p with txXonState := xon } := fun _ =>
    ⟨rfl, rfl, rfl, rfl, rfl, rfl, rfl⟩
  rw [Port.addCharToRxBuffer]
  by_cases hoff : p.txSwFlowCtrl = true ∧ c = XOFF
  · rw [if_pos hoff]
    exact ⟨t, Or.inl ⟨⟨h.txSwFlowCtrl ▸ hoff.1, Or.inl hoff.2⟩, rfl, rfl⟩,
      h.of_same rfl (hsame _) rfl h.told⟩
  rw [if_neg hoff]
  by_cases hon : p.txSwFlowCtrl = true ∧ c = XON
  · rw [if_pos hon]
    exact ⟨t, Or.inl ⟨⟨h.txSwFlowCtrl ▸ hon.1, Or.inr hon.2⟩, rfl, rfl⟩,
      h.of_same rfl (hsame _) rfl h.told⟩
  rw [if_neg hon]
  have hflow : ¬ isFlow swOut c := by
    rintro ⟨hout, hc | hc⟩
    · exact hoff ⟨h.txSwFlowCtrl.trans hout, hc⟩
    · exact hon ⟨h.txSwFlowCtrl.trans hout, hc⟩
  rcases Nat.lt_or_eq_of_le h.holds.length_le with hroom | hfull
  · obtain ⟨q, hpush, hholds, hsize⟩ := h.holds.push hroom c
    have hsize' : q.size = size := hsize.trans h.queueSize
    have hlength : (t.fifo ++ [c]).length = t.fifo.length + 1 := by simp
    have hnum : q.numberOfElements = t.fifo.length + 1 := hholds.numberOfElements.trans hlength
    rw [hpush]
    dsimp only
    by_cases hhigh : q.numberOfElements ≥ p.rxBufferHighWaterMark ∧ p.rxSwFlowCtrl = true
    · rw [if_pos hhigh]
      have hpending : p.noReason = true → p.txBufferXON = false := by
        intro hnone
        rw [← Bool.not_eq_true]
        intro hxon
        rcases hproper hnone hxon with hc | hlt | hq
        · exact hflow (h.txSwFlowCtrl ▸ hc)
        · rw [h.holds.numberOfElements] at hlt
          omega
        · exact absurd (h.holds.full.mp hq) (Nat.ne_of_lt hroom)
      refine ⟨{ t with fifo := t.fifo ++ [c] }, Or.inr (Or.inl ⟨hflow, rfl, rfl⟩), ?_⟩
      have htold : Usart.told { p with rxQueue := q } { t with fifo := t.fifo ++ [c] } =
          !Port.noReason { p with rxQueue := q } := h.told
      have hpower : Port.powersave { p with rxQueue := q } = false := h.powersave
      refine h.of_queue hholds hsize' (sendXOFF_same _ _)
        (told_sendXOFF htold .flagFull hpower hpending) (fun _ => ?_) fun hle => ?_
      · exact (sendXOFF_reason .flagFull .flagFull hpower).trans (if_pos rfl)
      · have hmarks := h.marks
        have hle' : (t.fifo ++ [c]).length ≤ p.rxBufferLowWaterMark := hle
        omega
    · rw [if_neg hhigh]
      have hlt : t.fifo.length + 1 < p.rxBufferHighWaterMark := by
        rw [hnum] at hhigh
        exact Nat.lt_of_not_le fun hle => hhigh ⟨hle, h.rxSwFlowCtrl⟩
      refine ⟨{ t with fifo := t.fifo ++ [c] }, Or.inr (Or.inl ⟨hflow, rfl, rfl⟩), ?_⟩
      refine h.of_queue hholds hsize' ⟨rfl, rfl, rfl, rfl, rfl, rfl, rfl⟩ h.told (fun hle => ?_)
        fun hle => h.low ?_
      · have hle' : p.rxBufferHighWaterMark ≤ (t.fifo ++ [c]).length := hle
        omega
      · have hle' : (t.fifo ++ [c]).length ≤ p.rxBufferLowWaterMark := hle
        omega
  · rw [h.holds.push_full hfull c]
    exact ⟨t, Or.inr (Or.inr ⟨hflow, rfl, rfl, hfull.trans h.queueSize⟩), h⟩

theorem readPiece_spec (h : Flow size swOut p t) (toRead : Nat) :
    ∃ t', Carries size swOut t (.readPiece toRead) t' (.read (p.readPiece toRead).2) ∧
      Flow size swOut (p.readPiece toRead).1 t' := by
  obtain ⟨q, hpop, hholds, hsize, -⟩ := h.holds.popPiece toRead
  have hsize' : q.size = size := hsize.trans h.queueSize
  have hlt := h.holds.reader_lt
  have hk : Queue.Holds.piece p.rxQueue t.fifo toRead ≤ min toRead t.fifo.length :=
    Nat.min_le_left _ _
  have hpos : 0 < toRead → t.fifo ≠ [] → 0 < Queue.Holds.piece p.rxQueue t.fifo toRead := by
    intro hread hne
    have hlength := List.length_pos_iff.mpr hne
    rw [Queue.Holds.piece]
    omega
  generalize Queue.Holds.piece p.rxQueue t.fifo toRead = k at hpop hholds hk hpos
  have hcarries : Carries size swOut t (.readPiece toRead) { t with fifo := t.fifo.drop k }
      (.read (t.fifo.take k)) := ⟨k, by omega, hpos, rfl, rfl⟩
  have hlength : (t.fifo.drop k).length = t.fifo.length - k := List.length_drop
  have htake : (t.fifo.take k).length = k := by rw [List.length_take]; omega
  have hunlocked : ¬ (p.powersave = true ∨ ¬ p.initialized = true) := by
    rw [h.powersave, h.initialized]
    decide
  rw [Port.readPiece, if_neg hunlocked, hpop]
  dsimp only
  by_cases hnil : t.fifo.take k = []
  · rw [if_pos hnil]
    rw [hnil] at hcarries
    refine ⟨_, hcarries, h.of_queue hholds hsize' ⟨rfl, rfl, rfl, rfl, rfl, rfl, rfl⟩ h.told ?_ ?_⟩
    · intro hle
      have hle' : p.rxBufferHighWaterMark ≤ (t.fifo.drop k).length := hle
      exact h.high (by omega)
    · intro hle
      have hle' : (t.fifo.drop k).length ≤ p.rxBufferLowWaterMark := hle
      rw [hnil, List.length_nil] at htake
      exact h.low (by omega)
  rw [if_neg hnil]
  have hnum : q.numberOfElements = t.fifo.length - k := hholds.numberOfElements.trans hlength
  by_cases hlow : q.numberOfElements ≤ p.rxBufferLowWaterMark ∧
      q.numberOfElements + (t.fifo.take k).length > p.rxBufferLowWaterMark ∧ p.rxSwFlowCtrl = true
  · rw [if_pos hlow]
    have htold : Usart.told { p with rxQueue := q } { t with fifo := t.fifo.drop k } =
        !Port.noReason { p with rxQueue := q } := h.told
    have hpower : Port.powersave { p with rxQueue := q } = false := h.powersave
    refine ⟨_, hcarries, h.of_queue hholds hsize' (sendXON_same _ _)
      (told_sendXON htold .flagFull hpower) (fun hle => ?_) fun _ => ?_⟩
    · have hmarks := h.marks
      have hle' : p.rxBufferHighWaterMark ≤ (t.fifo.drop k).length := hle
      omega
    · exact (sendXON_reason .flagFull .flagFull hpower).trans (if_pos rfl)
  · rw [if_neg hlow]
    refine ⟨_, hcarries, h.of_queue hholds hsize' ⟨rfl, rfl, rfl, rfl, rfl, rfl, rfl⟩ h.told ?_ ?_⟩
    · intro hle
      have hle' : p.rxBufferHighWaterMark ≤ (t.fifo.drop k).length := hle
      exact h.high (by omega)
    · intro hle
      have hle' : (t.fifo.drop k).length ≤ p.rxBufferLowWaterMark := hle
      exact h.low (Nat.le_of_not_lt fun hgt => hlow ⟨by omega, by omega, h.rxSwFlowCtrl⟩)

theorem writePiece_spec (h : Flow size swOut p t) (src : List UInt8) :
    Carries size swOut t (.writePiece src) t (.written (p.writePiece src).2) ∧
      Flow size swOut (p.writePiece src).1 t := by
  have hunlocked : ¬ (p.powersave = true ∨ ¬ p.initialized = true) := by
    rw [h.powersave, h.initialized]
    decide
  rw [Port.writePiece, if_neg hunlocked]
  refine ⟨⟨_, ?_, rfl, rfl⟩, h.of_same rfl ⟨rfl, rfl, rfl, rfl, rfl, rfl, rfl⟩ rfl h.told⟩
  rw [Queue.pushPiece]
  split
  · exact Nat.zero_le _
  · dsimp only
    generalize (if p.txQueue.writer < p.txQueue.reader then p.txQueue.reader - p.txQueue.writer
      else p.txQueue.size - p.txQueue.writer) = max
    split <;> omega

theorem discardBuffer_spec (h : Flow size swOut p t) (fRx : Bool) :
    Flow size swOut (p.discardBuffer fRx) (if fRx then { t with fifo := [] } else t) := by
  rw [Port.discardBuffer]
  cases fRx with
  | false => exact h.of_same rfl ⟨rfl, rfl, rfl, rfl, rfl, rfl, rfl⟩ rfl h.told
  | true =>
    obtain ⟨hholds, hsize⟩ := h.holds.discardQueue
    simp only [if_true]
    rw [if_pos h.rxSwFlowCtrl]
    have htold : Usart.told { p with rxQueue := Port.discardQueue p.rxQueue } { t with fifo := [] } =
        !Port.noReason { p with rxQueue := Port.discardQueue p.rxQueue } := h.told
    have hpower : Port.powersave { p with rxQueue := Port.discardQueue p.rxQueue } = false :=
      h.powersave
    refine h.of_queue hholds (hsize.trans h.queueSize) (sendXON_same _ _)
      (told_sendXON htold .flagFull hpower) (fun hle => ?_) fun _ => ?_
    · have hmarks := h.marks
      rw [List.length_nil] at hle
      omega
    · exact (sendXON_reason .flagFull .flagFull hpower).trans (if_pos rfl)

theorem removeChar_spec (h : Flow size swOut p t) :
    Flow size swOut p.removeCharFromTxBuffer.1 (t.sent p.removeCharFromTxBuffer.2) := by
  have htold := h.told
  rw [Usart.told] at htold
  rw [Port.removeCharFromTxBuffer]
  by_cases hoff : p.txBufferXOFF = true
  · rw [if_pos hoff]
    refine h.of_same rfl ⟨rfl, rfl, rfl, rfl, rfl, rfl, rfl⟩ rfl ?_
    rw [hoff, Bool.true_or] at htold
    exact htold
  rw [if_neg hoff]
  by_cases hon : p.txBufferXON = true
  · rw [if_pos hon]
    refine h.of_same rfl ⟨rfl, rfl, rfl, rfl, rfl, rfl, rfl⟩ rfl ?_
    rw [hon, Bool.not_true, Bool.false_and] at htold
    have hnever : told { p with txBufferXON := false } (t.sent (some (.flow XON))) = false := by
      simp only [told, Line.sent, hoff]
      decide
    exact hnever.trans htold
  rw [if_neg hon]
  rcases p.txQueue.pop with _ | ⟨c, q⟩
  · exact h
  · exact h.of_same rfl ⟨rfl, rfl, rfl, rfl, rfl, rfl, rfl⟩ rfl h.told

/-- **One event** -/
theorem step_spec (h : Flow size swOut p t) {event : Event} (hproper : Proper p event) :
    ∃ p' r t', step p event = some (p', r) ∧ Carries size swOut t event t' r ∧
      Flow size swOut p' t' := by
  cases event with
  | addChar c =>
    obtain ⟨t', hcarries, hflow⟩ := addChar_spec h hproper
    exact ⟨_, _, t', rfl, hcarries, hflow⟩
  | readPiece toRead =>
    obtain ⟨t', hcarries, hflow⟩ := readPiece_spec h toRead
    exact ⟨_, _, t', rfl, hcarries, hflow⟩
  | writePiece src =>
    obtain ⟨hcarries, hflow⟩ := writePiece_spec h src
    exact ⟨_, _, t, rfl, hcarries, hflow⟩
  | discardBuffer fRx => exact ⟨_, _, _, rfl, ⟨rfl, rfl⟩, discardBuffer_spec h fRx⟩
  | prepareForClockStop => exact ⟨_, _, t, rfl, ⟨rfl, rfl⟩, prepareForClockStop_spec h hproper⟩
  | clockStopFinished => exact ⟨_, _, t, rfl, ⟨rfl, rfl⟩, clockStopFinished_spec h⟩
  | removeChar => exact ⟨_, _, _, rfl, ⟨_, rfl, rfl⟩, removeChar_spec h⟩

end Steps

/-! ### Runs -/

theorem opened_flow {txBuffer rxBuffer : List UInt8} (hsize : 2 ≤ rxBuffer.length) (swOut : Bool) :
    Flow rxBuffer.length swOut (opened txBuffer rxBuffer true swOut) ⟨[], false⟩ := by
  refine ⟨Queue.Holds.ofData (by omega), rfl, rfl, fun hle => ?_, fun _ => rfl, ?_, ?_, rfl, rfl, rfl,
    rfl⟩
  · have hhigh : rxBuffer.length * 3 / 4 ≤ 0 := hle
    omega
  · have hmarks : rxBuffer.length * 1 / 4 < rxBuffer.length * 3 / 4 := by omega
    exact hmarks
  · have hhigh : rxBuffer.length * 3 / 4 ≤ rxBuffer.length := by omega
    exact hhigh

/-- **As long as no reason for XOFF comes up while an XON is pending, the sender is told the truth,
    and what is read is what has been received.** -/
theorem flow_truthful (txBuffer rxBuffer : List UInt8) (hsize : 2 ≤ rxBuffer.length) (swOut : Bool)
    (events : List Event)
    (hevents : Meets step Proper (opened txBuffer rxBuffer true swOut) events) :
    ∃ p rs t, run step (opened txBuffer rxBuffer true swOut) events = some (p, rs) ∧
      SpecRuns (Carries rxBuffer.length swOut) ⟨[], false⟩ events t rs ∧ Truthful p t := by
  have hstep : ∀ (p : Port) (t : Line) (event : Event), Flow rxBuffer.length swOut p t →
      Proper p event → ∃ p' r t', step p event = some (p', r) ∧
        Carries rxBuffer.length swOut t event t' r ∧ Flow rxBuffer.length swOut p' t' :=
    fun p t event h hproper => step_spec h hproper
  obtain ⟨p, rs, t, hrun, hspec, hflow⟩ := run_refines step (Carries rxBuffer.length swOut) hstep
    events _ _ (opened_flow hsize swOut) hevents
  exact ⟨p, rs, t, hrun, hspec, hflow.truthful⟩

/-- A character comes, the clock stops, the sender is told, the clock runs again, and it is read. -/
theorem flow_truthful_halted : ∃ p rs t,
    run step (opened (List.replicate 8 0) (List.replicate 8 0) true false)
      [.addChar 65, .prepareForClockStop, .removeChar, .clockStopFinished, .removeChar,
        .readPiece 10] = some (p, rs) ∧
      SpecRuns (Carries 8 false) ⟨[], false⟩
        [.addChar 65, .prepareForClockStop, .removeChar, .clockStopFinished, .removeChar,
          .readPiece 10] t rs ∧ Truthful p t := by
  refine flow_truthful (List.replicate 8 0) (List.replicate 8 0) (by decide) false _ ?_
  refine meets_cons step (fun _ hon => absurd hon Bool.false_ne_true) rfl ?_
  refine meets_cons step (fun _ => rfl) rfl ?_
  refine meets_cons step trivial rfl ?_
  refine meets_cons step trivial rfl ?_
  refine meets_cons step trivial rfl ?_
  exact meets_cons step trivial rfl trivial

/-- The clock stops again before the XON of the first stop has gone out: XOFF goes out in front of
    it, and XON is the last that the sender is told. -/
theorem told_xon_halted : ∃ p,
    run step (opened (List.replicate 8 0) (List.replicate 8 0) true false)
      [.prepareForClockStop, .removeChar, .clockStopFinished, .prepareForClockStop, .removeChar,
        .removeChar] =
      some (p, [.done, .sent (some (.flow XOFF)), .done, .done, .sent (some (.flow XOFF)),
        .sent (some (.flow XON))]) ∧
      p.txBufferXOFF = false ∧ p.txBufferXON = false ∧ p.rxXoffState .clockHalt = true :=
  ⟨_, rfl, rfl, rfl, rfl⟩

end TinyClr.Usart
