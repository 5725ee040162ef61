import TinyClr.Support.CompressionItems
import Mathlib.Logic.Relation

/-!
# The search of the compressor

The window is at every moment the last 4096 bytes up to the last character read, also while the
compressor reads ahead of the item at `P`: what it overwrites it saves, and puts back when it
unreads.  A candidate lies a distance `d` before `P`.  It is good as long as it is not among the
characters read ahead, which the decoder does not have yet.
-/

namespace TinyClr.Compression

open TinyClr.Library

variable {infile : List UInt8} {P d q : Nat}

/-! ### Indices -/

theorem WINSIZE_pos : 0 < WINSIZE := Nat.succ_pos _

theorem ADD_INDEX_mod (q : Nat) : ADD_INDEX (q % WINSIZE) = (q + 1) % WINSIZE := by
  unfold ADD_INDEX WINSIZE
  split_ifs with h <;> omega

theorem DROP_INDEX_mod (q : Nat) : DROP_INDEX ((q + 1) % WINSIZE) = q % WINSIZE := by
  unfold DROP_INDEX WINSIZE
  split_ifs with h <;> omega

theorem DROP_INDEX_sub {k : Nat} (hk : k < q) :
    DROP_INDEX ((q - k) % WINSIZE) = (q - (k + 1)) % WINSIZE := by
  rw [show q - k = q - (k + 1) + 1 by omega, DROP_INDEX_mod]

theorem sub_mod_WINSIZE (hq : WINSIZE ≤ q) : (q - WINSIZE) % WINSIZE = q % WINSIZE :=
  (Nat.mod_eq_sub_mod hq).symm

/-! ### Reading and unreading -/

/-- The characters up to `q` have been read, and the window is the one before `q`. -/
structure Reader.Synced (infile : List UInt8) (q : Nat) (r : Reader) : Prop where
  pos : r.infilePos + WINSIZE = q + 1
  le : r.infilePos ≤ infile.length
  currPos : r.currPos = q % WINSIZE
  window : Window WINSIZE (history infile) r.window q

namespace Reader.Synced

variable {r : Reader}

theorem getNextChar_some (h : r.Synced infile q) (hq : q + 1 < infile.length + WINSIZE) :
    ∃ r', r.getNextChar infile = (some (history infile (q + 1)), r') ∧
      r'.Synced infile (q + 1) := by
  have hpos := h.pos
  have hlt : r.infilePos < infile.length := by omega
  have hch : infile[r.infilePos] = history infile (q + 1) := by
    rw [← hpos, history_getElem hlt]
  rw [Reader.getNextChar, List.getElem?_eq_getElem hlt, hch]
  refine ⟨_, rfl, by simp only; omega, hlt, ?_, ?_⟩
  · simp only
    rw [h.currPos, ADD_INDEX_mod]
  · simp only
    rw [h.currPos, ADD_INDEX_mod]
    exact h.window.advance

theorem getNextChar_none (h : r.Synced infile q) (hq : q + 1 = infile.length + WINSIZE) :
    r.getNextChar infile = (none, r) := by
  have hpos := h.pos
  rw [Reader.getNextChar, List.getElem?_eq_none (by omega)]

theorem unreadChar (h : r.Synced infile (q + 1)) (hq : WINSIZE ≤ q + 1) :
    (r.unreadChar (history infile (q + 1 - WINSIZE))).Synced infile q := by
  have hpos := h.pos
  have hle := h.le
  refine ⟨?_, ?_, ?_, ?_⟩
  · simp only [Reader.unreadChar]
    omega
  · simp only [Reader.unreadChar]
    omega
  · simp only [Reader.unreadChar]
    rw [h.currPos, DROP_INDEX_mod]
  · simp only [Reader.unreadChar]
    rw [h.currPos]
    exact h.window.retreat hq

theorem next (h : r.Synced infile q) (hq : WINSIZE ≤ q + 1) :
    r.window (ADD_INDEX r.currPos) = history infile (q + 1 - WINSIZE) := by
  have hpos := WINSIZE_pos
  rw [h.currPos, ADD_INDEX_mod, ← sub_mod_WINSIZE hq]
  exact h.window _ (by omega) (by omega)

end Reader.Synced

/-! ### Candidates -/

/-- The next character in the window, if there is one -/
theorem findChar_spec {window : Nat → UInt8} {f : Nat → UInt8} (h : Window WINSIZE f window q)
    (hq : WINSIZE ≤ q) : ∀ (rounds count : Nat), 1 ≤ count → count ≤ WINSIZE →
    WINSIZE ≤ count + rounds →
    ∃ count', findChar window (q % WINSIZE) rounds count ((q - count) % WINSIZE) =
        (count', (q - count') % WINSIZE) ∧ count ≤ count' ∧ count' ≤ WINSIZE ∧
      (count' < WINSIZE → f (q - count') = f q) ∧
      ∀ j, count ≤ j → j < count' → f (q - j) ≠ f q := by
  intro rounds
  induction rounds with
  | zero =>
    intro count _ hmax hrounds
    exact ⟨count, rfl, Nat.le_refl _, hmax, fun hlt => by omega, fun j hj hlt => by omega⟩
  | succ rounds ih =>
    intro count hmin hmax hrounds
    rw [findChar]
    have hself : window (q % WINSIZE) = f q := h q (Nat.le_refl q) (Nat.lt_add_of_pos_right WINSIZE_pos)
    by_cases hcount : count < WINSIZE
    · have hread : window ((q - count) % WINSIZE) = f (q - count) :=
        h _ (Nat.sub_le _ _) (by omega)
      rw [hself, hread]
      by_cases heq : f (q - count) = f q
      · rw [if_neg fun hcond => hcond.1 heq]
        exact ⟨count, rfl, Nat.le_refl _, hmax, fun _ => heq, fun j hj hlt => by omega⟩
      · obtain ⟨count', hfind, hle, hmax', hsame, hdiffer⟩ := ih (count + 1) (by omega) hcount
          (by omega)
        rw [if_pos ⟨heq, hcount⟩, DROP_INDEX_sub (by omega), hfind]
        refine ⟨count', rfl, by omega, hmax', hsame, fun j hj hlt => ?_⟩
        rcases Nat.eq_or_lt_of_le hj with rfl | hj
        · exact heq
        · exact hdiffer j hj hlt
    · rw [if_neg fun hcond => hcount hcond.2]
      exact ⟨count, rfl, Nat.le_refl _, hmax, fun hlt => absurd hlt hcount,
        fun j hj hlt => by omega⟩

/-! ### Matches -/

def Same (infile : List UInt8) (P d n : Nat) : Prop :=
  ∀ k < n, history infile (P - d + k) = history infile (P + k)

theorem Same.succ {n : Nat} (h : Same infile P d n)
    (hlast : history infile (P - d + n) = history infile (P + n)) : Same infile P d (n + 1) := by
  intro k hk
  rcases Nat.lt_or_eq_of_le (Nat.le_of_lt_succ hk) with hlt | rfl
  · exact h k hlt
  · exact hlast

/-- What lay in the window where the characters after the one at `P` are -/
structure OldChars.Saved (infile : List UInt8) (P n : Nat) (old : OldChars) : Prop where
  c0 : old.c0 = history infile (P + 1 - WINSIZE)
  c1 : 2 ≤ n → old.c1 = history infile (P + 2 - WINSIZE)
  c2 : old.c2 = history infile (P + n - WINSIZE)

/-- The first candidate, at a distance `d`, while its match is extended -/
structure Match.First (infile : List UInt8) (P d q : Nat) (m : Match) : Prop where
  reader : m.reader.Synced infile q
  shifter : m.shifter = (P - d + m.count) % WINSIZE
  same : Same infile P d m.count
  min : 1 ≤ m.count
  max : m.count ≤ MAXLEN
  old : m.old.Saved infile P m.count

/-- The match of the first candidate ends with the input, at a character that differs, or at its
    greatest length. -/
theorem extendMatch_spec (hP : WINSIZE ≤ P) (hmin : 1 ≤ d) (hmax : d < WINSIZE) :
    ∀ (rounds : Nat) (m : Match), m.First infile P d (P + m.count - 1) →
    P + m.count ≤ infile.length + WINSIZE → MAXLEN < m.count + rounds →
    ∃ m', extendMatch infile rounds m = some m' ∧
      ((m'.ch = none ∧ P + m'.count = infile.length + WINSIZE ∧
        m'.First infile P d (P + m'.count - 1)) ∨
      (m'.ch = some (history infile (P + m'.count)) ∧
        P + m'.count < infile.length + WINSIZE ∧ m'.First infile P d (P + m'.count) ∧
        (m'.count = MAXLEN ∨
          m'.reader.window m'.shifter ≠ history infile (P + m'.count)))) := by
  intro rounds
  induction rounds with
  | zero => exact fun m h _ hrounds => absurd hrounds (Nat.not_lt.mpr h.max)
  | succ rounds ih =>
    intro m h hle hrounds
    have hcount := h.min
    have hq : P + m.count - 1 + 1 = P + m.count := by omega
    rw [extendMatch]
    rcases Nat.lt_or_eq_of_le hle with hlt | hend
    · obtain ⟨r, hread, hr⟩ := h.reader.getNextChar_some (by omega)
      rw [hq] at hread hr
      simp only [hread]
      by_cases hcond : r.window m.shifter = history infile (P + m.count) ∧ m.count < MAXLEN
      · rw [if_pos hcond]
        have hnext := hr.next (by omega)
        have hcand : r.window m.shifter = history infile (P - d + m.count) := by
          rw [h.shifter]
          exact hr.window _ (by omega) (by omega)
        refine ih _ ⟨?_, ?_, ?_, ?_, ?_, ?_, ?_, ?_⟩ hlt (by simp only; omega)
        · simpa only [← Nat.add_assoc, Nat.add_sub_cancel] using hr
        · simp only
          rw [h.shifter, ADD_INDEX_mod, Nat.add_assoc]
        · exact h.same.succ (hcand.symm.trans hcond.1)
        · exact Nat.succ_pos _
        · exact hcond.2
        · exact h.old.c0
        · intro htwo
          simp only
          by_cases heq : m.count + 1 = 2
          · rw [if_pos heq, hnext]
            congr 2
            omega
          · rw [if_neg heq]
            exact h.old.c1 (by simp only at htwo; omega)
        · exact hnext
      · rw [if_neg hcond]
        refine ⟨_, rfl, Or.inr ⟨rfl, hlt, ⟨hr, h.shifter, h.same, h.min, h.max, h.old⟩, ?_⟩⟩
        rcases Nat.lt_or_eq_of_le h.max with hlt' | heq
        · exact Or.inr fun heq => hcond ⟨heq, hlt'⟩
        · exact Or.inl heq
    · rw [h.reader.getNextChar_none (by omega)]
      exact ⟨_, rfl, Or.inl ⟨rfl, hend, h.reader, h.shifter, h.same, h.min, h.max, h.old⟩⟩

/-! ### The search loop -/

/-- A candidate at a distance `d` is next, the best match so far has been read to its end. -/
structure Search.Holds (infile : List UInt8) (P d : Nat) (s : Search) : Prop where
  reader : s.reader.Synced infile (P + s.bestcount - 1)
  shifter : s.shifter = (P - d) % WINSIZE
  le : d ≤ WINSIZE
  best : ∃ e, 1 ≤ e ∧ e < WINSIZE ∧ s.bestoffset = (P - e) % WINSIZE ∧
    Same infile P e s.bestcount
  bestcount_pos : 1 ≤ s.bestcount
  bestcount_le : s.bestcount ≤ MAXLEN
  ch : (s.ch = none ∧ P + s.bestcount = infile.length + WINSIZE) ∨
    (s.ch ≠ none ∧ P + s.bestcount < infile.length + WINSIZE)
  old : s.old.Saved infile P s.bestcount

/-- The characters read ahead go past the end of the window, and `shifter` is among those after
    it: `InBetween` does not notice. -/
def Search.Misses (savePos : Nat) (s : Search) : Prop :=
  s.bestcount < MAXLEN ∧ s.reader.currPos < savePos ∧ s.shifter < s.reader.currPos

/-- Where `InBetween` notices, a candidate that is tried is not among the characters read ahead. -/
theorem Search.Holds.apart {s : Search} (h : s.Holds infile P d) (hP : WINSIZE ≤ P)
    (hd : 1 ≤ d) (hon : s.goesOn (P % WINSIZE) = true) (hnot : ¬ s.Misses (P % WINSIZE)) :
    s.bestcount < MAXLEN ∧ d + s.bestcount ≤ WINSIZE := by
  simp only [Search.goesOn, inBetween, decide_eq_true_eq, Search.Misses, h.shifter,
    h.reader.currPos] at hon hnot
  obtain ⟨hne, hlt, hout⟩ := hon
  refine ⟨hlt, ?_⟩
  have hmin := h.bestcount_pos
  have hle := h.le
  have hmax : s.bestcount < 18 := hlt
  rw [not_and_or, not_le, not_le] at hout
  have hmiss : ¬ ((P + s.bestcount - 1) % WINSIZE < P % WINSIZE ∧
      (P - d) % WINSIZE < (P + s.bestcount - 1) % WINSIZE) := fun hm => hnot ⟨hlt, hm⟩
  unfold WINSIZE at *
  split_ifs at hout with hwrap <;> omega

theorem findCandidate_spec {window : Nat → UInt8} {f : Nat → UInt8} {n : Nat}
    (h : Window WINSIZE f window (P + n)) (hP : WINSIZE ≤ P) (hn : n < WINSIZE) :
    ∀ (rounds d : Nat), 1 ≤ d → d + n ≤ WINSIZE → WINSIZE < d + n + rounds →
    ∃ e, findCandidate window ((P + n) % WINSIZE) (P % WINSIZE) rounds ((P - d) % WINSIZE) =
        some ((P - e) % WINSIZE) ∧ d ≤ e ∧ e + n ≤ WINSIZE ∧
      (e + n < WINSIZE → f (P - e) = f P) := by
  intro rounds
  induction rounds with
  | zero => exact fun d _ hle hrounds => by omega
  | succ rounds ih =>
    intro d hd hle hrounds
    rw [findCandidate]
    have hself : window (P % WINSIZE) = f P := h P (Nat.le_add_right _ _) (by omega)
    rcases Nat.lt_or_eq_of_le hle with hlt | heq
    · have hread : window ((P - d) % WINSIZE) = f (P - d) := h _ (by omega) (by omega)
      rw [hself, hread]
      by_cases hsame : f (P - d) = f P
      · rw [if_neg fun hcond => hcond.2 hsame]
        exact ⟨d, rfl, Nat.le_refl _, hle, fun _ => hsame⟩
      · have hcell : (P - d) % WINSIZE ≠ (P + n) % WINSIZE := cell_ne (by omega) (by omega)
        obtain ⟨e, hfind, hde, hmax, he⟩ := ih (d + 1) (by omega) (by omega) (by omega)
        rw [if_pos ⟨hcell, hsame⟩, DROP_INDEX_sub (by omega), hfind]
        exact ⟨e, rfl, by omega, hmax, he⟩
    · have hcell : (P - d) % WINSIZE = (P + n) % WINSIZE := by
        rw [show P - d = P + n - WINSIZE by omega, sub_mod_WINSIZE (by omega)]
      rw [if_neg fun hcond => hcond.1 hcell]
      exact ⟨d, rfl, Nat.le_refl _, hle, fun hlt => by omega⟩

/-- A further candidate while it is compared; `B` is the length of the best match, up to which the
    characters have been read. -/
structure Match.Further (infile : List UInt8) (P d B q : Nat) (m : Match) : Prop where
  reader : m.reader.Synced infile q
  shifter : m.shifter = (P - d + m.count) % WINSIZE
  same : Same infile P d m.count
  count_le : m.count ≤ MAXLEN
  old : m.old.Saved infile P (max B m.count)

/-- Where a comparison stands: the input has been read to its end, or up to the end of the best
    match, or it has gone past that. -/
def Match.Comparing (infile : List UInt8) (P d B : Nat) (m : Match) : Prop :=
  (m.ch = none ∧ m.Further infile P d B (P + max B m.count - 1) ∧
    P + max B m.count = infile.length + WINSIZE) ∨
  (m.ch ≠ none ∧ m.Further infile P d B (if m.count < B then P + B - 1 else P + m.count) ∧
    P + max B m.count < infile.length + WINSIZE)

variable {B : Nat}

/-- A comparison reads on where it reaches the end of the best match. -/
theorem Match.Further.step {m : Match} (hP : WINSIZE ≤ P) (hB : 1 ≤ B)
    (hch : m.ch ≠ none)
    (h : m.Further infile P d B (if m.count < B then P + B - 1 else P + m.count))
    (hlt : P + max B m.count < infile.length + WINSIZE) (hmax : m.count < MAXLEN)
    (hlast : history infile (P - d + m.count) = history infile (P + m.count)) :
    Match.Comparing infile P d B
      { m.readOn infile B with
        shifter := ADD_INDEX (m.readOn infile B).shifter
        count := (m.readOn infile B).count + 1 } := by
  have hshifter : ADD_INDEX m.shifter = (P - d + (m.count + 1)) % WINSIZE := by
    rw [h.shifter, ADD_INDEX_mod, Nat.add_assoc]
  have hsame : Same infile P d (m.count + 1) := h.same.succ hlast
  rw [Match.readOn]
  by_cases hread : m.count ≥ B - 1
  · have hq : (if m.count < B then P + B - 1 else P + m.count) = P + m.count := by
      split_ifs <;> omega
    have hmax₁ : max B (m.count + 1) = m.count + 1 := max_eq_right (by omega)
    have hreader := h.reader
    rw [hq] at hreader
    have hnext := hreader.next (by omega)
    have hold : OldChars.Saved infile P (m.count + 1)
        { m.old with
          c1 := if m.count = 1 then m.reader.window (ADD_INDEX m.reader.currPos) else m.old.c1
          c2 := m.reader.window (ADD_INDEX m.reader.currPos) } := by
      refine ⟨h.old.c0, fun htwo => ?_, hnext⟩
      simp only
      by_cases hone : m.count = 1
      · rw [if_pos hone, hnext, hone]
      · rw [if_neg hone]
        exact h.old.c1 (Nat.le_trans (by omega) (Nat.le_max_right B m.count))
    rw [if_pos hread]
    rcases Nat.lt_or_eq_of_le (show P + m.count + 1 ≤ infile.length + WINSIZE by omega) with
      hlt₁ | hend
    · obtain ⟨r, hget, hr⟩ := hreader.getNextChar_some hlt₁
      rw [hget]
      refine Or.inr ⟨by simp, ⟨?_, hshifter, hsame, hmax, ?_⟩, ?_⟩
      · rw [if_neg (show ¬ m.count + 1 < B by omega)]
        exact hr
      · simp only
        rw [hmax₁]
        exact hold
      · simp only
        rw [hmax₁]
        exact hlt₁
    · rw [hreader.getNextChar_none hend]
      refine Or.inl ⟨rfl, ⟨?_, hshifter, hsame, hmax, ?_⟩, ?_⟩
      · simp only
        rw [hmax₁]
        exact hreader
      · simp only
        rw [hmax₁]
        exact hold
      · simp only
        rw [hmax₁]
        exact hend
  · have hlt₁ : m.count + 1 < B := by omega
    have hmax₀ : max B m.count = max B (m.count + 1) := by
      rw [max_eq_left (by omega), max_eq_left (by omega)]
    have hreader := h.reader
    rw [if_pos (show m.count < B by omega)] at hreader
    have hold := h.old
    rw [hmax₀] at hold hlt
    rw [if_neg hread]
    refine Or.inr ⟨hch, ⟨?_, hshifter, hsame, hmax, hold⟩, hlt⟩
    rw [if_pos hlt₁]
    exact hreader

/-- A comparison ends at a character that differs, at the greatest length, or with the input. -/
theorem compareMatch_spec (hP : WINSIZE ≤ P) (hd : 1 ≤ d) (hB : 1 ≤ B)
    (hapart : d + B ≤ WINSIZE) : ∀ (rounds : Nat) (m : Match), m.Comparing infile P d B →
    MAXLEN < m.count + rounds →
    ∃ m', compareMatch infile B rounds m ((P + m.count) % WINSIZE) =
        some (m', (P + m'.count) % WINSIZE) ∧ m'.Comparing infile P d B ∧
      (m'.ch ≠ none → m'.count = MAXLEN ∨
        m'.reader.window m'.shifter ≠ m'.reader.window ((P + m'.count) % WINSIZE)) := by
  intro rounds
  induction rounds with
  | zero =>
    rintro m (⟨-, h, -⟩ | ⟨-, h, -⟩) hrounds
    · exact absurd hrounds (Nat.not_lt.mpr h.count_le)
    · exact absurd hrounds (Nat.not_lt.mpr h.count_le)
  | succ rounds ih =>
    rintro m (⟨hch, h, hend⟩ | ⟨hch, h, hlt⟩) hrounds
    · rw [compareMatch, if_neg fun hcond => hcond.1 hch]
      exact ⟨m, rfl, Or.inl ⟨hch, h, hend⟩, fun hne => absurd hch hne⟩
    · rw [compareMatch]
      by_cases hcond : m.ch ≠ none ∧ m.reader.window m.shifter =
          m.reader.window ((P + m.count) % WINSIZE) ∧ m.count < MAXLEN
      · have hlast : history infile (P - d + m.count) = history infile (P + m.count) := by
          have hq := h.reader.window
          rw [← hq (P - d + m.count) (by split_ifs <;> omega) (by split_ifs <;> omega), ← h.shifter,
            ← hq (P + m.count) (by split_ifs <;> omega) (by split_ifs <;> omega)]
          exact hcond.2.1
        rw [if_pos hcond, ADD_INDEX_mod]
        have hcount : (m.readOn infile B).count = m.count := by
          rw [Match.readOn]
          split_ifs <;> rfl
        have hstep := h.step hP hB hch hlt hcond.2.2 hlast
        obtain ⟨m', hcompare, hm', hends⟩ := ih _ hstep (by simp only [hcount]; omega)
        simp only [hcount] at hcompare
        rw [Nat.add_assoc]
        simp only [hcount]
        exact ⟨m', hcompare, hm', hends⟩
      · rw [if_neg hcond]
        refine ⟨m, rfl, Or.inr ⟨hch, h, hlt⟩, fun _ => ?_⟩
        rcases Nat.lt_or_eq_of_le h.count_le with hlt' | heq
        · exact Or.inr fun heq => hcond ⟨hch, heq, hlt'⟩
        · exact Or.inl heq

theorem Match.Comparing.leave {m : Match} {newPos : Nat} (h : m.Comparing infile P d B)
    (hP : WINSIZE ≤ P) (hB : 1 ≤ B) (hmax : B < MAXLEN)
    (hends : m.ch ≠ none → m.count = MAXLEN ∨
      m.reader.window m.shifter ≠ m.reader.window newPos) :
    Reader.Synced infile (P + max B m.count - 1)
      (if m.ch ≠ none ∧ (m.count ≥ MAXLEN ∨
          (m.reader.window m.shifter ≠ m.reader.window newPos ∧ m.count ≥ B)) then
        m.reader.unreadChar m.old.c2
      else m.reader) := by
  rcases h with ⟨hch, h, -⟩ | ⟨hch, h, -⟩
  · rw [if_neg fun hcond => hcond.1 hch]
    exact h.reader
  · have hreader := h.reader
    rcases Nat.lt_or_ge m.count B with hlt | hge
    · rw [if_pos hlt] at hreader
      rw [if_neg (by omega), max_eq_left (Nat.le_of_lt hlt)]
      exact hreader
    · have hcond : m.count ≥ MAXLEN ∨
          (m.reader.window m.shifter ≠ m.reader.window newPos ∧ m.count ≥ B) :=
        (hends hch).imp (fun heq => Nat.le_of_eq heq.symm) fun hne => ⟨hne, hge⟩
      obtain ⟨q, hq⟩ : ∃ q, P + m.count = q + 1 := ⟨P + m.count - 1, by omega⟩
      have hold := h.old.c2
      rw [if_neg (Nat.not_lt.mpr hge), hq] at hreader
      rw [max_eq_right hge, hq] at hold
      rw [if_pos ⟨hch, hcond⟩, max_eq_right hge, hq, Nat.add_sub_cancel, hold]
      exact hreader.unreadChar (by omega)

/-- A round of the search, on a candidate apart from the characters read ahead, ends the search or
    leaves a candidate further away. -/
theorem Search.Holds.round {s : Search} (h : s.Holds infile P d) (hP : WINSIZE ≤ P) (hd : 1 ≤ d)
    (hB : s.bestcount < MAXLEN) (hapart : d + s.bestcount ≤ WINSIZE) :
    ∃ r, s.round infile (P % WINSIZE) = some r ∧
      ∀ s', r = some s' → ∃ e, d < e ∧ s'.Holds infile P e := by
  have hmin := h.bestcount_pos
  have hq : P + s.bestcount - 1 = P + (s.bestcount - 1) := by omega
  have hreader := h.reader
  rw [hq] at hreader
  obtain ⟨e, hfind, hde, hmax, hsame⟩ := findCandidate_spec hreader.window hP (by omega)
    (WINSIZE + 1) d hd (by omega) (by omega)
  rw [Search.round, h.shifter, hreader.currPos, hfind]
  simp only [Option.bind_eq_bind, Option.bind_some]
  by_cases hend : (P - e) % WINSIZE = (P + (s.bestcount - 1)) % WINSIZE
  · rw [if_pos hend]
    exact ⟨none, rfl, fun s' hs' => by cases hs'⟩
  · have heB : e + (s.bestcount - 1) < WINSIZE := by
      refine Nat.lt_of_le_of_ne hmax fun heq => hend ?_
      rw [show P - e = P + (s.bestcount - 1) - WINSIZE by omega, sub_mod_WINSIZE (by omega)]
    have hstart : Match.Comparing infile P e s.bestcount
        { reader := s.reader, ch := s.ch, old := s.old, shifter := (P - e) % WINSIZE,
          count := 0 } := by
      have hfurther : Match.Further infile P e s.bestcount (P + s.bestcount - 1)
          { reader := s.reader, ch := s.ch, old := s.old, shifter := (P - e) % WINSIZE,
            count := 0 } :=
        ⟨h.reader, rfl, fun k hk => absurd hk (Nat.not_lt_zero k), Nat.zero_le _, by
          simpa using h.old⟩
      have hzero : max s.bestcount 0 = s.bestcount := max_eq_left (Nat.zero_le _)
      rcases h.ch with ⟨hch, hstop⟩ | ⟨hch, hlt⟩
      · refine Or.inl ⟨hch, ?_, ?_⟩
        · simpa only [hzero] using hfurther
        · simpa only [hzero] using hstop
      · refine Or.inr ⟨hch, ?_, ?_⟩
        · have hpos : 0 < s.bestcount := hmin
          simpa only [hpos, if_true] using hfurther
        · simpa only [hzero] using hlt
    obtain ⟨m, hcompare, hm, hends⟩ := compareMatch_spec hP (by omega) hmin (by omega)
      (MAXLEN + 1) _ hstart (Nat.lt_add_left _ (Nat.lt_succ_self _))
    simp only [Nat.add_zero] at hcompare
    rw [if_neg hend, hcompare]
    refine ⟨_, rfl, fun s' hs' => ⟨e + 1, by omega, ?_⟩⟩
    obtain rfl := Option.some.inj hs'
    have hcount : (if m.count > s.bestcount then m.count else s.bestcount) =
        max s.bestcount m.count := by
      split_ifs with hgt
      · exact (max_eq_right (Nat.le_of_lt hgt)).symm
      · exact (max_eq_left (Nat.le_of_not_lt hgt)).symm
    have hle : m.count ≤ MAXLEN := hm.elim (fun hm => hm.2.1.count_le) fun hm => hm.2.1.count_le
    have hbest : Same infile P e m.count := hm.elim (fun hm => hm.2.1.same) fun hm => hm.2.1.same
    have hold : m.old.Saved infile P (max s.bestcount m.count) :=
      hm.elim (fun hm => hm.2.1.old) fun hm => hm.2.1.old
    obtain ⟨e₀, hpos₀, hlt₀, hoffset₀, hsame₀⟩ := h.best
    refine ⟨?_, ?_, by omega, ?_, ?_, ?_, ?_, ?_⟩
    · simp only [hcount]
      exact hm.leave hP hmin hB hends
    · exact DROP_INDEX_sub (by omega)
    · simp only
      by_cases hgt : m.count > s.bestcount
      · rw [if_pos hgt, if_pos hgt]
        exact ⟨e, by omega, by omega, rfl, hbest⟩
      · rw [if_neg hgt, if_neg hgt]
        exact ⟨e₀, hpos₀, hlt₀, hoffset₀, hsame₀⟩
    · simp only [hcount]
      omega
    · simp only [hcount]
      exact max_le h.bestcount_le hle
    · simp only [hcount]
      exact hm.imp (fun hm => ⟨hm.1, hm.2.2⟩) fun hm => ⟨hm.1, hm.2.2⟩
    · simp only [hcount]
      exact hold

end TinyClr.Compression
