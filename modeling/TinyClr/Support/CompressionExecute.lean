import TinyClr.Support.CompressionSearch

/-!
# Runs of the compressor

A round of the main loop puts an item into the output that stands for the next bytes, and leaves a
window that ends with them.  This holds as long as `InBetween` notices each candidate among the
characters read ahead, which it does not where they go past the end of the window.
-/

namespace TinyClr.Compression

open TinyClr.Library Relation

variable {infile : List UInt8} {P d : Nat}

/-! ### Searches -/

def SearchNext (infile : List UInt8) (savePos : Nat) (s s' : Search) : Prop :=
  s.goesOn savePos = true ∧ s.round infile savePos = some (some s')

/-- `InBetween` notices what it should throughout the search. -/
def Search.Clean (infile : List UInt8) (savePos : Nat) (s : Search) : Prop :=
  ∀ s', ReflTransGen (SearchNext infile savePos) s s' → ¬ s'.Misses savePos

variable {s : Search}

theorem Search.Clean.next {savePos : Nat} {s s' : Search} (h : s.Clean infile savePos)
    (hnext : SearchNext infile savePos s s') : s'.Clean infile savePos :=
  fun _ hreach => h _ (ReflTransGen.head hnext hreach)

theorem Search.Holds.loop (hP : WINSIZE ≤ P) : ∀ (n d : Nat) (s : Search), s.Holds infile P d →
    1 ≤ d → s.Clean infile (P % WINSIZE) → WINSIZE ≤ d + n →
    ∃ s' e, (∀ rounds > n, s.loop infile (P % WINSIZE) rounds = some s') ∧
      s'.Holds infile P e := by
  intro n
  induction n with
  | zero =>
    intro d s h hd hclean hn
    refine ⟨s, d, fun rounds hrounds => ?_, h⟩
    obtain ⟨rounds, rfl⟩ := Nat.exists_eq_succ_of_ne_zero (Nat.ne_of_gt hrounds)
    rw [Search.loop, if_neg fun hon => ?_]
    have hapart := h.apart hP hd hon (hclean s ReflTransGen.refl)
    have hmin := h.bestcount_pos
    omega
  | succ n ih =>
    intro d s h hd hclean hn
    by_cases hon : s.goesOn (P % WINSIZE) = true
    · obtain ⟨hB, hapart⟩ := h.apart hP hd hon (hclean s ReflTransGen.refl)
      obtain ⟨r, hround, hr⟩ := h.round hP hd hB hapart
      cases r with
      | none =>
        refine ⟨s, d, fun rounds hrounds => ?_, h⟩
        obtain ⟨rounds, rfl⟩ := Nat.exists_eq_succ_of_ne_zero (Nat.ne_zero_of_lt hrounds)
        rw [Search.loop, if_pos hon, hround]
        rfl
      | some s' =>
        obtain ⟨e, hde, h'⟩ := hr s' rfl
        obtain ⟨s'', e', hloop, h''⟩ := ih e s' h' (by omega) (hclean.next ⟨hon, hround⟩) (by omega)
        refine ⟨s'', e', fun rounds hrounds => ?_, h''⟩
        obtain ⟨rounds, rfl⟩ := Nat.exists_eq_succ_of_ne_zero (Nat.ne_zero_of_lt hrounds)
        rw [Search.loop, if_pos hon, hround]
        exact hloop rounds (by omega)
    · refine ⟨s, d, fun rounds hrounds => ?_, h⟩
      obtain ⟨rounds, rfl⟩ := Nat.exists_eq_succ_of_ne_zero (Nat.ne_zero_of_lt hrounds)
      rw [Search.loop, if_neg hon]

/-! ### Rounds of the main loop -/

/-- The characters before `P` have been dealt with, and the next one has been read. -/
structure Compressor.At (infile : List UInt8) (P : Nat) (c : Compressor) : Prop where
  le : WINSIZE ≤ P
  ch : (c.ch = none ∧ P = infile.length + WINSIZE) ∨
    (c.ch = some (history infile P) ∧ P < infile.length + WINSIZE ∧ c.reader.Synced infile P)

namespace Compressor

variable {c : Compressor}

theorem literal_spec (hP : WINSIZE ≤ P) (hlt : P < infile.length + WINSIZE)
    (hr : c.reader.Synced infile P) (ch : UInt8) :
    (c.literal infile ch).At infile (P + 1) ∧
      (c.literal infile ch).writer = c.writer.saveUncompByte ch := by
  rw [Compressor.literal]
  refine ⟨⟨by omega, ?_⟩, rfl⟩
  rcases Nat.lt_or_eq_of_le (Nat.succ_le_of_lt hlt) with hlt' | heq
  · obtain ⟨r, hread, hr'⟩ := hr.getNextChar_some hlt'
    rw [hread]
    exact Or.inr ⟨rfl, hlt', hr'⟩
  · rw [hr.getNextChar_none heq]
    exact Or.inl ⟨rfl, heq⟩

/-- The search starts with the longest match of the first candidate. -/
theorem beginSearch_spec (hP : WINSIZE ≤ P) (hlt : P < infile.length + WINSIZE)
    (hr : c.reader.Synced infile P) (hmin : 1 ≤ d) (hmax : d < WINSIZE)
    (hfirst : history infile (P - d) = history infile P) :
    ∃ s, c.beginSearch infile ((P - d) % WINSIZE) = some s ∧ s.Holds infile P (d + 1) ∧
      Same infile P d s.bestcount ∧
      (s.bestcount = MAXLEN ∨ P + s.bestcount = infile.length + WINSIZE ∨
        history infile (P - d + s.bestcount) ≠ history infile (P + s.bestcount)) := by
  have hnext := hr.next (by omega)
  have hstart : Match.First infile P d (P + 1 - 1)
      { reader := c.reader
        ch := c.ch
        old := { c0 := c.reader.window (ADD_INDEX c.reader.currPos), c1 := 0,
                 c2 := c.reader.window (ADD_INDEX c.reader.currPos) }
        shifter := ADD_INDEX ((P - d) % WINSIZE)
        count := 1 } := by
    refine ⟨hr, ADD_INDEX_mod _, fun k hk => ?_, Nat.le_refl 1, ?_, hnext, ?_, hnext⟩
    · obtain rfl : k = 0 := Nat.lt_one_iff.mp hk
      exact hfirst
    · exact (by decide : 1 ≤ MAXLEN)
    · exact fun htwo => absurd htwo (by decide : ¬ 2 ≤ 1)
  obtain ⟨m, hextend, hm⟩ := extendMatch_spec hP hmin hmax (MAXLEN + 1)
    { reader := c.reader
      ch := c.ch
      old := { c0 := c.reader.window (ADD_INDEX c.reader.currPos), c1 := 0,
               c2 := c.reader.window (ADD_INDEX c.reader.currPos) }
      shifter := ADD_INDEX ((P - d) % WINSIZE)
      count := 1 }
    hstart (Nat.succ_le_of_lt hlt) (by simp only; omega)
  rw [Compressor.beginSearch]
  simp only [hextend, Option.bind_eq_bind, Option.bind_some]
  refine ⟨_, rfl, ?_⟩
  rcases hm with ⟨hch, hend, hm⟩ | ⟨hch, hlt', hm, hlongest⟩
  · refine ⟨⟨?_, ?_, hmax, ⟨d, hmin, hmax, rfl, hm.same⟩, hm.min, hm.max, Or.inl ⟨hch, hend⟩,
      hm.old⟩, hm.same, Or.inr (Or.inl hend)⟩
    · simp only [hch]
      exact hm.reader
    · exact DROP_INDEX_sub (by omega)
  · obtain ⟨q, hq⟩ : ∃ q, P + m.count = q + 1 := ⟨P + m.count - 1, by have := hm.min; omega⟩
    have hcond : m.reader.window m.shifter ≠ history infile (P + m.count) ∨ m.count = MAXLEN :=
      hlongest.symm
    refine ⟨⟨?_, ?_, hmax, ⟨d, hmin, hmax, rfl, hm.same⟩, hm.min, hm.max,
      Or.inr ⟨by simp [hch], hlt'⟩, hm.old⟩, hm.same, hlongest.imp_right fun hne => Or.inr ?_⟩
    · have hreader := hm.reader
      have hold := hm.old.c2
      simp only [hch]
      rw [if_pos hcond, hold, hq, Nat.add_sub_cancel]
      rw [hq] at hreader
      exact hreader.unreadChar (by omega)
    · exact DROP_INDEX_sub (by omega)
    · rwa [hm.shifter, hm.reader.window _ (by omega) (by omega)] at hne

/-- Fewer than three bytes are not worth a code: the first one is a literal, the others are
    unread. -/
theorem endSearch_literal (h : s.Holds infile P d) (hP : WINSIZE ≤ P)
    (hleft : P + 3 ≤ infile.length + WINSIZE) (hfew : s.bestcount < 3) :
    (c.endSearch infile (P % WINSIZE) s).At infile (P + 1) ∧
      (c.endSearch infile (P % WINSIZE) s).writer =
        c.writer.saveUncompByte (history infile P) := by
  have hmin := h.bestcount_pos
  have hsize : 3 < WINSIZE := by decide
  have hold := h.old
  obtain ⟨hch, hlt⟩ : s.ch ≠ none ∧ P + s.bestcount < infile.length + WINSIZE :=
    h.ch.resolve_left fun hend => by omega
  obtain ⟨r, hread, hr⟩ := h.reader.getNextChar_some (by omega)
  rw [show P + s.bestcount - 1 + 1 = P + s.bestcount by omega] at hread hr
  have hbyte : r.window (P % WINSIZE) = history infile P := hr.window P (by omega) (by omega)
  have hback : Reader.Synced infile P
      (if s.bestcount = 2 then (r.unreadChar s.old.c1).unreadChar s.old.c0
        else r.unreadChar s.old.c0) := by
    by_cases htwo : s.bestcount = 2
    · rw [htwo] at hr
      have hone := hr.unreadChar (by omega)
      rw [if_pos htwo, hold.c1 (Nat.le_of_eq htwo.symm), hold.c0]
      exact hone.unreadChar (by omega)
    · rw [show s.bestcount = 1 by omega] at hr
      rw [if_neg htwo, hold.c0]
      exact hr.unreadChar (by omega)
  obtain ⟨r', hread', hr'⟩ := hback.getNextChar_some (by omega)
  have hnext : ADD_INDEX (P % WINSIZE) = (P + 1) % WINSIZE := ADD_INDEX_mod P
  have hnext₂ : ADD_INDEX ((P + 1) % WINSIZE) = (P + 2) % WINSIZE := ADD_INDEX_mod (P + 1)
  have hmax : s.bestcount ≤ MAXLEN := h.bestcount_le
  have hend : c.endSearch infile (P % WINSIZE) s =
      { reader := r', writer := c.writer.saveUncompByte (history infile P),
        ch := some (history infile (P + 1)) } := by
    rw [Compressor.endSearch]
    simp only [if_pos hch, hread, if_pos hfew]
    by_cases htwo : s.bestcount = 2
    · have hcell := hr.currPos
      have hdrop : DROP_INDEX ((P + 2) % WINSIZE) = (P + 1) % WINSIZE := DROP_INDEX_mod (P + 1)
      have hne : (P + 2) % WINSIZE ≠ (P + 1) % WINSIZE := (cell_ne (by omega) (by omega)).symm
      rw [if_pos htwo, Reader.unreadChar, Reader.unreadChar] at hread'
      rw [htwo] at hcell
      simp only [hcell, hdrop, Nat.sub_sub, Nat.reduceAdd,
        Function.update_comm hne] at hread'
      simp only [if_pos htwo]
      rw [if_pos ⟨by simp, hmax⟩, hbyte, hnext, hnext₂, htwo, hcell, hdrop, hread']
    · have hone : s.bestcount = 1 := by omega
      have hcell := hr.currPos
      rw [if_neg htwo, Reader.unreadChar] at hread'
      rw [hone] at hcell
      simp only [hcell] at hread'
      simp only [if_neg htwo]
      rw [if_pos ⟨by simp, hmax⟩, hbyte, hnext, hone, hcell, hread']
  rw [hend]
  exact ⟨⟨by omega, Or.inr ⟨rfl, by omega, hr'⟩⟩, rfl⟩

theorem endSearch_code (h : s.Holds infile P d) (hP : WINSIZE ≤ P)
    (hmany : 3 ≤ s.bestcount) :
    (c.endSearch infile (P % WINSIZE) s).At infile (P + s.bestcount) ∧
      (c.endSearch infile (P % WINSIZE) s).writer =
        c.writer.saveCode s.bestcount s.bestoffset := by
  have hold := h.old.c2
  have hmax : s.bestcount ≤ MAXLEN := h.bestcount_le
  rcases h.ch with ⟨hch, hstop⟩ | ⟨hch, hlt⟩
  · have hend : c.endSearch infile (P % WINSIZE) s =
        { reader := s.reader, writer := c.writer.saveCode s.bestcount s.bestoffset, ch := none } := by
      rw [Compressor.endSearch]
      simp [hch, Nat.not_lt.mpr hmany]
    rw [hend]
    exact ⟨⟨by omega, Or.inl ⟨rfl, hstop⟩⟩, rfl⟩
  · obtain ⟨q, hq⟩ : ∃ q, P + s.bestcount = q + 1 := ⟨P + s.bestcount - 1, by omega⟩
    have hreader := h.reader
    rw [hq, Nat.add_sub_cancel] at hreader
    obtain ⟨r, hread, hr⟩ := hreader.getNextChar_some (by omega)
    have hback := hr.unreadChar (by omega)
    rw [← hq, ← hold] at hback
    obtain ⟨r', hread', hr'⟩ := hback.getNextChar_some (by omega)
    have hend : c.endSearch infile (P % WINSIZE) s =
        { reader := r', writer := c.writer.saveCode s.bestcount s.bestoffset,
          ch := some (history infile (q + 1)) } := by
      rw [Compressor.endSearch]
      simp only [if_pos hch, hread, if_neg (Nat.not_lt.mpr hmany)]
      simp only [ne_eq, reduceCtorEq, not_false_eq_true, true_and, if_true, if_pos hmax, hread']
    rw [hend]
    exact ⟨⟨by omega, Or.inr ⟨by rw [hq], hlt, by rw [hq]; exact hr'⟩⟩, rfl⟩

/-- The search of a round, where it has one -/
def Searches (infile : List UInt8) (c : Compressor) (s : Search) : Prop :=
  c.ch ≠ none ∧ ¬ infile.length - c.reader.infilePos < 2 ∧
    ∃ count shifter, findChar c.reader.window c.reader.currPos WINSIZE 1
        (DROP_INDEX c.reader.currPos) = (count, shifter) ∧
      count ≠ WINSIZE ∧ c.beginSearch infile shifter = some s

/-- The round at `P` searches, from the nearest place where the character at `P` is in the
    window, a distance `d` before. -/
structure Begins (infile : List UInt8) (P d : Nat) (c : Compressor) (s : Search) : Prop where
  left : P + 3 ≤ infile.length + WINSIZE
  pos : 1 ≤ d
  lt : d < WINSIZE
  first : history infile (P - d) = history infile P
  nearest : ∀ j, 1 ≤ j → j < d → history infile (P - j) ≠ history infile P
  holds : s.Holds infile P (d + 1)
  same : Same infile P d s.bestcount
  longest : s.bestcount = MAXLEN ∨ P + s.bestcount = infile.length + WINSIZE ∨
    history infile (P - d + s.bestcount) ≠ history infile (P + s.bestcount)
  searches : c.Searches infile s
  round : ∀ rounds, c.round infile rounds (history infile P) =
    (s.loop infile (P % WINSIZE) rounds).map (c.endSearch infile (P % WINSIZE))

/-- A round puts out a literal near the end of the input or where the character is not in the
    window, and searches otherwise. -/
theorem round_cases (h : c.At infile P) (hch : c.ch = some (history infile P)) :
    ((∀ rounds, c.round infile rounds (history infile P) =
        some (c.literal infile (history infile P))) ∧
      (infile.length + WINSIZE < P + 3 ∨
        ∀ j, 1 ≤ j → j < WINSIZE → history infile (P - j) ≠ history infile P)) ∨
    ∃ d s, c.Begins infile P d s := by
  have hP := h.le
  obtain ⟨-, hlt, hr⟩ := h.ch.resolve_left fun hend => by simp [hend.1] at hch
  have hpos := hr.pos
  have hcell := hr.currPos
  by_cases hleft : infile.length - c.reader.infilePos < 2
  · refine Or.inl ⟨fun rounds => ?_, Or.inl (by omega)⟩
    rw [Compressor.round, if_pos hleft]
  · obtain ⟨count, hfind, hmin, hmax, hsame, hdiffer⟩ := findChar_spec hr.window hP WINSIZE 1
      (Nat.le_refl 1) WINSIZE_pos (Nat.le_add_left _ _)
    rw [← hcell, ← DROP_INDEX_sub (Nat.lt_of_lt_of_le WINSIZE_pos hP), Nat.sub_zero, ← hcell]
      at hfind
    by_cases hunique : count = WINSIZE
    · refine Or.inl ⟨fun rounds => ?_, Or.inr (hunique ▸ hdiffer)⟩
      simp only [Compressor.round, if_neg hleft, hfind, if_pos hunique]
    · have hcount : count < WINSIZE := Nat.lt_of_le_of_ne hmax hunique
      obtain ⟨s, hbegin, hs, hbest, hlongest⟩ := beginSearch_spec hP hlt hr hmin hcount
        (hsame hcount)
      have hsearches : c.Searches infile s :=
        ⟨by simp [hch], hleft, count, _, hfind, hunique, hbegin⟩
      refine Or.inr ⟨count, s, by omega, hmin, hcount, hsame hcount, hdiffer, hs, hbest, hlongest,
        hsearches, fun rounds => ?_⟩
      simp only [Compressor.round, if_neg hleft, hfind, if_neg hunique, hbegin,
        Option.bind_eq_bind, Option.bind_some]
      rw [hcell]
      cases s.loop infile (P % WINSIZE) rounds <;> rfl

/-- A round puts an item into the output that stands for the next bytes. -/
theorem round_spec {ch : UInt8} (h : c.At infile P) (hch : c.ch = some ch)
    (hclean : ∀ s, c.Searches infile s → s.Clean infile c.reader.currPos)
    (hw : c.writer.Covering (history infile) P) :
    ∃ c' P', (∀ rounds ≥ WINSIZE, c.round infile rounds ch = some c') ∧ P < P' ∧
      c'.At infile P' ∧ c'.writer.Covering (history infile) P' := by
  have hP := h.le
  obtain ⟨hch', hlt, hr⟩ := h.ch.resolve_left fun hend => by simp [hend.1] at hch
  obtain rfl : ch = history infile P := Option.some.inj (hch.symm.trans hch')
  rcases round_cases h hch with ⟨hliteral, -⟩ | ⟨d, s, hs⟩
  · obtain ⟨hat, hwriter⟩ := literal_spec hP hlt hr (history infile P)
    exact ⟨_, P + 1, fun rounds _ => hliteral rounds, Nat.lt_succ_self P, hat,
      hwriter ▸ hw.literal⟩
  · have hsclean := hclean s hs.searches
    rw [hr.currPos] at hsclean
    obtain ⟨s', e, hloop, hs'⟩ := hs.holds.loop hP (WINSIZE - 1) (d + 1) s (Nat.succ_pos _)
      hsclean (by omega)
    have hround : ∀ rounds ≥ WINSIZE, c.round infile rounds (history infile P) =
        some (c.endSearch infile (P % WINSIZE) s') := by
      intro rounds hrounds
      have hsize := WINSIZE_pos
      rw [hs.round, hloop rounds (by omega), Option.map_some]
    by_cases hfew : s'.bestcount < 3
    · obtain ⟨hat, hwriter⟩ := endSearch_literal (c := c) hs' hP hs.left hfew
      exact ⟨_, P + 1, hround, Nat.lt_succ_self P, hat, hwriter ▸ hw.literal⟩
    · obtain ⟨hat, hwriter⟩ := endSearch_code (c := c) hs' hP (Nat.le_of_not_lt hfew)
      obtain ⟨e', hpos', hlt', hoffset, hsame'⟩ := hs'.best
      have hcode : ValidCode (history infile) P s'.bestcount s'.bestoffset :=
        ⟨Nat.le_of_not_lt hfew, hs'.bestcount_le, e', hpos', Nat.le_of_lt hlt', hoffset, hsame'⟩
      exact ⟨_, P + s'.bestcount, hround, by omega, hat, hwriter ▸ hw.code hcode⟩

/-- A round of the main loop, given enough rounds for its search -/
def Next (infile : List UInt8) (c c' : Compressor) : Prop :=
  ∃ ch n, c.ch = some ch ∧ ∀ rounds ≥ n, c.round infile rounds ch = some c'

def Ends (infile : List UInt8) (c last : Compressor) : Prop :=
  ∃ n, ∀ searchRounds ≥ n, ∀ rounds ≥ n, c.loop infile searchRounds rounds = some last

theorem ends_of_none (hch : c.ch = none) : c.Ends infile c := by
  refine ⟨1, fun searchRounds _ rounds hrounds => ?_⟩
  obtain ⟨rounds, rfl⟩ := Nat.exists_eq_succ_of_ne_zero (Nat.ne_zero_of_lt hrounds)
  rw [Compressor.loop, hch]

theorem ends_of_round {c' last : Compressor} {ch : UInt8} (hch : c.ch = some ch)
    (hround : ∀ rounds ≥ WINSIZE, c.round infile rounds ch = some c')
    (h : c'.Ends infile last) : c.Ends infile last := by
  obtain ⟨n, hloop⟩ := h
  refine ⟨n + WINSIZE, fun searchRounds hsearch rounds hrounds => ?_⟩
  have hsize := WINSIZE_pos
  obtain ⟨rounds, rfl⟩ := Nat.exists_eq_succ_of_ne_zero (show rounds ≠ 0 by omega)
  rw [Compressor.loop, hch]
  simp only [hround searchRounds (by omega), Option.bind_eq_bind, Option.bind_some]
  exact hloop searchRounds (by omega) rounds (by omega)

/-- The main loop ends with items that stand for the input. -/
theorem loop_spec : ∀ (n P : Nat) (c : Compressor), c.At infile P →
    infile.length + WINSIZE ≤ P + n → c.writer.Covering (history infile) P →
    (∀ c' s, ReflTransGen (Next infile) c c' → c'.Searches infile s →
      s.Clean infile c'.reader.currPos) →
    ∃ last, c.Ends infile last ∧
      last.writer.Covering (history infile) (infile.length + WINSIZE) := by
  intro n
  induction n with
  | zero =>
    intro P c h hn hw _
    obtain ⟨hch, rfl⟩ := h.ch.resolve_right fun hlt => by omega
    exact ⟨c, ends_of_none hch, hw⟩
  | succ n ih =>
    intro P c h hn hw hclean
    rcases h.ch with ⟨hch, rfl⟩ | ⟨hch, hlt, -⟩
    · exact ⟨c, ends_of_none hch, hw⟩
    · obtain ⟨c', P', hround, hP', h', hw'⟩ := round_spec h hch
        (fun s => hclean c s ReflTransGen.refl) hw
      have hnext : c.Next infile c' := ⟨_, WINSIZE, hch, hround⟩
      obtain ⟨last, hends, hlast⟩ := ih P' c' h' (by omega) hw' fun c'' s hreach =>
        hclean c'' s (ReflTransGen.head hnext hreach)
      exact ⟨last, ends_of_round hch hround hends, hlast⟩

theorem start_at (infile : List UInt8) : (start infile).At infile WINSIZE := by
  have hsynced : Reader.Synced infile (WINSIZE - 1)
      { window := fun _ => 0x20, currPos := DROP_INDEX 0, infilePos := 0 } :=
    ⟨rfl, Nat.zero_le _, rfl, fun p hp _ => (history_blank (by unfold WINSIZE at *; omega)).symm⟩
  refine ⟨Nat.le_refl _, ?_⟩
  rw [start]
  rcases Nat.eq_zero_or_pos infile.length with hempty | hpos
  · rw [hsynced.getNextChar_none (by rw [hempty]; rfl)]
    exact Or.inl ⟨rfl, by rw [hempty, Nat.zero_add]⟩
  · obtain ⟨r, hread, hr⟩ := hsynced.getNextChar_some (by unfold WINSIZE; omega)
    rw [hread]
    exact Or.inr ⟨rfl, by omega, hr⟩

theorem start_covering (infile : List UInt8) (f : Nat → UInt8) :
    (start infile).writer.Covering f WINSIZE :=
  ⟨[], [], ⟨by simp, rfl, rfl, by decide, rfl, fun i item hi => by simp at hi,
    fun i _ => by simp [start, BITSET]⟩, rfl⟩

end Compressor

/-! ### The round trip -/

def Executes (infile out : List UInt8) : Prop :=
  ∃ n, ∀ rounds ≥ n, execute rounds infile = some out

/-- `InBetween` notices what it should in every search of the run. -/
def Clean (infile : List UInt8) : Prop :=
  ∀ c s, ReflTransGen (Compressor.Next infile) (Compressor.start infile) c →
    c.Searches infile s → s.Clean infile c.reader.currPos

theorem Compressor.Ends.executes {last : Compressor}
    (h : (Compressor.start infile).Ends infile last) :
    Executes infile last.writer.writeFlagByte.outfile := by
  obtain ⟨n, hloop⟩ := h
  refine ⟨n, fun rounds hrounds => ?_⟩
  rw [execute, hloop rounds hrounds rounds hrounds]
  rfl

/-- `LZ77_Decompress` gets the input back from what `Execute` makes of it, codes for 3 to 18 bytes
    that occur in the window before them and literals, as long as `InBetween` notices each
    candidate among the characters read ahead. -/
theorem decompress_execute (infile : List UInt8) (hclean : Clean infile) :
    ∃ out groups, Executes infile out ∧ out = outputOf groups ∧ Grouped groups ∧
      Covers (history infile) (infile.length + WINSIZE) WINSIZE (itemsOf groups) ∧
      LZ77_Decompress out infile.length = some infile := by
  obtain ⟨last, hends, groups, items, hlast, hcovers⟩ :=
    Compressor.loop_spec infile.length WINSIZE _ (Compressor.start_at infile)
      (Nat.le_of_eq (Nat.add_comm _ _)) (Compressor.start_covering infile _) hclean
  obtain ⟨groups', hgrouped, hout, heq⟩ := last.writer.writeFlagByte_spec hlast
  rw [← heq] at hcovers
  exact ⟨_, groups', hends.executes, hout, hgrouped, hcovers,
    hout ▸ decompress_spec hgrouped hcovers⟩

/-! ### Short inputs -/

theorem Search.Holds.not_misses (h : s.Holds infile P d) (hP : WINSIZE ≤ P)
    (hlen : infile.length ≤ WINSIZE) : ¬ s.Misses (P % WINSIZE) := by
  rintro ⟨-, hwrap, -⟩
  rw [h.reader.currPos] at hwrap
  have hmin := h.bestcount_pos
  have hstop : P + s.bestcount ≤ infile.length + WINSIZE :=
    h.ch.elim (fun hend => Nat.le_of_eq hend.2) fun hlt => Nat.le_of_lt hlt.2
  unfold WINSIZE at *
  omega

theorem Search.Holds.clean (h : s.Holds infile P d) (hP : WINSIZE ≤ P) (hd : 1 ≤ d)
    (hlen : infile.length ≤ WINSIZE) : s.Clean infile (P % WINSIZE) := by
  intro s' hreach
  suffices hs' : ∃ e, 1 ≤ e ∧ s'.Holds infile P e by
    obtain ⟨e, -, hs'⟩ := hs'
    exact hs'.not_misses hP hlen
  induction hreach with
  | refl => exact ⟨d, hd, h⟩
  | tail _ hnext ih =>
    obtain ⟨e, he, hs⟩ := ih
    obtain ⟨hB, hapart⟩ := hs.apart hP he hnext.1 (hs.not_misses hP hlen)
    obtain ⟨r, hround, hr⟩ := hs.round hP he hB hapart
    obtain ⟨e', hlt, hs'⟩ := hr _ (Option.some.inj (hround.symm.trans hnext.2))
    exact ⟨e', by omega, hs'⟩

namespace Compressor

variable {c : Compressor}

theorem Searches.clean (hs : c.Searches infile s) (h : c.At infile P)
    (hlen : infile.length ≤ WINSIZE) : s.Clean infile c.reader.currPos := by
  have hP := h.le
  obtain ⟨hch, -, count, shifter, hfind, hunique, hbegin⟩ := hs
  obtain ⟨-, hlt, hr⟩ := h.ch.resolve_left fun hend => hch hend.1
  obtain ⟨count', hfind', hmin, hmax, hsame, -⟩ := findChar_spec hr.window hP WINSIZE 1
    (Nat.le_refl 1) WINSIZE_pos (Nat.le_add_left _ _)
  have hcell := hr.currPos
  rw [← hcell, ← DROP_INDEX_sub (Nat.lt_of_lt_of_le WINSIZE_pos hP), Nat.sub_zero, ← hcell, hfind]
    at hfind'
  obtain ⟨rfl, rfl⟩ := Prod.mk.inj hfind'
  have hcount : count < WINSIZE := Nat.lt_of_le_of_ne hmax hunique
  obtain ⟨s', hbegin', hs', -, -⟩ := beginSearch_spec hP hlt hr hmin hcount (hsame hcount)
  obtain rfl : s = s' := Option.some.inj (hbegin.symm.trans hbegin')
  rw [hcell]
  exact hs'.clean hP (Nat.succ_pos _) hlen

theorem Next.at {c' : Compressor} (hnext : c.Next infile c') (h : c.At infile P)
    (hw : c.writer.Covering (history infile) P) (hlen : infile.length ≤ WINSIZE) :
    ∃ P', c'.At infile P' ∧ c'.writer.Covering (history infile) P' := by
  obtain ⟨ch, n, hch, hround⟩ := hnext
  obtain ⟨c'', P', hround', -, h', hw'⟩ := round_spec h hch (fun s hs => hs.clean h hlen) hw
  have heq := (hround (max n WINSIZE) (le_max_left _ _)).symm.trans
    (hround' (max n WINSIZE) (le_max_right _ _))
  obtain rfl := Option.some.inj heq
  exact ⟨P', h', hw'⟩

end Compressor

theorem clean_of_length_le (hlen : infile.length ≤ WINSIZE) : Clean infile := by
  intro c s hreach hs
  suffices hat : ∃ P, c.At infile P ∧ c.writer.Covering (history infile) P by
    obtain ⟨P, hat, -⟩ := hat
    exact hs.clean hat hlen
  clear hs
  induction hreach with
  | refl => exact ⟨WINSIZE, Compressor.start_at infile, Compressor.start_covering infile _⟩
  | tail _ hnext ih =>
    obtain ⟨P, hat, hw⟩ := ih
    exact hnext.at hat hw hlen

/-- An input of at most 4096 bytes -/
theorem decompress_execute_short : ∃ out groups, Executes [1, 2, 3, 1, 2, 3, 1] out ∧
    out = outputOf groups ∧ Grouped groups ∧
      Covers (history [1, 2, 3, 1, 2, 3, 1]) (7 + WINSIZE) WINSIZE (itemsOf groups) ∧
      LZ77_Decompress out 7 = some [1, 2, 3, 1, 2, 3, 1] :=
  decompress_execute [1, 2, 3, 1, 2, 3, 1] (clean_of_length_le (by decide))

end TinyClr.Compression
