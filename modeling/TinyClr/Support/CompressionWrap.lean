import TinyClr.Support.CompressionExecute

/-!
# A search past the end of the window

An input for which `InBetween` misses the characters read ahead: at byte 4095 the search takes for
a match what it has just read, and the code that `Execute` puts out stands for other bytes where
`LZ77_Decompress` reads it.
-/

namespace TinyClr.Compression

open TinyClr.Library

/-! ### The input -/

/-- Bytes that differ from each other and from the blanks, the last of which then repeats -/
def beforeRun : List UInt8 := [0x71, 0x61, 0x62, 0x63, 0x64, 0x65, 0x66, 0x67]

def beforeWrap : List UInt8 := beforeRun ++ List.replicate 4087 0x78

/-- Bytes 4095 to 4097 are bytes 1 to 3. -/
def wrapping : List UInt8 := beforeWrap ++ [0x61, 0x62, 0x63, 0x7A]

/-- What the decoder gets -/
def unwrapped : List UInt8 := beforeWrap ++ [0x20, 0x71, 0x61, 0x62]

section History

variable {last : List UInt8} {i p : Nat}

theorem length_beforeWrap : beforeWrap.length = 4095 := by
  rw [beforeWrap, List.length_append, List.length_replicate]
  rfl

theorem history_before (hp : p < 4095 + WINSIZE) :
    history (beforeWrap ++ last) p = history beforeWrap p := by
  have hlen : p < (List.replicate WINSIZE 0x20 ++ beforeWrap).length := by
    rw [List.length_append, length_beforeWrap, List.length_replicate, Nat.add_comm]
    exact hp
  rw [history, history, ← List.append_assoc, List.getD_append _ _ _ _ hlen]

theorem history_beforeRun (hi : i < 8) :
    history beforeWrap (i + WINSIZE) = beforeRun.getD i 0 := by
  rw [history, List.getD_append_right _ _ _ _ (by simp), List.length_replicate,
    Nat.add_sub_cancel, beforeWrap]
  exact List.getD_append _ _ _ _ hi

theorem history_run (hmin : 8 + WINSIZE ≤ p) (hmax : p < 4095 + WINSIZE) :
    history beforeWrap p = 0x78 := by
  have hlen : beforeRun.length = 8 := rfl
  rw [history, List.getD_append_right _ _ _ _ (by rw [List.length_replicate]; omega),
    List.length_replicate, beforeWrap, List.getD_append_right _ _ _ _ (by omega), hlen,
    List.getD_eq_getElem _ _ (by rw [List.length_replicate]; omega), List.getElem_replicate]

theorem history_after (i : Nat) :
    history (beforeWrap ++ last) (4095 + i + WINSIZE) = last.getD i 0 := by
  rw [history, List.getD_append_right _ _ _ _ (by simp), List.length_replicate,
    Nat.add_sub_cancel, List.getD_append_right _ _ _ _ (by rw [length_beforeWrap]; omega),
    length_beforeWrap, Nat.add_sub_cancel_left]

theorem length_wrapping : wrapping.length = 4099 := by
  rw [wrapping, List.length_append, length_beforeWrap]
  rfl

theorem history_unique (hi : i ≤ 8) {j : Nat} (hj : 1 ≤ j) (hmax : j < WINSIZE) :
    history beforeWrap (i + WINSIZE - j) ≠ history beforeWrap (i + WINSIZE) := by
  have hfront : ∀ k ≤ 8, history beforeWrap (k + WINSIZE) = (beforeRun ++ [0x78]).getD k 0 := by
    intro k hk
    rcases Nat.lt_or_eq_of_le hk with hlt | rfl
    · rw [history_beforeRun hlt]
      exact (List.getD_append _ _ _ _ hlt).symm
    · exact history_run (Nat.le_refl _) (by omega)
  rw [hfront i hi]
  rcases Nat.lt_or_ge i j with hblank | hfound
  · rw [history_blank (by omega)]
    exact (by decide : ∀ i ≤ 8, (0x20 : UInt8) ≠ (beforeRun ++ [0x78]).getD i 0) i hi
  · rw [show i + WINSIZE - j = i - j + WINSIZE by omega, hfront (i - j) (by omega)]
    exact (by decide : ∀ i ≤ 8, ∀ k < i, (beforeRun ++ [0x78]).getD k 0 ≠
      (beforeRun ++ [0x78]).getD i 0) i hi (i - j) (by omega)

end History

/-! ### The run up to there -/

/-- The compressor comes from the start to this state, the decoder so far agrees. -/
structure Arrives (P : Nat) (c : Compressor) : Prop where
  state : c.At wrapping P
  covering : c.writer.Covering (history unwrapped) P
  ends : ∀ last, c.Ends wrapping last → (Compressor.start wrapping).Ends wrapping last

variable {c : Compressor} {P : Nat}

theorem Arrives.ch (h : Arrives P c) (hP : P < 4099 + WINSIZE) :
    c.ch = some (history wrapping P) :=
  ((h.state.ch.resolve_left fun hend => by rw [length_wrapping] at hend; omega)).1

theorem Arrives.literal {i : Nat} (hi : i ≤ 8) (h : Arrives (i + WINSIZE) c) :
    ∃ c', Arrives (i + 1 + WINSIZE) c' := by
  have hlt : i + WINSIZE < wrapping.length + WINSIZE := by
    rw [length_wrapping]
    omega
  have hch := h.ch (by omega)
  obtain ⟨-, -, hr⟩ := h.state.ch.resolve_left fun hend => by omega
  obtain ⟨hat, hwriter⟩ := Compressor.literal_spec h.state.le hlt hr (history wrapping (i + WINSIZE))
  have hsame : history wrapping (i + WINSIZE) = history unwrapped (i + WINSIZE) :=
    (history_before (by omega)).trans (history_before (by omega)).symm
  rw [Nat.add_right_comm i 1]
  rcases Compressor.round_cases h.state hch with ⟨hround, -⟩ | ⟨d, s, hs⟩
  · refine ⟨_, hat, ?_, fun last hends => h.ends last
      (Compressor.ends_of_round hch (fun rounds _ => hround rounds) hends)⟩
    rw [hwriter, hsame]
    exact h.covering.literal
  · have hfirst := hs.first
    rw [wrapping, history_before (by omega), history_before (by omega)] at hfirst
    exact absurd hfirst (history_unique hi hs.pos hs.lt)

/-- Inside the run each item is a code for the eighteen bytes after the one before. -/
theorem Arrives.code (h : Arrives P c) (hmin : 9 + WINSIZE ≤ P) (hmax : P + 18 ≤ 4095 + WINSIZE) :
    ∃ c', Arrives (P + 18) c' := by
  have hch := h.ch (by omega)
  have hrun : ∀ q, 8 + WINSIZE ≤ q → q < 4095 + WINSIZE → history wrapping q = 0x78 :=
    fun q hq hq' => (history_before hq').trans (history_run hq hq')
  have hprev : history wrapping (P - 1) = history wrapping P := by
    rw [hrun _ (by omega) (by omega), hrun _ (by omega) (by omega)]
  rcases Compressor.round_cases h.state hch with ⟨-, hleft | hunique⟩ | ⟨d, s, hs⟩
  · rw [length_wrapping] at hleft
    omega
  · exact absurd hprev (hunique 1 (Nat.le_refl 1) (by decide))
  · obtain rfl : d = 1 := by
      rcases Nat.lt_or_eq_of_le hs.pos with hlt | heq
      · exact absurd hprev (hs.nearest 1 (Nat.le_refl 1) hlt)
      · exact heq.symm
    have hle : s.bestcount ≤ 18 := hs.holds.bestcount_le
    have hcount : s.bestcount = 18 := by
      refine hs.longest.elim id fun hlongest => Nat.le_antisymm hle (Nat.le_of_not_lt fun hlt => ?_)
      rw [length_wrapping] at hlongest
      refine hlongest.elim (fun hend => by omega) fun hdiffer => hdiffer ?_
      rw [hrun _ (by omega) (by omega), hrun _ (by omega) (by omega)]
    have hloop : ∀ rounds ≥ WINSIZE, s.loop wrapping (P % WINSIZE) rounds = some s := by
      intro rounds hrounds
      obtain ⟨rounds, rfl⟩ := Nat.exists_eq_succ_of_ne_zero
        (Nat.ne_zero_of_lt (Nat.lt_of_lt_of_le WINSIZE_pos hrounds))
      rw [Search.loop, if_neg]
      simp [Search.goesOn, hcount, MAXLEN]
    obtain ⟨hat, hwriter⟩ := Compressor.endSearch_code (c := c) hs.holds h.state.le (by omega)
    rw [hcount] at hat hwriter
    obtain ⟨e, he, hemax, hoffset, hsame⟩ := hs.holds.best
    rw [hcount] at hsame
    refine ⟨_, hat, ?_, fun last hends => h.ends last (Compressor.ends_of_round hch
      (fun rounds hrounds => by rw [hs.round, hloop rounds hrounds, Option.map_some]) hends)⟩
    rw [hwriter]
    refine h.covering.code ⟨by decide, by decide, e, he, Nat.le_of_lt hemax, hoffset, fun k hk => ?_⟩
    have hk' := hsame k hk
    rw [wrapping, history_before (by omega), history_before (by omega)] at hk'
    rw [unwrapped, history_before (by omega), history_before (by omega), hk']

theorem arrives_wrap : ∃ c, Arrives (4095 + WINSIZE) c := by
  have hliterals : ∀ i ≤ 9, ∃ c, Arrives (i + WINSIZE) c := by
    intro i
    induction i with
    | zero =>
      rw [Nat.zero_add]
      exact fun _ => ⟨_, Compressor.start_at wrapping, Compressor.start_covering wrapping _,
        fun _ hends => hends⟩
    | succ i ih =>
      intro hi
      obtain ⟨c, hc⟩ := ih (by omega)
      exact hc.literal (by omega)
  have hcodes : ∀ k ≤ 227, ∃ c, Arrives (9 + WINSIZE + 18 * k) c := by
    intro k
    induction k with
    | zero => exact fun _ => hliterals 9 (Nat.le_refl 9)
    | succ k ih =>
      intro hk
      obtain ⟨c, hc⟩ := ih (by omega)
      obtain ⟨c', hc'⟩ := hc.code (by omega) (by omega)
      exact ⟨c', by rwa [Nat.mul_succ, ← Nat.add_assoc]⟩
  obtain ⟨c, hc⟩ := hcodes 227 (Nat.le_refl _)
  exact ⟨c, by rwa [show 4095 + WINSIZE = 9 + WINSIZE + 18 * 227 by omega]⟩

/-! ### The search at byte 4095 -/

theorem history_wrapping {i : Nat} :
    history wrapping (4095 + i + WINSIZE) = [0x61, 0x62, 0x63, 0x7A].getD i 0 :=
  history_after i

theorem eq_of_history {q : Nat} (hmin : WINSIZE ≤ q) (hmax : q < 4095 + WINSIZE)
    (heq : history wrapping q = 0x61) : q = 1 + WINSIZE := by
  rw [wrapping, history_before hmax] at heq
  rcases Nat.lt_or_ge q (8 + WINSIZE) with hlt | hge
  · obtain ⟨i, rfl⟩ : ∃ i, q = i + WINSIZE := ⟨q - WINSIZE, by omega⟩
    have hi : i < 8 := by omega
    rw [history_beforeRun hi] at heq
    rw [(by decide : ∀ i < 8, beforeRun.getD i 0 = 0x61 → i = 1) i hi heq]
  · rw [history_run hge hmax] at heq
    exact absurd heq (by decide)

/-- The first candidate is byte 1, and three bytes are the same. -/
theorem begins_wrap {d : Nat} {s : Search} (hs : c.Begins wrapping (4095 + WINSIZE) d s) :
    s.Holds wrapping (4095 + WINSIZE) 4095 ∧ s.bestcount = 3 := by
  have hlt := hs.lt
  have hpos := hs.pos
  have hsize : WINSIZE = 4096 := rfl
  have hself : history wrapping (4095 + WINSIZE) = 0x61 := history_wrapping (i := 0)
  have hone : history wrapping (1 + WINSIZE) = 0x61 :=
    (history_before (by omega)).trans (history_beforeRun (by decide))
  have hd : d = 4094 := by
    rcases Nat.lt_or_ge 4094 d with hfar | hle
    · have hdiffer := hs.nearest 4094 (by decide) hfar
      rw [hself, show 4095 + WINSIZE - 4094 = 1 + WINSIZE by omega] at hdiffer
      exact absurd hone hdiffer
    · have hq := eq_of_history (by omega) (by omega) (hs.first.trans hself)
      omega
  have hholds := hs.holds
  have hsame := hs.same
  have hlongest := hs.longest
  have hdist : 4095 + WINSIZE - 4094 = 1 + WINSIZE := by omega
  rw [hd, Same, hdist] at hsame
  rw [hd, hdist] at hlongest
  rw [hd] at hholds
  refine ⟨hholds, ?_⟩
  have hcandidate : ∀ k ≤ 3, history wrapping (1 + WINSIZE + k) = beforeRun.getD (1 + k) 0 := by
    intro k hk
    rw [Nat.add_right_comm, wrapping, history_before (by omega)]
    exact history_beforeRun (by omega)
  have hsearched : ∀ k, history wrapping (4095 + WINSIZE + k) =
      [0x61, 0x62, 0x63, 0x7A].getD k 0 := by
    intro k
    rw [Nat.add_right_comm]
    exact history_wrapping
  have hle : s.bestcount ≤ 3 := by
    refine Nat.le_of_not_lt fun hmore => ?_
    have hlast := hsame 3 hmore
    rw [hcandidate 3 (Nat.le_refl 3), hsearched] at hlast
    exact absurd hlast (by decide)
  refine Nat.le_antisymm hle (Nat.le_of_not_lt fun hless => ?_)
  rcases hlongest with hmax | hend | hdiffer
  · rw [hmax] at hle
    exact absurd hle (by decide)
  · rw [length_wrapping] at hend
    omega
  · rw [hcandidate _ hle, hsearched] at hdiffer
    exact hdiffer ((by decide : ∀ k < 3, beforeRun.getD (1 + k) 0 =
      [0x61, 0x62, 0x63, 0x7A].getD k 0) _ hless)

theorem findCandidate_next {window : Nat → UInt8} {currPos savePos shifter : Nat}
    (hdrop : DROP_INDEX shifter = savePos) (hne : shifter ≠ currPos)
    (hdiffer : window shifter ≠ window savePos) (rounds : Nat) :
    findCandidate window currPos savePos (rounds + 2) shifter = some savePos := by
  rw [findCandidate, if_pos ⟨hne, hdiffer⟩, hdrop, findCandidate, if_neg fun hcond => hcond.2 rfl]

theorem compareMatch_self {infile : List UInt8} {m : Match} {r : Reader} {ch : UInt8}
    (hch : m.ch ≠ none) (hcount : m.count = 0)
    (hread : m.reader.getNextChar infile = (some ch, r))
    (hstop : r.getNextChar infile = (none, r)) (rounds : Nat) :
    ∃ m' newPos, compareMatch infile 3 (rounds + 5) m m.shifter = some (m', newPos) ∧
      m'.reader = r ∧ m'.ch = none ∧ m'.count = 4 := by
  obtain ⟨reader, mch, old, shifter, count⟩ := m
  simp only at hch hcount hread
  subst hcount
  simp [compareMatch, Match.readOn, MAXLEN, hch, hread, hstop]

theorem search_wrap {s : Search} (h : s.Holds wrapping (4095 + WINSIZE) 4095)
    (hcount : s.bestcount = 3) : ∃ s', (∀ rounds ≥ WINSIZE, s.loop wrapping 4095 rounds = some s') ∧
      s'.ch = none ∧ s'.bestcount = 4 ∧ s'.bestoffset = 4095 := by
  have hsize : WINSIZE = 4096 := rfl
  have hch : s.ch ≠ none :=
    (h.ch.resolve_left fun hend => by rw [length_wrapping] at hend; omega).1
  have hr : s.reader.Synced wrapping (4097 + WINSIZE) := by
    have hreader := h.reader
    rwa [hcount, show 4095 + WINSIZE + 3 - 1 = 4097 + WINSIZE by omega] at hreader
  have hshifter : s.shifter = 0 := h.shifter
  have hcurr : s.reader.currPos = 1 := hr.currPos
  obtain ⟨r, hread, hr'⟩ := hr.getNextChar_some (by rw [length_wrapping]; omega)
  have hstop := hr'.getNextChar_none (by rw [length_wrapping]; omega)
  have hfound : findCandidate s.reader.window 1 4095 (WINSIZE + 1) 0 = some 4095 := by
    refine findCandidate_next (show DROP_INDEX 0 = 4095 from rfl) (by decide) ?_ 4095
    have hnext := hr.window (4096 + WINSIZE) (by omega) (by omega)
    have hself := hr.window (4095 + WINSIZE) (by omega) (by omega)
    rw [show (4096 + WINSIZE) % WINSIZE = 0 from rfl] at hnext
    rw [show (4095 + WINSIZE) % WINSIZE = 4095 from rfl] at hself
    rw [hnext, hself, history_wrapping (i := 1), history_wrapping (i := 0)]
    decide
  obtain ⟨m, newPos, hcompare, hreader, hnone, hfour⟩ := compareMatch_self
    (m := { reader := s.reader, ch := s.ch, old := s.old, shifter := 4095, count := 0 }) hch rfl
    hread hstop 14
  have hcompare' : compareMatch wrapping 3 (MAXLEN + 1)
      { reader := s.reader, ch := s.ch, old := s.old, shifter := 4095, count := 0 } 4095 =
      some (m, newPos) := hcompare
  obtain ⟨s', hs'⟩ : ∃ s' : Search, s' =
      { reader := r, ch := none, old := m.old, shifter := 4094, bestcount := 4,
        bestoffset := 4095 } := ⟨_, rfl⟩
  have hround : s.round wrapping 4095 = some (some s') := by
    rw [Search.round, hshifter, hcurr, hfound, hcount, hs']
    simp only [Option.bind_eq_bind, Option.bind_some]
    rw [if_neg (by decide : ¬ 4095 = 1)]
    simp [hcompare', hreader, hnone, hfour, DROP_INDEX]
  have hcurr' : s'.reader.currPos = 2 := by
    rw [hs']
    exact hr'.currPos
  -- the next round finds no further candidate
  have hround' : s'.round wrapping 4095 = some none := by
    obtain ⟨e, hfind, he, hmax, hsame⟩ := findCandidate_spec (P := 4095 + WINSIZE) (n := 3)
      (by rw [show 4095 + WINSIZE + 3 = 4097 + WINSIZE + 1 by omega]; exact hr'.window)
      (by omega) (by omega) (WINSIZE + 1) 1 (Nat.le_refl 1) (by omega) (by omega)
    have hend : e = 4093 := by
      refine Nat.le_antisymm (by omega) (Nat.le_of_not_lt fun hlt => ?_)
      have hq := eq_of_history (by omega) (by omega)
        ((hsame (by omega)).trans (history_wrapping (i := 0)))
      omega
    rw [hend] at hfind
    have hfind' : findCandidate s'.reader.window s'.reader.currPos 4095 (WINSIZE + 1) s'.shifter =
        some 2 := by
      rw [hcurr', hs']
      exact hfind
    rw [Search.round, hfind', hcurr']
    rfl
  refine ⟨s', fun rounds hrounds => ?_, by rw [hs'], by rw [hs'], by rw [hs']⟩
  obtain ⟨rounds, rfl⟩ : ∃ n, rounds = n + 2 := ⟨rounds - 2, by omega⟩
  have hon : s.goesOn 4095 = true := by
    simp [Search.goesOn, hshifter, hcurr, hcount, MAXLEN, inBetween, WINSIZE]
  have hshifter' : s'.shifter = 4094 := by rw [hs']
  have hfour' : s'.bestcount = 4 := by rw [hs']
  have hon' : s'.goesOn 4095 = true := by
    simp [Search.goesOn, hshifter', hcurr', hfour', MAXLEN, inBetween, WINSIZE]
  rw [Search.loop, if_pos hon, hround]
  simp only [Option.bind_eq_bind, Option.bind_some]
  rw [Search.loop, if_pos hon', hround']
  rfl

theorem validCode_unwrapped : ValidCode (history unwrapped) (4095 + WINSIZE) 4 4095 := by
  have hsize : WINSIZE = 4096 := rfl
  refine ⟨by decide, by decide, WINSIZE, WINSIZE_pos, Nat.le_refl _, rfl, fun k hk => ?_⟩
  rw [Nat.add_sub_cancel, Nat.add_right_comm, unwrapped, history_after k]
  rcases Nat.eq_zero_or_pos k with rfl | hpos
  · exact history_blank (by omega)
  · rw [history_before (by omega), show 4095 + k = k - 1 + WINSIZE by omega,
      history_beforeRun (by omega)]
    exact (by decide : ∀ k < 4, 0 < k → beforeRun.getD (k - 1) 0 =
      [0x20, 0x71, 0x61, 0x62].getD k 0) k hk hpos

theorem Executes.unique {infile out out' : List UInt8} (h : Executes infile out)
    (h' : Executes infile out') : out = out' := by
  obtain ⟨n, hn⟩ := h
  obtain ⟨n', hn'⟩ := h'
  exact Option.some.inj ((hn (max n n') (le_max_left _ _)).symm.trans
    (hn' (max n n') (le_max_right _ _)))

/-- `LZ77_Decompress` gets something else from what `Execute` makes of this input. -/
theorem decompress_execute_wrapping :
    ¬ ∃ out, Executes wrapping out ∧ LZ77_Decompress out wrapping.length = some wrapping := by
  rintro ⟨out, hout, hround⟩
  have hsize : WINSIZE = 4096 := rfl
  obtain ⟨c, hc⟩ := arrives_wrap
  have hch := hc.ch (by omega)
  have hself : history wrapping (4095 + WINSIZE) = 0x61 := history_wrapping (i := 0)
  have hone : history wrapping (1 + WINSIZE) = 0x61 :=
    (history_before (by omega)).trans (history_beforeRun (by decide))
  rcases Compressor.round_cases hc.state hch with ⟨-, hleft | hunique⟩ | ⟨d, s, hs⟩
  · rw [length_wrapping] at hleft
    omega
  · refine hunique 4094 (by decide) (by decide) ?_
    rw [show 4095 + WINSIZE - 4094 = 1 + WINSIZE by omega, hone, hself]
  · obtain ⟨hholds, hcount⟩ := begins_wrap hs
    obtain ⟨s', hloop, hnone, hfour, hoffset⟩ := search_wrap hholds hcount
    have hend : c.endSearch wrapping 4095 s' =
        { reader := s'.reader, writer := c.writer.saveCode 4 4095, ch := none } := by
      simp [Compressor.endSearch, hnone, hfour, hoffset]
    have hends : c.Ends wrapping
        { reader := s'.reader, writer := c.writer.saveCode 4 4095, ch := none } := by
      refine Compressor.ends_of_round hch (fun rounds hrounds => ?_) (Compressor.ends_of_none rfl)
      rw [hs.round, show (4095 + WINSIZE) % WINSIZE = 4095 from rfl, hloop rounds hrounds,
        Option.map_some, hend]
    obtain ⟨groups, items, hw, hcovers⟩ := hc.covering.code validCode_unwrapped
    obtain ⟨groups', hgrouped, hfile, heq⟩ := Writer.writeFlagByte_spec hw
    rw [← heq] at hcovers
    have hlen : unwrapped.length = 4099 := by
      rw [unwrapped, List.length_append, length_beforeWrap]
      rfl
    have hdecompress : LZ77_Decompress (outputOf groups') unwrapped.length = some unwrapped :=
      decompress_spec hgrouped (by rwa [hlen, show 4099 + WINSIZE = 4095 + WINSIZE + 4 by omega])
    have hsame := hout.unique (hc.ends _ hends).executes
    rw [hsame, hfile, length_wrapping, ← hlen, hdecompress] at hround
    exact absurd (List.append_cancel_left (Option.some.inj hround)) (by decide)

end TinyClr.Compression
