import TinyClr.Core.StringSplitRanges
import TinyClr.Library.Pieces

/-!
# What String.Split returns

The ranges of the decoded characters are those of the pieces of the string as long as every
character that the decoder mistakes is split away.
-/

namespace TinyClr.StringSplit

open TinyClr.Library ArrayCreation FieldLayout UnicodeHelper StringChars

/-! ### Strings that are split right -/

/-- The limit leaves room for another string as long as it is needed, and every unit of a
    supplementary character and every unit that is decoded for it is a separator: the character is
    split away. -/
def Intact (pChars : List UInt16) : Nat → List Char → Prop
  | _, [] => True
  | limit, c :: cs =>
      if c.toNat < 0x10000 then
        Intact pChars (if 1 < limit ∧ UInt16.ofNat c.toNat ∈ pChars then limit - 1 else limit) cs
      else
        (2 < limit ∧ ∀ u ∈ utf16Char c ++ fromUnits c, u ∈ pChars) ∧ Intact pChars (limit - 2) cs

/-- The allocator gives memory so many times. -/
def Willing (n : Nat) (heap : Heap) : Prop := ∃ rest, heap = List.replicate n true ++ rest

theorem Willing.extract {n : Nat} {heap : Heap} (h : Willing (n + 1) heap) :
    heap.extract = (true, heap.extract.2) ∧ Willing n heap.extract.2 := by
  obtain ⟨rest, rfl⟩ := h
  exact ⟨rfl, rest, rfl⟩

theorem Willing.mono {n k : Nat} {heap : Heap} (h : Willing n heap) (hle : k ≤ n) :
    Willing k heap := by
  obtain ⟨rest, rfl⟩ := h
  refine ⟨List.replicate (n - k) true ++ rest, ?_⟩
  rw [← List.append_assoc, List.replicate_append_replicate, Nat.add_sub_cancel' hle]

def Denotes (text : List UInt8) (units : List UInt16) : Prop :=
  ∃ cs, Text text cs ∧ utf16 cs = units

section Right

variable {fresh : Nat → UInt8} {pChars mem behind : List UInt16}

/-- The strings of the ranges from a place on are the pieces, the first one after `done`. -/
def MakesPieces (fresh : Nat → UInt8) (pChars mem : List UInt16) (limit start : Nat)
    (done cs : List Char) (heap : Heap) : Prop :=
  ∃ texts heap', createAll fresh mem
      (ranges pChars limit start (start + (utf16 done).length) (cs.flatMap fromUnits)) heap =
        some (.ok texts, heap') ∧
    List.Forall₂ Denotes texts
      ((pieces (· ∈ pChars) limit (utf16 cs)).modifyHead (utf16 done ++ ·))

/-- What is in front of a range and in it -/
structure At (mem behind : List UInt16) (start : Nat) (done cs : List Char) (heap : Heap) :
    Prop where
  mem : mem.drop start = utf16 done ++ (cs.flatMap fromUnits ++ behind)
  behind : behind ≠ []
  nul : ∀ c ∈ done ++ cs, c.toNat ≠ 0
  plain : ∀ c ∈ done, c.toNat < 0x10000
  size : ((utf8 (done ++ cs)).length + 24) / 12 ≤ HB_MaxSize
  willing : Willing ((utf16 cs).length + 1) heap

theorem At.createString {start : Nat} {done cs : List Char} {heap : Heap}
    (h : At mem behind start done cs heap) :
    ∃ text, createString fresh mem start (utf16 done).length heap =
        some (.ok text, heap.extract.2) ∧
      Text text done := by
  obtain ⟨u, rest, hrest⟩ : ∃ u rest, cs.flatMap fromUnits ++ behind = u :: rest := by
    refine List.exists_cons_of_ne_nil fun hnil => h.behind ?_
    exact (List.append_eq_nil_iff.mp hnil).2
  have hmem := h.mem
  rw [hrest] at hmem
  have hsize := h.size
  rw [utf8_append, List.length_append] at hsize
  exact createString_plain (fun c hc => h.nul c (List.mem_append_left _ hc)) h.plain hmem
    (by omega) h.willing.extract.1

theorem makesPieces_nil {limit start : Nat} {done : List Char} {heap : Heap}
    (h : At mem behind start done [] heap) :
    MakesPieces fresh pChars mem limit start done [] heap := by
  obtain ⟨text, hcreate, htext⟩ := @At.createString fresh _ _ _ _ _ _ h
  refine ⟨[text], heap.extract.2, ?_, ?_⟩
  · rw [List.flatMap_nil, ranges, Nat.add_sub_cancel_left]
    exact createAll_cons.mpr ⟨text, _, [], hcreate, rfl, rfl⟩
  · rw [utf16_nil, pieces_nil]
    exact .cons ⟨done, htext, (List.append_nil _).symm⟩ .nil

theorem createAll_first {start length : Nat} {rs : List (Nat × Nat)} {ps : List (List UInt16)}
    {done : List Char} {text : List UInt8} {heap left : Heap}
    (hcreate : createString fresh mem start length heap = some (.ok text, left))
    (htext : Text text done) :
    (∃ texts heap', createAll fresh mem ((start, length) :: rs) heap = some (.ok texts, heap') ∧
        List.Forall₂ Denotes texts (utf16 done :: ps)) ↔
      ∃ texts heap', createAll fresh mem rs left = some (.ok texts, heap') ∧
        List.Forall₂ Denotes texts ps := by
  constructor
  · rintro ⟨texts, heap', hall, hdenotes⟩
    obtain ⟨text', left', texts', hcreate', hrest, rfl⟩ := createAll_cons.mp hall
    rw [hcreate, Option.some.injEq] at hcreate'
    obtain ⟨-, rfl⟩ := Prod.mk.inj hcreate'
    exact ⟨texts', heap', hrest, (List.forall₂_cons.mp hdenotes).2⟩
  · rintro ⟨texts, heap', hall, hdenotes⟩
    exact ⟨text :: texts, heap', createAll_cons.mpr ⟨text, _, texts, hcreate, hall, rfl⟩,
      .cons ⟨done, htext, rfl⟩ hdenotes⟩

theorem makesPieces_split {limit start : Nat} {done cs : List Char} {u v : UInt16}
    {us vs : List UInt16} {heap : Heap} (h : At mem behind start done cs heap) (hu : 1 < limit ∧ u ∈ pChars)
    (hv : 1 < limit ∧ v ∈ pChars) (hus : cs.flatMap fromUnits = u :: us)
    (hvs : utf16 cs = v :: vs) :
    MakesPieces fresh pChars mem limit start done cs heap ↔
      ∃ texts heap', createAll fresh mem (ranges pChars (limit - 1)
          (start + (utf16 done).length + 1) (start + (utf16 done).length + 1) us) heap.extract.2 =
            some (.ok texts, heap') ∧
        List.Forall₂ Denotes texts (pieces (· ∈ pChars) (limit - 1) vs) := by
  obtain ⟨text, hcreate, htext⟩ := @At.createString fresh _ _ _ _ _ _ h
  rw [MakesPieces, hus, hvs, ranges, if_pos hu, pieces_split hv, Nat.add_sub_cancel_left,
    List.modifyHead_cons, List.append_nil]
  exact createAll_first hcreate htext

theorem makesPieces_fresh {limit start : Nat} {cs : List Char} {heap : Heap} :
    MakesPieces fresh pChars mem limit start [] cs heap ↔
      ∃ texts heap',
        createAll fresh mem (ranges pChars limit start start (cs.flatMap fromUnits)) heap =
          some (.ok texts, heap') ∧
        List.Forall₂ Denotes texts (pieces (· ∈ pChars) limit (utf16 cs)) := by
  have hhead : (pieces (· ∈ pChars) limit (utf16 cs)).modifyHead (utf16 [] ++ ·) =
      pieces (· ∈ pChars) limit (utf16 cs) := by
    rcases pieces (· ∈ pChars) limit (utf16 cs) with _ | ⟨p, ps⟩ <;> rfl
  rw [MakesPieces, hhead]
  rfl

theorem makesPieces_keep {limit start : Nat} {done cs : List Char} {c : Char} {heap : Heap}
    (hc : c.toNat < 0x10000) (hkeep : ¬ (1 < limit ∧ UInt16.ofNat c.toNat ∈ pChars)) :
    MakesPieces fresh pChars mem limit start done (c :: cs) heap ↔
      MakesPieces fresh pChars mem limit start (done ++ [c]) cs heap := by
  have hfrom : fromUnits c = [UInt16.ofNat c.toNat] := if_pos hc
  have hdone : utf16 (done ++ [c]) = utf16 done ++ [UInt16.ofNat c.toNat] := by
    rw [utf16_append, utf16_cons, utf16_nil, List.append_nil, utf16Char_of_lt hc]
  have hhead : ∀ ps : List (List UInt16), (ps.modifyHead (UInt16.ofNat c.toNat :: ·)).modifyHead
      (utf16 done ++ ·) = ps.modifyHead (utf16 (done ++ [c]) ++ ·) := by
    rintro (_ | ⟨p, ps⟩)
    · rfl
    · simp only [List.modifyHead_cons, hdone, List.append_assoc, List.singleton_append]
  rw [MakesPieces, MakesPieces, utf16_cons, utf16Char_of_lt hc, List.singleton_append,
    pieces_keep hkeep, hhead, List.flatMap_cons, hfrom, List.singleton_append, ranges,
    if_neg hkeep, hdone, List.length_append, List.length_singleton, Nat.add_assoc]

theorem makesPieces_end {limit start : Nat} {done cs : List Char} {c : Char} {heap : Heap}
    (h : At mem behind start done (c :: cs) heap) (hc : c.toNat < 0x10000)
    (hend : 1 < limit ∧ UInt16.ofNat c.toNat ∈ pChars) :
    MakesPieces fresh pChars mem limit start done (c :: cs) heap ↔
      MakesPieces fresh pChars mem (limit - 1) (start + (utf16 done).length + 1) [] cs
        heap.extract.2 := by
  have hfrom : fromUnits c = [UInt16.ofNat c.toNat] := if_pos hc
  rw [makesPieces_fresh, makesPieces_split h hend hend
    (by rw [List.flatMap_cons, hfrom, List.singleton_append])
    (by rw [utf16_cons, utf16Char_of_lt hc, List.singleton_append])]

theorem At.keep {start : Nat} {done cs : List Char} {c : Char} {heap : Heap}
    (h : At mem behind start done (c :: cs) heap) (hc : c.toNat < 0x10000) :
    At mem behind start (done ++ [c]) cs heap where
  mem := by
    have hfrom : fromUnits c = [UInt16.ofNat c.toNat] := if_pos hc
    rw [h.mem, utf16_append, utf16_cons, utf16_nil, List.append_nil, utf16Char_of_lt hc,
      List.flatMap_cons, hfrom, List.append_assoc, List.append_assoc]
  behind := h.behind
  nul := by
    rw [List.append_assoc]
    exact h.nul
  plain := by
    intro d hd
    rcases List.mem_append.mp hd with hd | hd
    · exact h.plain d hd
    · obtain rfl := List.mem_singleton.mp hd
      exact hc
  size := by
    rw [List.append_assoc]
    exact h.size
  willing := by
    refine h.willing.mono ?_
    rw [utf16_cons, List.length_append]
    omega

theorem At.behindChar {start n : Nat} {done cs : List Char} {c : Char} {heap heap' : Heap}
    (h : At mem behind start done (c :: cs) heap) (hn : n = start + (utf16 done).length +
      (utf16Char c).length) (hwilling : Willing ((utf16 cs).length + 1) heap') :
    At mem behind n [] cs heap' where
  mem := by
    rw [hn, ← List.drop_drop, ← List.drop_drop, h.mem, List.drop_left, List.flatMap_cons,
      List.append_assoc, ← length_fromUnits, List.drop_left, utf16_nil, List.nil_append]
  behind := h.behind
  nul := fun d hd => h.nul d (List.mem_append_right _ (List.mem_cons_of_mem c hd))
  plain := by simp
  size := by
    have hsize := h.size
    rw [utf8_append, utf8_cons, List.length_append, List.length_append] at hsize
    rw [List.nil_append]
    omega
  willing := hwilling

theorem supplementary_units {c : Char} (hc : 0x10000 ≤ c.toNat) :
    ∃ a a' b, fromUnits c = [a, b] ∧ utf16Char c = [a', b] ∧ a ≠ a' ∧
      LOW_SURROGATE_START ≤ b.toNat ∧ b.toNat ≤ LOW_SURROGATE_END := by
  have hrange := scalar_range c
  have hmod : (c.toNat - 0x10000) % 0x400 = c.toNat % 0x400 := by omega
  refine ⟨_, UInt16.ofNat (0xD800 + (c.toNat - 0x10000) / 0x400),
    UInt16.ofNat (c.toNat % 0x400 + 0xDC00), if_neg (by omega), ?_, ?_, ?_⟩
  · rw [utf16Char_of_le hc, hmod, Nat.add_comm 0xDC00]
  · intro heq
    have hvalue := congrArg UInt16.toNat heq
    rw [toNat_unit (by omega), toNat_unit (by omega)] at hvalue
    omega
  · rw [toNat_unit (by omega), LOW_SURROGATE_START, LOW_SURROGATE_END]
    omega

theorem ranges_head (limit start i : Nat) (us : List UInt16) :
    ∃ length rs, ranges pChars limit start i us = (start, length) :: rs ∧
      i - start ≤ length ∧ length ≤ i + us.length - start := by
  induction us generalizing limit i with
  | nil => exact ⟨_, [], rfl, Nat.le_refl _, Nat.le_refl _⟩
  | cons u us ih =>
    rw [ranges]
    split
    · refine ⟨_, _, rfl, Nat.le_refl _, ?_⟩
      rw [List.length_cons]
      omega
    · obtain ⟨length, rs, hrs, hlow, hhigh⟩ := ih limit (i + 1)
      refine ⟨length, rs, hrs, by omega, ?_⟩
      rw [List.length_cons]
      omega

theorem pieces_head (limit : Nat) (x : UInt16) (xs : List UInt16) :
    ∃ p ps, pieces (· ∈ pChars) limit (x :: xs) = p :: ps ∧ (p = [] ∨ ∃ p', p = x :: p') := by
  by_cases h : 1 < limit ∧ x ∈ pChars
  · exact ⟨_, _, pieces_split h, Or.inl rfl⟩
  · obtain ⟨p, ps, hps⟩ :=
      List.exists_cons_of_ne_nil (@pieces_ne_nil _ (· ∈ pChars) _ limit xs)
    rw [pieces_keep h, hps]
    exact ⟨_, _, rfl, Or.inr ⟨p, rfl⟩⟩

section Supplementary

variable {limit start : Nat} {done cs : List Char} {c : Char} {heap : Heap} {a a' b : UInt16}

/-- A range that reaches a supplementary character does not denote its piece. -/
theorem not_makesPieces_inside (h : At mem behind start done (c :: cs) heap)
    (hlen : ((c :: cs).flatMap fromUnits).length + done.length < 2 ^ 20)
    (hc : 0x10000 ≤ c.toNat) (hfrom : fromUnits c = [a, b]) (hunits : utf16Char c = [a', b])
    (hne : a ≠ a') (hkeep : ¬ (1 < limit ∧ a ∈ pChars)) :
    ¬ MakesPieces fresh pChars mem limit start done (c :: cs) heap := by
  rintro ⟨texts, heap', hall, hdenotes⟩
  have hplain := length_utf16_plain h.plain
  have hsize := h.size
  rw [utf8_append, List.length_append, HB_MaxSize] at hsize
  rw [List.flatMap_cons, hfrom] at hall hlen
  rw [List.length_append, List.length_cons, List.length_cons, List.length_nil] at hlen
  simp only [List.cons_append, List.nil_append] at hall
  rw [ranges, if_neg hkeep] at hall
  obtain ⟨length, rs, hrs, hlow, hhigh⟩ := @ranges_head pChars limit start
    (start + (utf16 done).length + 1) (b :: cs.flatMap fromUnits)
  rw [hrs] at hall
  rw [List.length_cons] at hhigh
  obtain ⟨text, left, texts', hcreate, -, rfl⟩ := createAll_cons.mp hall
  have hmem := h.mem
  rw [List.flatMap_cons, List.append_assoc] at hmem
  obtain ⟨d, more, hd, hd16, htext⟩ := createString_supplementary
    (fun e he => h.nul e (List.mem_append_left _ he)) h.plain hc hmem (by omega) (by omega)
    (by omega) hcreate
  obtain ⟨p, ps, hps, hp⟩ := @pieces_head pChars limit a' ([b] ++ utf16 cs)
  rw [utf16_cons, hunits, List.cons_append, hps, List.modifyHead_cons] at hdenotes
  obtain ⟨P, hP, hform⟩ := (List.forall₂_cons.mp hdenotes).1
  have hnul : ∀ e ∈ done ++ [d], e.toNat ≠ 0 := by
    intro e he
    rcases List.mem_append.mp he with he | he
    · exact h.nul e (List.mem_append_left _ he)
    · obtain rfl := List.mem_singleton.mp he
      omega
  obtain ⟨es, rfl⟩ := hP.front hnul htext
  rw [utf16_append, utf16_append, utf16_cons, utf16_nil, List.append_nil, ← hd16, hfrom,
    List.append_assoc, List.append_cancel_left_eq] at hform
  rcases hp with rfl | ⟨p', rfl⟩
  · cases hform
  · exact hne (List.cons.inj hform).1

theorem not_createAll_low {us : List UInt16} {texts : List (List UInt8)} {heap' : Heap}
    (hmem : mem.drop start = b :: us ++ behind)
    (hlow : LOW_SURROGATE_START ≤ b.toNat ∧ b.toNat ≤ LOW_SURROGATE_END)
    (hlen : us.length < 2 ^ 20) (hkeep : ¬ (1 < limit ∧ b ∈ pChars)) :
    createAll fresh mem (ranges pChars limit start start (b :: us)) heap ≠
      some (.ok texts, heap') := by
  intro hall
  rw [ranges, if_neg hkeep] at hall
  obtain ⟨length, rs, hrs, hpos, hhigh⟩ := @ranges_head pChars limit start (start + 1) us
  rw [hrs] at hall
  obtain ⟨text, left, texts', hcreate, -, -⟩ := createAll_cons.mp hall
  refine createString_uncounted ?_ hcreate
  rw [int32_eq_self (by omega) (by omega), countNumberOfBytes]
  exact countBytesLoop_low _ _ hmem (by omega) hlow

/-- A string that ends in front of a unit that is no separator does not denote its piece. -/
theorem not_makesPieces_ended {us vs : List UInt16} (h : At mem behind start done cs heap)
    (hus : cs.flatMap fromUnits = a :: us) (hvs : utf16 cs = a' :: vs)
    (hend : 1 < limit ∧ a ∈ pChars) (hkeep : ¬ (1 < limit ∧ a' ∈ pChars)) :
    ¬ MakesPieces fresh pChars mem limit start done cs heap := by
  rintro ⟨texts, heap', hall, hdenotes⟩
  obtain ⟨text, hcreate, htext⟩ := @At.createString fresh _ _ _ _ _ _ h
  rw [hus, ranges, if_pos hend, Nat.add_sub_cancel_left] at hall
  obtain ⟨text', left, texts', hcreate', -, rfl⟩ := createAll_cons.mp hall
  rw [hcreate, Option.some.injEq] at hcreate'
  obtain ⟨htext', -⟩ := Prod.mk.inj hcreate'
  obtain rfl := Except.ok.inj htext'
  obtain ⟨p, ps, hps⟩ := List.exists_cons_of_ne_nil (@pieces_ne_nil _ (· ∈ pChars) _ limit vs)
  rw [hvs, pieces_keep hkeep, hps, List.modifyHead_cons, List.modifyHead_cons] at hdenotes
  obtain ⟨P, hP, hform⟩ := (List.forall₂_cons.mp hdenotes).1
  rw [htext.unique hP] at hform
  have hlength := congrArg List.length hform
  rw [List.length_append, List.length_cons] at hlength
  omega

/-- A supplementary character is split away, or the strings are not the pieces. -/
theorem makesPieces_supplementary (h : At mem behind start done (c :: cs) heap)
    (hlen : ((c :: cs).flatMap fromUnits).length + done.length < 2 ^ 20)
    (hc : 0x10000 ≤ c.toNat) :
    MakesPieces fresh pChars mem limit start done (c :: cs) heap ↔
      (2 < limit ∧ ∀ u ∈ utf16Char c ++ fromUnits c, u ∈ pChars) ∧
        MakesPieces fresh pChars mem (limit - 2) (start + (utf16 done).length + 2) [] cs
          heap.extract.2.extract.2 := by
  obtain ⟨a, a', b, hfrom, hunits, hne, hlow⟩ := supplementary_units hc
  have hus : (c :: cs).flatMap fromUnits = a :: b :: cs.flatMap fromUnits := by
    rw [List.flatMap_cons, hfrom]
    rfl
  have hvs : utf16 (c :: cs) = a' :: b :: utf16 cs := by
    rw [utf16_cons, hunits]
    rfl
  have hall : (∀ u ∈ utf16Char c ++ fromUnits c, u ∈ pChars) ↔
      a' ∈ pChars ∧ b ∈ pChars ∧ a ∈ pChars := by
    rw [hfrom, hunits]
    simp only [List.cons_append, List.nil_append, List.forall_mem_cons, List.not_mem_nil,
      false_implies, implies_true, and_true]
    tauto
  have hwilling := h.willing
  rw [hus, List.length_cons, List.length_cons] at hlen
  rw [hvs, List.length_cons, List.length_cons] at hwilling
  have hmem : mem.drop (start + (utf16 done).length + 1) = b :: cs.flatMap fromUnits ++ behind := by
    rw [← List.drop_drop, ← List.drop_drop, h.mem, List.drop_left, hus]
    rfl
  rw [hall]
  by_cases ha : 1 < limit ∧ a ∈ pChars
  swap
  · refine iff_of_false (not_makesPieces_inside h ?_ hc hfrom hunits hne ha) ?_
    · rw [hus]
      exact hlen
    · rintro ⟨⟨hlimit, -, -, hmem⟩, -⟩
      exact ha ⟨by omega, hmem⟩
  by_cases ha' : 1 < limit ∧ a' ∈ pChars
  swap
  · refine iff_of_false (not_makesPieces_ended h hus hvs ha ha') ?_
    rintro ⟨⟨hlimit, hmem, -⟩, -⟩
    exact ha' ⟨by omega, hmem⟩
  rw [makesPieces_split h ha ha' hus hvs]
  by_cases hb : 1 < limit - 1 ∧ b ∈ pChars
  swap
  · refine iff_of_false ?_ ?_
    · rintro ⟨texts, heap', hcreate, -⟩
      exact not_createAll_low hmem hlow (by omega) hb hcreate
    · rintro ⟨⟨hlimit, -, hmem, -⟩, -⟩
      exact hb ⟨by omega, hmem⟩
  -- nothing is between the two units
  obtain ⟨text, hcreate, htext⟩ := @createString_plain fresh mem (cs.flatMap fromUnits ++ behind)
    (start + (utf16 done).length + 1) heap.extract.2 heap.extract.2.extract.2 [] b (by simp)
    (by simp) hmem (by decide) hwilling.extract.2.extract.1
  rw [makesPieces_fresh, ranges, if_pos hb, pieces_split hb, Nat.sub_self,
    show limit - 1 - 1 = limit - 2 by omega, and_iff_right ⟨by omega, ha'.2, hb.2, ha.2⟩]
  exact createAll_first hcreate htext

end Supplementary

/-- **The strings of the ranges are the pieces exactly if every supplementary character is split
    away.** -/
theorem makesPieces_iff (cs : List Char) : ∀ (limit start : Nat) (done : List Char) (heap : Heap),
    At mem behind start done cs heap → (cs.flatMap fromUnits).length + done.length < 2 ^ 20 →
      (MakesPieces fresh pChars mem limit start done cs heap ↔ Intact pChars limit cs) := by
  induction cs with
  | nil =>
    intro limit start done heap h _
    exact iff_of_true (makesPieces_nil h) trivial
  | cons c cs ih =>
    intro limit start done heap h hlen
    have hwilling := h.willing
    rw [utf16_cons, List.length_append] at hwilling
    rw [List.flatMap_cons, List.length_append, length_fromUnits] at hlen
    have hbounds := length_bounds c
    rw [Intact]
    by_cases hc : c.toNat < 0x10000
    · rw [if_pos hc]
      have hone : (utf16Char c).length = 1 := by rw [utf16Char_of_lt hc, List.length_singleton]
      by_cases hend : 1 < limit ∧ UInt16.ofNat c.toNat ∈ pChars
      · rw [makesPieces_end h hc hend, if_pos hend]
        refine ih (limit - 1) _ [] _ (h.behindChar (by rw [hone]) ?_)
          (by rw [List.length_nil]; omega)
        rw [hone] at hwilling
        exact (hwilling.mono (by omega)).extract.2
      · rw [makesPieces_keep hc hend, if_neg hend]
        refine ih limit start _ heap (h.keep hc) ?_
        rw [List.length_append, List.length_singleton]
        omega
    · rw [if_neg hc, makesPieces_supplementary h
        (by rw [List.flatMap_cons, List.length_append, length_fromUnits]; omega) (by omega)]
      refine and_congr_right fun _ => ?_
      have htwo : (utf16Char c).length = 2 := by
        rw [utf16Char_of_le (by omega)]
        rfl
      refine ih (limit - 2) _ [] _ (h.behindChar (by rw [htwo]) ?_) (by rw [List.length_nil]; omega)
      rw [htwo] at hwilling
      exact (hwilling.mono (by omega)).extract.2.extract.2

end Right

/-! ### Splitting strings -/

section Whole

variable {fresh : Nat → UInt8} {behind : List UInt16} {chars : Option (List UInt16)}
  {maxStrings : Int} {limit : Nat} {heap : Heap} {cs : List Char}

/-- `Split` returns an array whose elements are all set, to the strings of a partition of the
    string at the separators. -/
def SplitsRight (fresh : Nat → UInt8) (behind : List UInt16) (cs : List Char)
    (chars : Option (List UInt16)) (maxStrings : Int) (heap : Heap) : Prop :=
  ∃ elements,
    split fresh behind (some (utf8 cs ++ [0])) chars maxStrings heap = some (.ok elements) ∧
    ∃ ps : List (List Char),
      List.Forall₂ (fun element p => ∃ text, element = some text ∧ Text text p) elements ps ∧
        Partition (· ∈ separators chars) maxStrings.toNat (utf16 cs) (ps.map utf16)

theorem denotes_iff {texts : List (List UInt8)} {units : List (List UInt16)} :
    List.Forall₂ Denotes texts units ↔
      ∃ ps : List (List Char),
        List.Forall₂ (fun element p => ∃ text, element = some text ∧ Text text p)
          (texts.map some) ps ∧ ps.map utf16 = units := by
  constructor
  · intro h
    induction h with
    | nil => exact ⟨[], .nil, rfl⟩
    | cons hdenotes _ ih =>
      obtain ⟨p, hp, rfl⟩ := hdenotes
      obtain ⟨ps, hps, rfl⟩ := ih
      exact ⟨p :: ps, .cons ⟨_, rfl, hp⟩ hps, rfl⟩
  · rintro ⟨ps, hps, rfl⟩
    rw [List.forall₂_map_right_iff]
    rw [List.forall₂_map_left_iff] at hps
    refine hps.imp ?_
    rintro text p ⟨text', htext, hp⟩
    obtain rfl := Option.some.inj htext
    exact ⟨p, hp, rfl⟩

theorem at_front (hnul : ∀ c ∈ cs, c.toNat ≠ 0)
    (hstring : ((utf8 cs).length + 24) / 12 ≤ HB_MaxSize) (hbehind : behind ≠ [])
    (hheap : Willing ((utf16 cs).length + 1) heap) :
    At (cs.flatMap fromUnits ++ behind) behind 0 [] cs heap where
  mem := by rw [List.drop_zero, utf16_nil, List.nil_append]
  behind := hbehind
  nul := by
    rw [List.nil_append]
    exact hnul
  plain := by simp
  size := by
    rw [List.nil_append]
    exact hstring
  willing := hheap

theorem makesPieces_length {pChars mem : List UInt16}
    (h : MakesPieces fresh pChars mem limit 0 [] cs heap) :
    (ranges pChars limit 0 0 (cs.flatMap fromUnits)).length =
      (pieces (· ∈ pChars) limit (utf16 cs)).length := by
  obtain ⟨texts, heap', hall, hdenotes⟩ := makesPieces_fresh.mp h
  rw [← createAll_length hall, hdenotes.length_eq]

/-- `Split` is right if and only if there is memory for its arrays and the strings of the ranges
    are the pieces. -/
theorem splitsRight_iff (hnul : ∀ c ∈ cs, c.toNat ≠ 0) (hlen : (utf16 cs).length < 2 ^ 20)
    (hlimit : 1 ≤ limit) (hmax : maxStrings = limit) :
    SplitsRight fresh behind cs chars maxStrings heap ↔
      ArraysFit chars limit cs heap ∧
        MakesPieces fresh (separators chars) (cs.flatMap fromUnits ++ behind) limit 0 [] cs
          heap.extract.2.extract.2 := by
  rw [makesPieces_fresh]
  have hnat : maxStrings.toNat = limit := by omega
  constructor
  · rintro ⟨elements, hsplit, ps, hps, hpartition⟩
    by_cases hfit : ArraysFit chars limit cs heap
    · refine ⟨hfit, ?_⟩
      rw [split_fit hnul hlen hlimit hmax hfit] at hsplit
      obtain ⟨⟨created, heap'⟩, hall, hmap⟩ := Option.map_eq_some_iff.mp hsplit
      rcases created with code | texts
      · cases hmap
      obtain rfl := Except.ok.inj hmap
      rw [hnat, partition_iff hlimit] at hpartition
      exact ⟨texts, heap', hall, denotes_iff.mpr ⟨ps, hps, hpartition⟩⟩
    · rw [split_unfit hnul hlen hlimit hmax hfit] at hsplit
      cases hsplit
  · rintro ⟨hfit, texts, heap', hall, hdenotes⟩
    obtain ⟨ps, hps, hunits⟩ := denotes_iff.mp hdenotes
    refine ⟨texts.map some, ?_, ps, hps, ?_⟩
    · rw [split_fit hnul hlen hlimit hmax hfit, stringRanges, hall]
      rfl
    · rw [hnat, partition_iff hlimit]
      exact hunits

end Whole

/-- **`Split` returns the pieces of a string exactly if its arrays fit into a heap block and every
    supplementary character of the string is split away.** -/
theorem splitsRight_iff_intact (fresh : Nat → UInt8) (behind : List UInt16) (hbehind : behind ≠ [])
    (cs : List Char) (hnul : ∀ c ∈ cs, c.toNat ≠ 0)
    (hstring : ((utf8 cs).length + 24) / 12 ≤ HB_MaxSize) (chars : Option (List UInt16))
    (maxStrings : Int) (hpos : 1 ≤ maxStrings) (heap : Heap)
    (hheap : Willing ((utf16 cs).length + 3) heap) :
    SplitsRight fresh behind cs chars maxStrings heap ↔
      ((utf16 cs).length * 2 + 31) / 12 ≤ HB_MaxSize ∧
        ((pieces (· ∈ separators chars) maxStrings.toNat (utf16 cs)).length * 12 + 31) / 12 ≤
          HB_MaxSize ∧
        Intact (separators chars) maxStrings.toNat cs := by
  have hle := length_utf16_le cs
  have hunits := length_flatMap_fromUnits cs
  have hbound := hstring
  rw [HB_MaxSize] at hbound
  have hfront := @at_front behind _ cs hnul hstring hbehind hheap.extract.2.extract.2
  have hiff := @makesPieces_iff fresh (separators chars) _ behind cs maxStrings.toNat 0 [] _ hfront
    (by rw [List.length_nil]; omega)
  rw [splitsRight_iff hnul (by omega) (by omega) (Int.toNat_of_nonneg (by omega)).symm, hiff,
    ← and_assoc]
  refine and_congr_left fun hintact => ?_
  have hnumber := makesPieces_length (hiff.mpr hintact)
  rw [ArraysFit, Available, Available, stringRanges, hnumber, hheap.extract.1,
    hheap.extract.2.extract.1]
  simp only [and_true]
  rfl

/-- `"a b".Split( null, 2 )` -/
theorem splitsRight_iff_intact_spaced :
    SplitsRight (fun _ => 0) [0] ['a', ' ', 'b'] none 2 (List.replicate 6 true) ↔
      ((utf16 ['a', ' ', 'b']).length * 2 + 31) / 12 ≤ HB_MaxSize ∧
        ((pieces (· ∈ separators none) (2 : Int).toNat (utf16 ['a', ' ', 'b'])).length * 12 + 31) /
          12 ≤ HB_MaxSize ∧
        Intact (separators none) (2 : Int).toNat ['a', ' ', 'b'] :=
  splitsRight_iff_intact (fun _ => 0) [0] (by simp) _ (by simp) (by decide) none 2 (by decide) _
    ⟨[], rfl⟩

/-- U+10000 without separators comes back as U+20000. -/
theorem not_splitsRight_supplementary :
    ¬ SplitsRight (fun _ => 0) [0] [Char.ofNat 0x10000] none 1 (List.replicate 5 true) := by
  have hone : (1 : Int) = (1 : Nat) := rfl
  have hnul : ∀ c ∈ [Char.ofNat 0x10000], c.toNat ≠ 0 := by
    rw [List.forall_mem_singleton]
    decide
  rw [splitsRight_iff hnul (by decide) (Nat.le_refl 1) hone]
  rintro ⟨-, hpieces⟩
  have hfront := @at_front [0] (List.replicate 3 true) [Char.ofNat 0x10000] hnul (by decide)
    (by simp) ⟨[], rfl⟩
  have hintact := (makesPieces_iff _ 1 0 [] _ hfront (by decide)).mp hpieces
  rw [Intact, if_neg (by decide)] at hintact
  exact absurd hintact.1.1 (by decide)

end TinyClr.StringSplit
