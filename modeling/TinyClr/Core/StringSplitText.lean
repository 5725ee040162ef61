import TinyClr.Core.StringSplit

/-!
# Strings made of UTF-16 units

A range of units becomes the text of its characters if they are in the basic plane.  A supplementary
character that the decoder has mistaken is never made itself again: the bytes of the range cannot be
counted, or the text goes on with a character that is a plane higher.
-/

namespace TinyClr.StringSplit

open TinyClr.Library ArrayCreation FieldLayout UnicodeHelper StringChars

/-! ### Counting and encoding a range -/

theorem countBytesLoop_front (mem rest : List UInt16) (cs : List Char) :
    ∀ (fuel src : Nat) (max num : Int), (∀ c ∈ cs, c.toNat ≠ 0) →
      mem.drop src = utf16 cs ++ rest → (cs.length : Int) ≤ max → max < 2 ^ 31 → 0 ≤ num →
      num + (utf8 cs).length < 2 ^ 31 →
      countBytesLoop mem (fuel + cs.length) src max num =
        countBytesLoop mem fuel (src + (utf16 cs).length) (max - cs.length)
          (num + (utf8 cs).length) := by
  induction cs with
  | nil =>
    intro fuel src max num _ _ _ _ _ _
    simp
  | cons c cs ih =>
    intro fuel src max num hnul hmem hmax hhigh hnum hfit
    simp only [utf8_cons, utf16_cons, List.length_append, List.length_cons, List.append_assoc]
      at hmem hmax hfit ⊢
    have hafter : mem.drop (src + (utf16Char c).length) = utf16 cs ++ rest := by
      rw [← List.drop_drop, hmem, List.drop_left]
    rw [← Nat.add_assoc, countBytes_char (fuel + cs.length) (hnul c List.mem_cons_self) hmem
      (by omega), int32_eq_self (by omega) (by omega), int32_eq_self (by omega) (by omega),
      ih fuel _ _ _ (fun d hd => hnul d (List.mem_cons_of_mem c hd)) hafter (by omega) (by omega)
        (by omega) (by omega)]
    congr 1 <;> omega

variable {u : UInt16}

theorem countBytesLoop_stop {mem rest : List UInt16} {src : Nat} {u : UInt16} (num : Int)
    (fuel : Nat) (hmem : mem.drop src = u :: rest) :
    countBytesLoop mem (fuel + 1) src 0 num = some num := by
  rw [countBytesLoop, (read_head hmem).1]
  simp

theorem countBytesLoop_mono (mem : List UInt16) : ∀ (fuel src : Nat) (max num n : Int), 0 ≤ max →
    0 ≤ num → max < 2 ^ 31 → num + 4 * max < 2 ^ 30 →
    countBytesLoop mem fuel src max num = some n → n = -1 ∨ num ≤ n ∧ n < 2 ^ 30 := by
  intro fuel
  induction fuel with
  | zero => exact fun _ _ _ _ _ _ _ _ h => nomatch h
  | succ fuel ih =>
    intro src max num n hmax hnum hhigh hfit h
    rw [countBytesLoop] at h
    obtain ⟨ch, -, h⟩ := Option.bind_eq_some_iff.mp h
    dsimp only at h
    split at h
    · obtain rfl := Option.some.inj h
      omega
    split at h
    · obtain rfl := Option.some.inj h
      omega
    rw [int32_eq_self (by omega) (by omega)] at h
    have hstep : ∀ src' (k : Int), 0 ≤ k → k ≤ 4 →
        countBytesLoop mem fuel src' (max - 1) (int32 (num + k)) = some n →
        n = -1 ∨ num ≤ n ∧ n < 2 ^ 30 := by
      intro src' k hk hk' h'
      rw [int32_eq_self (by omega) (by omega)] at h'
      have hrest := ih src' (max - 1) (num + k) n (by omega) (by omega) (by omega) (by omega) h'
      omega
    split at h
    · exact hstep _ 1 (by omega) (by omega) h
    split at h
    · exact hstep _ 2 (by omega) (by omega) h
    split at h
    · exact Or.inl (Option.some.inj h).symm
    split at h
    · obtain ⟨low, -, h⟩ := Option.bind_eq_some_iff.mp h
      split at h
      · exact hstep _ 4 (by omega) (by omega) h
      · exact Or.inl (Option.some.inj h).symm
    · exact hstep _ 3 (by omega) (by omega) h

theorem countBytesLoop_low {mem rest : List UInt16} {src : Nat} {max : Int} (num : Int)
    (fuel : Nat) (hmem : mem.drop src = u :: rest) (hmax : max ≠ 0)
    (hlow : LOW_SURROGATE_START ≤ u.toNat ∧ u.toNat ≤ LOW_SURROGATE_END) :
    countBytesLoop mem (fuel + 1) src max num = some (-1) := by
  have hrange := hlow
  simp only [LOW_SURROGATE_START, LOW_SURROGATE_END] at hrange
  rw [countBytesLoop, (read_head hmem).1]
  simp only [Option.bind_eq_bind, Option.bind_some, if_neg hmax,
    if_neg (show ¬ u.toNat = 0 by omega), if_neg (show ¬ u.toNat < 0x80 by omega),
    if_neg (show ¬ u.toNat < 0x800 by omega), if_pos hlow]

variable {fJustMove : Bool}

theorem toLoop_done {mem : List UInt16} {s : ToState} (fuel : Nat)
    (h : ¬ 0 < s.maxChars) : toLoop mem fJustMove fuel s = some (.leave s) := by
  rw [toLoop.eq_def]
  exact if_neg h

/-- What is written stays in front of what follows. -/
def Flow.Extends (s : ToState) : Flow ToState → Prop
  | .again t | .leave t | .exitFalse t => ∃ more, t.output = s.output ++ more

theorem store_extends (fJustMove : Bool) (s : ToState) (input : Nat) (bytes : List UInt8)
    (maxChars : Int) : Flow.Extends s (s.store fJustMove input bytes maxChars) := by
  rw [ToState.store]
  split_ifs
  · exact ⟨[], (List.append_nil _).symm⟩
  · exact ⟨[], (List.append_nil _).symm⟩
  · exact ⟨bytes, rfl⟩

theorem toStep_extends {mem : List UInt16} {s : ToState} {flow : Flow ToState}
    (h : toStep mem fJustMove s = some flow) : Flow.Extends s flow := by
  obtain ⟨ch, -, h⟩ := Option.bind_eq_some_iff.mp h
  dsimp only at h
  split at h
  · split at h
    · obtain rfl := Option.some.inj h
      exact ⟨[], (List.append_nil _).symm⟩
    · obtain rfl := Option.some.inj h
      exact store_extends _ _ _ _ _
  split at h
  · obtain rfl := Option.some.inj h
    exact store_extends _ _ _ _ _
  split at h
  · obtain ⟨low, -, h⟩ := Option.bind_eq_some_iff.mp h
    obtain rfl := Option.some.inj h
    exact store_extends _ _ _ _ _
  · obtain rfl := Option.some.inj h
    exact store_extends _ _ _ _ _

theorem toLoop_extends {mem : List UInt16} : ∀ (fuel : Nat) (s : ToState)
    (flow : Flow ToState), toLoop mem fJustMove fuel s = some flow → Flow.Extends s flow := by
  intro fuel
  induction fuel with
  | zero =>
    intro s flow h
    by_cases hgo : 0 < s.maxChars
    · rw [toLoop, if_pos hgo] at h
      cases h
    · rw [toLoop, if_neg hgo] at h
      obtain rfl := Option.some.inj h
      exact ⟨[], (List.append_nil _).symm⟩
  | succ fuel ih =>
    intro s flow h
    rw [toLoop] at h
    split at h
    · rcases hstep : toStep mem fJustMove s with _ | next
      · rw [hstep] at h
        cases h
      have hextends := toStep_extends hstep
      rw [hstep] at h
      cases next with
      | again t =>
        obtain ⟨more, hmore⟩ := hextends
        have hrest := ih t flow h
        cases flow <;>
          · obtain ⟨more', hmore'⟩ := hrest
            exact ⟨more ++ more', by rw [hmore', hmore, List.append_assoc]⟩
      | leave t =>
        obtain rfl := Option.some.inj h
        exact hextends
      | exitFalse t =>
        obtain rfl := Option.some.inj h
        exact hextends
    · obtain rfl := Option.some.inj h
      exact ⟨[], (List.append_nil _).symm⟩

/-- What is converted begins with the characters in front, if they fit and the last of them is
    begun. -/
theorem convertToUTF8_front {mem rest : List UInt16} {start : Nat} {size maxChars : Int}
    {cs : List Char} {d : Char} {r : Converted UInt8} (hnul : ∀ e ∈ cs ++ [d], e.toNat ≠ 0)
    (hmem : mem.drop start = utf16 cs ++ (utf16Char d ++ rest))
    (hchars : ((utf16 cs).length : Int) < maxChars)
    (hsize : ((utf8 (cs ++ [d])).length : Int) ≤ size)
    (h : convertToUTF8 mem start size maxChars false = some r) :
    ∃ more, r.written = utf8 (cs ++ [d]) ++ more := by
  have hmemory := congrArg List.length hmem
  have hbounds := length_bounds d
  have hle := length_le_utf16 cs
  rw [List.length_drop, List.length_append, List.length_append] at hmemory
  simp only [utf8_append, utf8_cons, utf8_nil, List.append_nil, List.length_append] at hsize ⊢
  let s : ToState := { input := start, output := [], size := size, maxChars := maxChars }
  have hfront : toLoop mem false (mem.length + 1) s =
      toLoop mem false (mem.length - cs.length)
        ((s.after cs (toCharges cs)).after [d] (toCharge d)) := by
    have hafter : mem.drop (s.after cs (toCharges cs)).input = utf16Char d ++ rest := by
      simp only [s, ToState.after]
      rw [← List.drop_drop, hmem, List.drop_left]
    have hcharges : toCharges cs ≤ (utf16 cs).length := by
      clear hmem hmemory hle hchars hsize hafter hnul
      induction cs with
      | nil => exact Int.le_refl _
      | cons c cs ih =>
        have hc := toCharge_bounds c
        rw [toCharges_cons, utf16_cons, List.length_append]
        omega
    rw [show mem.length + 1 = (mem.length - cs.length + 1) + cs.length by omega,
      toLoop_chars mem _ cs _ s (fun c hc => hnul c (List.mem_append_left _ hc)) hmem
        (Int.le_of_lt hchars) (by simp only [s]; omega), toLoop,
      if_pos (by simp only [s, ToState.after]; omega),
      toStep_char (hnul d (List.mem_append_right _ (List.mem_singleton_self d))) hafter
        (by simp only [s, ToState.after]; omega)]
  rw [convertToUTF8] at h
  obtain ⟨flow, hflow, h⟩ := Option.bind_eq_some_iff.mp h
  have hextends := toLoop_extends _ _ _ (hfront.symm.trans hflow)
  have hwritten : ∀ (t : ToState) (res terminated : Bool),
      Flow.Extends ((s.after cs (toCharges cs)).after [d] (toCharge d)) (.again t) →
      ∃ more, (Converted.mk res t.input t.output t.size terminated).written =
        utf8 cs ++ String.utf8EncodeChar d ++ more := by
    rintro t res terminated ⟨more, hmore⟩
    simp only [s, ToState.after, List.nil_append, utf8_cons, utf8_nil, List.append_nil] at hmore
    rw [Converted.written]
    dsimp only
    rw [hmore]
    split
    · exact ⟨more ++ [0], List.append_assoc _ _ _⟩
    · exact ⟨more, rfl⟩
  cases flow with
  | again t =>
    dsimp only at h
    split_ifs at h <;>
      · obtain rfl := Option.some.inj h
        exact hwritten t _ _ hextends
  | leave t =>
    dsimp only at h
    split_ifs at h <;>
      · obtain rfl := Option.some.inj h
        exact hwritten t _ _ hextends
  | exitFalse t =>
    obtain rfl := Option.some.inj h
    exact hwritten t _ _ hextends

/-! ### New strings -/

section Strings

variable {fresh : Nat → UInt8} {mem rest : List UInt16} {start length : Nat} {heap heap' : Heap}
  {text : List UInt8} {cs ds : List Char}

/-- The memory of a text: its characters up to the terminating zero -/
def Text (text : List UInt8) (cs : List Char) : Prop :=
  (∀ c ∈ cs, c.toNat ≠ 0) ∧ ∃ rest, text = utf8 cs ++ 0 :: rest

theorem Text.front : ∀ {cs ds : List Char} {text more : List UInt8}, Text text cs →
    (∀ d ∈ ds, d.toNat ≠ 0) → text = utf8 ds ++ more → ∃ es, cs = ds ++ es
  | cs, [], _, _, _, _, _ => ⟨cs, rfl⟩
  | [], d :: ds, _, more, ⟨_, rest, htext⟩, hnul, hmore => by
      rw [htext, utf8_cons, List.append_assoc] at hmore
      have hzero : String.utf8EncodeChar (Char.ofNat 0) ++ rest =
        String.utf8EncodeChar d ++ (utf8 ds ++ more) := hmore
      obtain rfl := (utf8EncodeChar_append_inj hzero).1
      exact absurd rfl (hnul _ List.mem_cons_self)
  | c :: cs, d :: ds, text, more, ⟨hcs, rest, htext⟩, hnul, hmore => by
      rw [htext, utf8_cons, utf8_cons, List.append_assoc, List.append_assoc] at hmore
      obtain ⟨rfl, hrest⟩ := utf8EncodeChar_append_inj hmore
      obtain ⟨es, rfl⟩ := Text.front
        ⟨fun e he => hcs e (List.mem_cons_of_mem c he), rest, rfl⟩
        (fun e he => hnul e (List.mem_cons_of_mem c he)) hrest
      exact ⟨es, rfl⟩

theorem Text.unique (h : Text text cs) (h' : Text text ds) : cs = ds := by
  obtain ⟨rest, hrest⟩ := h'.2
  obtain ⟨rest', hrest'⟩ := h.2
  obtain ⟨es, rfl⟩ := h.front h'.1 hrest
  obtain ⟨es', hes'⟩ := h'.front h.1 hrest'
  have hnil := congrArg List.length hes'
  rw [List.length_append, List.length_append] at hnil
  rw [List.eq_nil_of_length_eq_zero (show es.length = 0 by omega), List.append_nil]

theorem createText_fits {k : Nat} (hsize : (k + 24) / 12 ≤ HB_MaxSize)
    (hheap : heap.extract = (true, heap')) :
    ∃ memory, createText fresh k heap = some (.ok memory, heap') ∧ k < memory.length := by
  have hle := hsize
  rw [HB_MaxSize] at hle
  have htotal : uint32 (sizeofHeapBlock + k + 1 : Nat) = k + 13 := by
    rw [uint32_nat (by rw [sizeofHeapBlock]; omega), sizeofHeapBlock]
    omega
  have hblocks : uint32 (k + 13 + 11 : Nat) / 12 = (k + 24) / 12 := by rw [uint32_nat (by omega)]
  have hroom : ((List.range ((k + 24) / 12 * sizeofHeapBlock - sizeofHeapBlock)).map fresh).length =
      (k + 24) / 12 * 12 - 12 := by
    rw [List.length_map, List.length_range, sizeofHeapBlock]
  simp only [createText, htotal, hblocks, hheap]
  generalize (List.range ((k + 24) / 12 * sizeofHeapBlock - sizeofHeapBlock)).map fresh = memory
    at hroom ⊢
  have hne : memory ≠ [] := by
    rintro rfl
    rw [List.length_nil] at hroom
    omega
  rw [if_neg (Nat.not_lt.mpr hsize), if_neg hne]
  refine ⟨_, rfl, ?_⟩
  rw [List.length_set]
  omega

theorem createText_wrapped (memory : List UInt8) (heap' : Heap) :
    createText fresh (uint32 (-1)) heap ≠ some (.ok memory, heap') := by
  intro h
  rw [createText] at h
  dsimp only at h
  split at h
  · cases h
  split at h
  · cases h
  · split at h
    · cases h
    next hroom => exact hroom rfl

theorem createString_uncounted
    (hcount : countNumberOfBytes mem start (int32 (length : Nat)) = some (-1)) :
    createString fresh mem start length heap ≠ some (.ok text, heap') := by
  intro h
  rw [createString, hcount, Option.bind_eq_bind, Option.bind_some] at h
  obtain ⟨⟨created, heap''⟩, hcreate, h⟩ := Option.bind_eq_some_iff.mp h
  rcases created with code | memory
  · cases h
  · exact createText_wrapped memory heap'' hcreate

theorem length_utf16_plain (hbmp : ∀ c ∈ cs, c.toNat < 0x10000) :
    (utf16 cs).length = cs.length := by
  induction cs with
  | nil => rfl
  | cons c cs ih =>
    rw [utf16_cons, List.length_append, utf16Char_of_lt (hbmp c List.mem_cons_self),
      ih fun d hd => hbmp d (List.mem_cons_of_mem c hd), List.length_cons]
    exact Nat.add_comm _ _

theorem toCharges_plain (hbmp : ∀ c ∈ cs, c.toNat < 0x10000) : toCharges cs = cs.length := by
  induction cs with
  | nil => rfl
  | cons c cs ih =>
    rw [toCharges_cons, ih fun d hd => hbmp d (List.mem_cons_of_mem c hd), toCharge,
      if_pos (hbmp c List.mem_cons_self), List.length_cons]
    omega

theorem createString_plain {u : UInt16} (hnul : ∀ c ∈ cs, c.toNat ≠ 0)
    (hbmp : ∀ c ∈ cs, c.toNat < 0x10000) (hmem : mem.drop start = utf16 cs ++ u :: rest)
    (hsize : ((utf8 cs).length + 24) / 12 ≤ HB_MaxSize) (hheap : heap.extract = (true, heap')) :
    ∃ text, createString fresh mem start (utf16 cs).length heap = some (.ok text, heap') ∧
      Text text cs := by
  have hle := hsize
  rw [HB_MaxSize] at hle
  have hunits := length_utf16_plain hbmp
  have hfits := length_utf16_le cs
  have hlength := congrArg List.length hmem
  rw [List.length_drop, List.length_append, List.length_cons] at hlength
  have hint : int32 ((utf16 cs).length : Nat) = (utf16 cs).length :=
    int32_eq_self (by omega) (by omega)
  have hcount : countNumberOfBytes mem start (utf16 cs).length = some ((utf8 cs).length : Int) := by
    rw [countNumberOfBytes, show mem.length + 1 = mem.length - cs.length + 1 + cs.length by omega,
      countBytesLoop_front mem (u :: rest) cs _ _ _ _ hnul hmem (by omega) (by omega) (by omega)
        (by omega), hunits, Int.sub_self, Int.zero_add]
    refine @countBytesLoop_stop mem rest _ u _ _ ?_
    rw [← hunits, ← List.drop_drop, hmem, List.drop_left]
  have hloop := (toLoop_chars mem (u :: rest) cs (mem.length + 1 - cs.length)
    { input := start, output := [], size := (utf8 cs).length + 1, maxChars := (utf16 cs).length }
    hnul hmem (Int.le_refl _) (by simp only; omega)).trans
    (toLoop_done _ (by simp only [ToState.after, toCharges_plain hbmp]; omega))
  rw [show mem.length + 1 - cs.length + cs.length = mem.length + 1 by omega] at hloop
  have hconvert : convertToUTF8 mem start ((utf8 cs).length + 1) (utf16 cs).length false =
      some ⟨true, start + (utf16 cs).length, utf8 cs, 1, true⟩ := by
    rw [convertToUTF8, hloop]
    simp only [ToState.after, List.nil_append, Option.bind_eq_bind, Option.bind_some,
      if_neg Bool.false_ne_true]
    rw [if_neg (by omega)]
    simp
  obtain ⟨memory, hcreate, hroom⟩ := @createText_fits fresh _ _ _ hsize hheap
  refine ⟨splice memory 0 (utf8 cs ++ [0]), ?_, hnul, memory.drop ((utf8 cs).length + 1), ?_⟩
  · rw [createString, hint, hcount, Option.bind_eq_bind, Option.bind_some, uint32_nat (by omega)]
    dsimp only
    rw [hcreate, Option.bind_eq_bind, Option.bind_some]
    dsimp only
    rw [uint32_nat (by omega), int32_eq_self (by omega) (by omega),
      show (((utf8 cs).length + 1 : Nat) : Int) = (utf8 cs).length + 1 from rfl, hconvert]
    simp only [Option.bind_eq_bind, Option.bind_some, Converted.written, if_true]
    rw [if_neg]
    rw [List.length_append, List.length_singleton]
    omega
  · rw [splice, List.take_zero, List.nil_append, Nat.zero_add, List.length_append,
      List.append_assoc]
    rfl

/-- The units the decoder stores for a supplementary character begin with a low surrogate, or are
    those of a character that is a plane higher. -/
theorem fromUnits_supplementary {c : Char} (hc : 0x10000 ≤ c.toNat) :
    (∃ u u', fromUnits c = [u, u'] ∧ LOW_SURROGATE_START ≤ u.toNat ∧ u.toNat ≤ LOW_SURROGATE_END) ∨
      ∃ d : Char, d.toNat = c.toNat + 0x10000 ∧ fromUnits c = utf16Char d := by
  have hrange := scalar_range c
  have hsupplementary : fromUnits c = [UInt16.ofNat (c.toNat / 0x400 + 0xD800),
      UInt16.ofNat (c.toNat % 0x400 + 0xDC00)] := if_neg (by omega)
  rcases Nat.lt_or_ge c.toNat 0x100000 with hlow | hhigh
  · have hvalue : (Char.ofNat (c.toNat + 0x10000)).toNat = c.toNat + 0x10000 := by
      rw [Char.ofNat, dif_pos (Or.inr ⟨by omega, by omega⟩)]
      rfl
    refine Or.inr ⟨Char.ofNat (c.toNat + 0x10000), hvalue, ?_⟩
    rw [utf16Char_of_le (by omega), hvalue, hsupplementary, Nat.add_sub_cancel,
      Nat.add_comm (c.toNat / 0x400), Nat.add_comm (c.toNat % 0x400)]
  · refine Or.inl ⟨_, _, hsupplementary, ?_⟩
    rw [toNat_unit (by omega), LOW_SURROGATE_START, LOW_SURROGATE_END]
    omega

theorem createString_supplementary {c : Char} (hnul : ∀ d ∈ cs, d.toNat ≠ 0)
    (hbmp : ∀ d ∈ cs, d.toNat < 0x10000) (hc : 0x10000 ≤ c.toNat)
    (hmem : mem.drop start = utf16 cs ++ (fromUnits c ++ rest)) (hlength : cs.length < length)
    (hsmall : length < 2 ^ 20) (hbytes : (utf8 cs).length < 2 ^ 20)
    (h : createString fresh mem start length heap = some (.ok text, heap')) :
    ∃ (d : Char) (more : List UInt8), d.toNat = c.toNat + 0x10000 ∧ fromUnits c = utf16Char d ∧
      text = utf8 (cs ++ [d]) ++ more := by
  have hunits := length_utf16_plain hbmp
  have hint : int32 (length : Nat) = length := int32_eq_self (by omega) (by omega)
  have hmemory := congrArg List.length hmem
  rw [List.length_drop, List.length_append, List.length_append, length_fromUnits] at hmemory
  have hbounds := length_bounds c
  have hcount : countNumberOfBytes mem start length =
      countBytesLoop mem (mem.length - cs.length + 1) (start + (utf16 cs).length)
        (length - cs.length) (utf8 cs).length := by
    rw [countNumberOfBytes, show mem.length + 1 = mem.length - cs.length + 1 + cs.length by omega,
      countBytesLoop_front mem (fromUnits c ++ rest) cs _ _ _ _ hnul hmem (by omega) (by omega)
        (by omega) (by omega), Int.zero_add]
  have hafter : mem.drop (start + (utf16 cs).length) = fromUnits c ++ rest := by
    rw [← List.drop_drop, hmem, List.drop_left]
  rcases fromUnits_supplementary hc with ⟨u, u', hfrom, hlow⟩ | ⟨d, hd, hfrom⟩
  · rw [hfrom] at hafter
    have hgivesUp : countNumberOfBytes mem start (int32 (length : Nat)) = some (-1) := by
      rw [hint, hcount]
      exact countBytesLoop_low _ _ hafter (by omega) hlow
    exact absurd h (createString_uncounted hgivesUp)
  refine ⟨d, ?_⟩
  have hall : ∀ e ∈ cs ++ [d], e.toNat ≠ 0 := by
    intro e he
    rcases List.mem_append.mp he with he | he
    · exact hnul e he
    · obtain rfl := List.mem_singleton.mp he
      omega
  have hmem' : mem.drop start = utf16 (cs ++ [d]) ++ rest := by
    rw [hmem, hfrom, utf16_append, utf16_cons, utf16_nil, List.append_nil, List.append_assoc]
  have hwidth : (utf8 (cs ++ [d])).length ≤ (utf8 cs).length + 4 := by
    have hfour := Char.utf8Size_le_four d
    rw [utf8_append, utf8_cons, utf8_nil, List.append_nil, List.length_append,
      String.length_utf8EncodeChar]
    omega
  rw [createString, hint] at h
  obtain ⟨n, hn, h⟩ := Option.bind_eq_some_iff.mp h
  have hgrows : n = -1 ∨ ((utf8 (cs ++ [d])).length : Int) ≤ n ∧ n < 2 ^ 30 := by
    rw [countNumberOfBytes, show mem.length + 1 = mem.length - (cs ++ [d]).length + 1 +
        (cs ++ [d]).length by rw [List.length_append, List.length_singleton]; omega,
      countBytesLoop_front mem rest (cs ++ [d]) _ _ _ _ hall hmem'
        (by rw [List.length_append, List.length_singleton]; omega) (by omega) (by omega) (by omega),
      Int.zero_add] at hn
    refine countBytesLoop_mono mem _ _ _ _ n ?_ (by omega) ?_ ?_ hn
    all_goals
      rw [List.length_append, List.length_singleton]
      omega
  obtain ⟨⟨created, heap''⟩, hcreate, h⟩ := Option.bind_eq_some_iff.mp h
  rcases created with code | memory
  · cases h
  rcases hgrows with rfl | ⟨hle, hhigh⟩
  · exact absurd hcreate (createText_wrapped memory heap'')
  · obtain ⟨read, hread, h⟩ := Option.bind_eq_some_iff.mp h
    split at h
    · cases h
    · have hword : uint32 n = n.toNat := uint32_eq_toNat (by omega) (by omega)
      rw [hword, uint32_nat (by omega), int32_eq_self (by omega) (by omega)] at hread
      rw [hfrom] at hmem
      obtain ⟨more, hmore⟩ := convertToUTF8_front hall hmem (by omega) (by omega) hread
      obtain ⟨htext, -⟩ := Prod.mk.inj (Option.some.inj h)
      refine ⟨more ++ memory.drop read.written.length, hd, hfrom, ?_⟩
      rw [← Except.ok.inj htext, splice, List.take_zero, List.nil_append, Nat.zero_add, hmore,
        List.append_assoc]

end Strings

end TinyClr.StringSplit
