import TinyClr.Core.StringSplitText

/-!
# The two passes of String.Split

Both passes walk over the same ranges of the decoded characters: the first one counts them, and the
second one puts a string for each into the array that was made for so many.
-/

namespace TinyClr.StringSplit

open TinyClr.Library ArrayCreation FieldLayout UnicodeHelper StringChars

/-! ### The ranges of a pass -/

section Ranges

variable {fresh : Nat → UInt8} {src behind pChars : List UInt16} {maxStrings : Int} {pass1 : Bool}

/-- Where the pieces of the units from `i` on begin and how long they are, the first one having
    begun at `start`; `limit` strings may come. -/
def ranges (pChars : List UInt16) : Nat → Nat → Nat → List UInt16 → List (Nat × Nat)
  | _, start, i, [] => [(start, i - start)]
  | limit, start, i, u :: us =>
      if 1 < limit ∧ u ∈ pChars then
        (start, i - start) :: ranges pChars (limit - 1) (i + 1) (i + 1) us
      else ranges pChars limit start (i + 1) us

/-- The strings of ranges, one after the other -/
def createAll (fresh : Nat → UInt8) (mem : List UInt16) :
    List (Nat × Nat) → Heap → Option (HResultOr (List (List UInt8)) × Heap)
  | [], heap => some (.ok [], heap)
  | (start, length) :: rs, heap => do
      match ← createString fresh mem start length heap with
      | (.error code, heap) => some (.error code, heap)
      | (.ok text, heap) =>
          match ← createAll fresh mem rs heap with
          | (.error code, heap) => some (.error code, heap)
          | (.ok texts, heap) => some (.ok (text :: texts), heap)

structure Searching (maxStrings : Int) (limit : Nat) (s : Pass) : Prop where
  count : 0 ≤ s.count
  sum : s.count + limit = maxStrings
  pos : 1 ≤ limit
  search : s.fContinueSearching = true ∨ limit = 1

theorem find_end {s : Pass} :
    find src pChars maxStrings src.length s = some (true, s.fContinueSearching) := if_pos rfl

theorem find_unit {i limit : Nat} {u : UInt16} {us : List UInt16} {s : Pass}
    (hs : Searching maxStrings limit s) (hcount : s.count + 1 < 2 ^ 31)
    (hsrc : src.drop i = u :: us) :
    ∃ f, find src pChars maxStrings i s = some (decide (1 < limit ∧ u ∈ pChars), f) ∧
      (f = true ∨ limit = 1) := by
  obtain ⟨hread, -⟩ := read_head hsrc
  have hlt : i < src.length := by
    by_contra hge
    rw [List.drop_of_length_le (Nat.not_lt.mp hge)] at hsrc
    cases hsrc
  have hlow := hs.count
  have hsum := hs.sum
  have hpos := hs.pos
  have hnext : int32 (s.count + 1) = s.count + 1 := int32_eq_self (by omega) hcount
  rw [find, if_neg (Nat.ne_of_lt hlt), hnext]
  by_cases hone : limit = 1
  · rw [if_pos (by omega)]
    refine ⟨false, ?_, Or.inr hone⟩
    rw [decide_eq_false (by omega)]
  · rw [if_neg (by omega), if_pos (hs.search.resolve_right hone), hread]
    refine ⟨true, ?_, Or.inl rfl⟩
    simp only [Option.bind_eq_bind, Option.bind_some, List.contains_eq_mem]
    rw [decide_eq_decide.mpr]
    exact ⟨fun h => ⟨by omega, h⟩, fun h => h.2⟩

theorem splitLoop_counts (us : List UInt16) : ∀ (limit start i : Nat) (s : Pass),
    Searching maxStrings limit s → s.count + us.length + 1 < 2 ^ 31 → src.drop i = us →
      i + us.length = src.length →
      ∃ t, splitLoop fresh src behind pChars maxStrings false (us.length + 1) i s = some (.ok t) ∧
        t.count = s.count + (ranges pChars limit start i us).length := by
  induction us with
  | nil =>
    intro limit start i s hs hcount hsrc hend
    obtain rfl : i = src.length := by simpa using hend
    have hlow := hs.count
    rw [List.length_nil] at hcount
    refine ⟨{ s with count := int32 (s.count + 1) }, ?_, ?_⟩
    · rw [splitLoop, splitStep, find_end]
      rfl
    · rw [ranges, List.length_singleton]
      exact int32_eq_self (by omega) (by omega)
  | cons u us ih =>
    intro limit start i s hs hcount hsrc hend
    have hlow := hs.count
    have hsum := hs.sum
    rw [List.length_cons] at hcount hend
    obtain ⟨f, hfind, hsearch⟩ := @find_unit src pChars maxStrings _ _ _ _ _ hs (by omega) hsrc
    have hnext : int32 (s.count + 1) = s.count + 1 := int32_eq_self (by omega) (by omega)
    rw [List.length_cons, splitLoop, splitStep, hfind, ranges]
    by_cases hsep : 1 < limit ∧ u ∈ pChars
    · have hs' : Searching maxStrings (limit - 1)
          { s with count := int32 (s.count + 1), fContinueSearching := f } :=
        ⟨by simp only [hnext]; omega, by simp only [hnext]; omega, by omega,
          Or.inl (hsearch.resolve_right (by omega))⟩
      obtain ⟨t, hloop, ht⟩ := ih (limit - 1) (i + 1) (i + 1) _ hs'
        (by simp only [hnext]; omega) (read_head hsrc).2 (by omega)
      refine ⟨t, ?_, ?_⟩
      · simp only [decide_eq_true hsep, Option.bind_eq_bind, Option.bind_some, if_true,
          Bool.false_eq_true, if_false]
        exact hloop
      · rw [if_pos hsep, ht, List.length_cons]
        simp only [hnext]
        omega
    · have hs' : Searching maxStrings limit { s with fContinueSearching := f } :=
        ⟨hlow, hsum, hs.pos, hsearch⟩
      obtain ⟨t, hloop, ht⟩ := ih limit start (i + 1) _ hs' (by simp only; omega)
        (read_head hsrc).2 (by omega)
      refine ⟨t, ?_, ?_⟩
      · simp only [decide_eq_false hsep, Option.bind_eq_bind, Option.bind_some,
          Bool.false_eq_true, if_false]
        exact hloop
      · rw [if_neg hsep]
        exact ht

def put (arrayDst : List (Option (List UInt8))) (count : Nat) (texts : List (List UInt8)) :
    List (Option (List UInt8)) := splice arrayDst count (texts.map some)

theorem put_nil (arrayDst : List (Option (List UInt8))) (count : Nat) :
    put arrayDst count [] = arrayDst := by
  rw [put, splice, List.map_nil, List.append_nil, List.length_nil, Nat.add_zero,
    List.take_append_drop]

theorem put_cons {arrayDst : List (Option (List UInt8))} {count : Nat} {text : List UInt8}
    (texts : List (List UInt8)) (hlt : count < arrayDst.length) :
    put (arrayDst.set count (some text)) (count + 1) texts =
      put arrayDst count (text :: texts) := by
  rw [put, put, splice, splice, List.take_succ_eq_append_getElem (by rw [List.length_set]; omega),
    List.getElem_set_self, List.take_set_of_le (Nat.le_refl _), List.map_cons, List.length_cons,
    List.drop_set_of_lt (by omega), List.append_assoc, List.append_assoc, List.append_assoc,
    Nat.add_assoc, Nat.add_comm 1]
  rfl

theorem splitLoop_fills (us : List UInt16) : ∀ (limit i : Nat) (s : Pass),
    Searching maxStrings limit s → s.count + us.length + 1 < 2 ^ 31 → src.drop i = us →
      i + us.length = src.length →
      s.count.toNat + (ranges pChars limit s.pSrcStart i us).length ≤ s.arrayDst.length →
      (splitLoop fresh src behind pChars maxStrings true (us.length + 1) i s).map
          (Except.map Pass.arrayDst) =
        (createAll fresh (src ++ behind) (ranges pChars limit s.pSrcStart i us) s.heap).map
          fun r => r.1.map (put s.arrayDst s.count.toNat) := by
  induction us with
  | nil =>
    intro limit i s hs hcount hsrc hend hroom
    obtain rfl : i = src.length := by simpa using hend
    have hlow := hs.count
    rw [ranges, List.length_singleton] at hroom
    have hplace : ¬ (s.count < 0 ∨ s.arrayDst.length ≤ s.count.toNat) := by omega
    rw [splitLoop, splitStep, find_end, ranges, createAll]
    simp only [Option.bind_eq_bind, Option.bind_some, if_true, if_neg hplace]
    rcases createString fresh (src ++ behind) s.pSrcStart (src.length - s.pSrcStart) s.heap with
      _ | ⟨code | text, heap⟩
    · rfl
    · rfl
    · refine congrArg some (congrArg Except.ok ?_)
      rw [← put_cons [] (by omega), put_nil]
  | cons u us ih =>
    intro limit i s hs hcount hsrc hend hroom
    have hlow := hs.count
    have hsum := hs.sum
    rw [List.length_cons] at hcount hend
    obtain ⟨f, hfind, hsearch⟩ := @find_unit src pChars maxStrings _ _ _ _ _ hs (by omega) hsrc
    have hnext : int32 (s.count + 1) = s.count + 1 := int32_eq_self (by omega) (by omega)
    rw [List.length_cons, splitLoop, splitStep, hfind]
    by_cases hsep : 1 < limit ∧ u ∈ pChars
    · rw [ranges, if_pos hsep, List.length_cons] at hroom
      have hplace : ¬ (s.count < 0 ∨ s.arrayDst.length ≤ s.count.toNat) := by omega
      rw [ranges, if_pos hsep, createAll]
      simp only [decide_eq_true hsep, Option.bind_eq_bind, Option.bind_some, if_true,
        if_neg hplace]
      rcases createString fresh (src ++ behind) s.pSrcStart (i - s.pSrcStart) s.heap with
        _ | ⟨code | text, heap⟩
      · rfl
      · rfl
      · have hs' : Searching maxStrings (limit - 1)
            { pSrcStart := i + 1, count := int32 (s.count + 1), fContinueSearching := f,
              arrayDst := s.arrayDst.set s.count.toNat (some text), heap := heap } :=
          ⟨by simp only [hnext]; omega, by simp only [hnext]; omega, by omega,
            Or.inl (hsearch.resolve_right (by omega))⟩
        have hplaces : (int32 (s.count + 1)).toNat = s.count.toNat + 1 := by omega
        have hrest := ih (limit - 1) (i + 1) _ hs' (by simp only [hnext]; omega)
          (read_head hsrc).2 (by omega)
          (by simp only [hplaces, List.length_set]; omega)
        simp only [Option.bind_some, hrest, hplaces]
        rcases createAll fresh (src ++ behind) (ranges pChars (limit - 1) (i + 1) (i + 1) us) heap
          with _ | ⟨code | texts, heap'⟩
        · rfl
        · rfl
        · refine congrArg some (congrArg Except.ok ?_)
          exact put_cons texts (by omega)
    · have hs' : Searching maxStrings limit { s with fContinueSearching := f } :=
        ⟨hlow, hsum, hs.pos, hsearch⟩
      rw [ranges, if_neg hsep] at hroom
      simp only [decide_eq_false hsep, Option.bind_eq_bind, Option.bind_some,
        Bool.false_eq_true, if_false]
      rw [ranges, if_neg hsep]
      exact ih limit (i + 1) _ hs' (by simp only; omega) (read_head hsrc).2 (by omega) hroom

end Ranges

/-! ### The strings of a split -/

section Split

variable {fresh : Nat → UInt8} {behind : List UInt16} {chars : Option (List UInt16)}
  {maxStrings : Int} {limit : Nat} {heap heap' : Heap} {cs : List Char}

theorem createAll_cons {mem : List UInt16} {start length : Nat} {rs : List (Nat × Nat)}
    {texts : List (List UInt8)} :
    createAll fresh mem ((start, length) :: rs) heap = some (.ok texts, heap') ↔
      ∃ text left texts', createString fresh mem start length heap = some (.ok text, left) ∧
        createAll fresh mem rs left = some (.ok texts', heap') ∧ texts = text :: texts' := by
  rw [createAll]
  rcases createString fresh mem start length heap with _ | ⟨code | text, left⟩
  · simp
  · simp
  · simp only [Option.bind_eq_bind, Option.bind_some, Option.some.injEq, Prod.mk.injEq,
      Except.ok.injEq]
    constructor
    · intro h
      obtain ⟨⟨created, left'⟩, hrest, h⟩ := Option.bind_eq_some_iff.mp h
      rcases created with code | texts'
      · cases h
      · obtain ⟨htexts, rfl⟩ := Prod.mk.inj (Option.some.inj h)
        exact ⟨text, left, texts', ⟨rfl, rfl⟩, hrest, (Except.ok.inj htexts).symm⟩
    · rintro ⟨_, _, texts', ⟨rfl, rfl⟩, hrest, rfl⟩
      rw [hrest]
      rfl

theorem createAll_length {mem : List UInt16} : ∀ {rs : List (Nat × Nat)} {heap heap' : Heap}
    {texts : List (List UInt8)}, createAll fresh mem rs heap = some (.ok texts, heap') →
      texts.length = rs.length
  | [], _, _, _, h => by
      obtain ⟨htexts, -⟩ := Prod.mk.inj (Option.some.inj h)
      rw [← Except.ok.inj htexts]
      rfl
  | (_, _) :: rs, _, _, _, h => by
      obtain ⟨text, left, texts', -, hrest, rfl⟩ := createAll_cons.mp h
      rw [List.length_cons, List.length_cons, createAll_length hrest]

def stringRanges (chars : Option (List UInt16)) (limit : Nat) (cs : List Char) :
    List (Nat × Nat) := ranges (separators chars) limit 0 0 (cs.flatMap fromUnits)

/-- There is memory for the two arrays: the characters and the strings. -/
def ArraysFit (chars : Option (List UInt16)) (limit : Nat) (cs : List Char) (heap : Heap) : Prop :=
  Available .char (utf16 cs).length heap ∧
    Available .string (stringRanges chars limit cs).length heap.extract.2

theorem searching_start {arrayDst : List (Option (List UInt8))} (hlimit : 1 ≤ limit)
    (hmax : maxStrings = limit) :
    Searching maxStrings limit ⟨0, 0, true, arrayDst, heap⟩ :=
  ⟨Int.le_refl 0, by simp only; omega, hlimit, Or.inl rfl⟩

theorem ranges_length_le (pChars : List UInt16) (limit start i : Nat) (us : List UInt16) :
    (ranges pChars limit start i us).length ≤ us.length + 1 := by
  induction us generalizing limit start i with
  | nil => exact Nat.le_refl 1
  | cons u us ih =>
    rw [ranges, List.length_cons]
    split
    · exact Nat.succ_le_succ (ih _ _ _)
    · exact Nat.le_succ_of_le (ih _ _ _)

theorem splitPass_counts (hlen : (utf16 cs).length < 2 ^ 20) (hlimit : 1 ≤ limit)
    (hmax : maxStrings = limit) :
    ∃ t, splitPass fresh (cs.flatMap fromUnits) behind (separators chars) maxStrings false [] heap =
        some (.ok t) ∧ t.count = ((stringRanges chars limit cs).length : Nat) := by
  have hunits := length_flatMap_fromUnits cs
  obtain ⟨t, hpass, hcount⟩ := @splitLoop_counts fresh (cs.flatMap fromUnits) behind
    (separators chars) maxStrings (cs.flatMap fromUnits) limit 0 0 _
    (@searching_start _ _ heap [] hlimit hmax)
    (by simp only; omega) rfl (by omega)
  refine ⟨t, hpass, ?_⟩
  rw [hcount, Int.zero_add]
  rfl

theorem split_unfit (hnul : ∀ c ∈ cs, c.toNat ≠ 0) (hlen : (utf16 cs).length < 2 ^ 20)
    (hlimit : 1 ≤ limit) (hmax : maxStrings = limit) (h : ¬ ArraysFit chars limit cs heap) :
    split fresh behind (some (utf8 cs ++ [0])) chars maxStrings heap =
      some (.error .outOfMemory) := by
  have hunits := length_flatMap_fromUnits cs
  have hle := ranges_length_le (separators chars) limit 0 0 (cs.flatMap fromUnits)
  rw [split, if_neg (by omega), if_neg (by omega)]
  by_cases hchars : Available .char (utf16 cs).length heap
  · obtain ⟨t, hpass, hcount⟩ :=
      @splitPass_counts fresh behind chars maxStrings limit heap.extract.2 cs hlen hlimit hmax
    have hstrings : ¬ Available .string (stringRanges chars limit cs).length heap.extract.2 :=
      fun hstrings => h ⟨hchars, hstrings⟩
    obtain ⟨heap', hcreate⟩ := @createInstance_unavailable _ (none : Option (List UInt8)) _ _ _
      (by rw [stringRanges]; omega)
      (by rw [stringRanges, show (sizeInBytes .string).toNat = 12 from rfl]; omega) hstrings
    rw [convertToCharArray_available hnul (by omega) hchars, Option.bind_eq_bind, Option.bind_some]
    dsimp only
    rw [hpass, Option.bind_eq_bind, Option.bind_some]
    dsimp only
    rw [hcount, hcreate]
    rfl
  · obtain ⟨heap', hconvert⟩ := @convertToCharArray_unavailable cs [] heap hnul (by omega) hchars
    rw [hconvert]
    rfl

theorem bind_arrayDst (filled : Option (HResultOr Pass)) :
    (filled.bind fun filled =>
      match filled with
      | .error code => some (.error code)
      | .ok filled => some (.ok filled.arrayDst)) = filled.map (Except.map Pass.arrayDst) := by
  rcases filled with _ | _ | _
  · rfl
  · rfl
  · rfl

theorem split_fit (hnul : ∀ c ∈ cs, c.toNat ≠ 0) (hlen : (utf16 cs).length < 2 ^ 20)
    (hlimit : 1 ≤ limit) (hmax : maxStrings = limit) (h : ArraysFit chars limit cs heap) :
    split fresh behind (some (utf8 cs ++ [0])) chars maxStrings heap =
      (createAll fresh (cs.flatMap fromUnits ++ behind) (stringRanges chars limit cs)
        heap.extract.2.extract.2).map fun r => r.1.map (List.map some) := by
  obtain ⟨hchars, hstrings⟩ := h
  have hunits := length_flatMap_fromUnits cs
  have hle := ranges_length_le (separators chars) limit 0 0 (cs.flatMap fromUnits)
  obtain ⟨t, hpass, hcount⟩ :=
    @splitPass_counts fresh behind chars maxStrings limit heap.extract.2 cs hlen hlimit hmax
  have hcreate := @createInstance_available _ (none : Option (List UInt8)) _ _ _
    (by rw [stringRanges]; omega)
    (by rw [stringRanges, show (sizeInBytes .string).toNat = 12 from rfl]; omega) hstrings
  have hfill := @splitLoop_fills fresh (cs.flatMap fromUnits) behind (separators chars) maxStrings
    (cs.flatMap fromUnits) limit 0 _ (@searching_start _ _ heap.extract.2.extract.2
      (List.replicate (stringRanges chars limit cs).length none) hlimit hmax)
    (by simp only; omega) rfl (by omega)
    (by rw [List.length_replicate]; exact Nat.le_of_eq (Nat.zero_add _))
  rw [split, if_neg (by omega), if_neg (by omega),
    convertToCharArray_available hnul (by omega) hchars, Option.bind_eq_bind, Option.bind_some]
  dsimp only
  rw [hpass, Option.bind_eq_bind, Option.bind_some]
  dsimp only
  rw [hcount, hcreate, Option.bind_eq_bind, Option.bind_some]
  dsimp only
  refine (bind_arrayDst _).trans (hfill.trans ?_)
  change (createAll fresh _ (stringRanges chars limit cs) _).map _ = _
  rcases hall : createAll fresh (cs.flatMap fromUnits ++ behind) (stringRanges chars limit cs)
    heap.extract.2.extract.2 with _ | ⟨code | texts, left⟩
  · rfl
  · rfl
  · have htexts := createAll_length hall
    refine congrArg some (congrArg Except.ok ?_)
    rw [put, splice, Int.toNat_zero, List.take_zero, List.nil_append, Nat.zero_add,
      List.drop_of_length_le (by rw [List.length_map, List.length_replicate, htexts]),
      List.append_nil]

end Split

end TinyClr.StringSplit
