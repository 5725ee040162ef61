import TinyClr.Drivers.FatShortNameSpec
import Mathlib.Data.List.GetD
import Mathlib.Data.Nat.Digits.Lemmas

/-!
# When a short name is new

`LongToShortName` collects the numbers of the tails that exist and takes the first one that is
free.  The name it makes is new unless the basis has a `'~'` of its own in the place of the tail's,
or the map of 512 numbers is full.
-/

namespace TinyClr.ShortName

/-! ### The basis -/

theorem setBasisNameChar_ne {c : UInt16} {b : UInt8} {needsTrail : Bool}
    (h : setBasisNameChar c = (some b, needsTrail)) : b ≠ WHITESPACE_CHAR := by
  have hlt := c.toNat_lt
  intro heq
  subst heq
  rw [setBasisNameChar] at h
  split at h
  · rename_i hcase
    rw [UInt16.le_iff_toNat_le, UInt16.le_iff_toNat_le] at hcase
    obtain ⟨hlow, hhigh⟩ : 97 ≤ c.toNat ∧ c.toNat ≤ 122 := hcase
    have hval := congrArg UInt8.toNat (Option.some.inj (Prod.mk.inj h).1)
    rw [UInt16.toNat_toUInt8, UInt16.toNat_sub_of_le _ _ (by
      rw [UInt16.le_iff_toNat_le]
      change 32 ≤ _
      omega)] at hval
    change (c.toNat - 32) % 256 = 32 at hval
    omega
  split at h
  · exact absurd (Option.some.inj (Prod.mk.inj h).1) (by decide)
  split at h
  · rename_i hlarge hcase
    have hval := congrArg UInt8.toNat (Option.some.inj (Prod.mk.inj h).1)
    rw [UInt16.toNat_toUInt8] at hval
    rw [not_or, gt_iff_lt, UInt16.lt_iff_toNat_lt] at hlarge
    have hle : c.toNat ≤ 255 := Nat.not_lt.mp hlarge.1
    refine hcase.1 (UInt16.toNat_inj.mp ?_)
    change c.toNat % 256 = 32 at hval
    change c.toNat = 32
    omega
  · exact nomatch (Prod.mk.inj h).1

theorem basisChars_spec (cs : List UInt16) : ∀ room, (basisChars cs room).1.length ≤ room ∧
    ∀ b ∈ (basisChars cs room).1, b ≠ WHITESPACE_CHAR := by
  induction cs with
  | nil => exact fun room => ⟨Nat.zero_le _, fun b hb => absurd hb List.not_mem_nil⟩
  | cons c cs ih =>
    intro room
    cases room with
    | zero => exact ⟨Nat.zero_le _, fun b hb => absurd hb List.not_mem_nil⟩
    | succ room =>
      rw [basisChars]
      rcases hset : setBasisNameChar c with ⟨_ | b, needsTrail⟩
      · exact ih (room + 1)
      · obtain ⟨hlen, hblank⟩ := ih room
        refine ⟨Nat.succ_le_succ hlen, fun b' hb' => ?_⟩
        rcases List.mem_cons.mp hb' with rfl | hb'
        · exact setBasisNameChar_ne hset
        · exact hblank b' hb'

def baseOf (shortName : Name) : Name := (shortName.take SHORTNAME_SIZE).takeWhile (· ≠ WHITESPACE_CHAR)

def extOf (shortName : Name) : Name := shortName.drop SHORTNAME_SIZE

structure Padded (shortName : Name) : Prop where
  eq : shortName = pad SHORTNAME_SIZE (baseOf shortName) ++ extOf shortName
  length : (baseOf shortName).length ≤ SHORTNAME_SIZE
  extLength : (extOf shortName).length = SHORTNAME_FULL_SIZE - SHORTNAME_SIZE
  blank : ∀ c ∈ baseOf shortName, c ≠ WHITESPACE_CHAR

theorem takeWhile_pad {chars : Name} (h : ∀ c ∈ chars, c ≠ WHITESPACE_CHAR) (size : Nat) :
    (pad size chars).takeWhile (· ≠ WHITESPACE_CHAR) = chars := by
  rw [pad, List.takeWhile_append_of_pos fun c hc => decide_eq_true (h c hc)]
  rcases size - chars.length with _ | s
  · exact List.append_nil _
  · rw [List.replicate_succ, List.takeWhile_cons_of_neg (by simp), List.append_nil]

theorem generateBasisName_padded (fileName : List UInt16) : Padded (generateBasisName fileName).1 := by
  obtain ⟨base, ext, hname⟩ : ∃ base ext, (generateBasisName fileName).1
      = pad SHORTNAME_SIZE (basisChars base SHORTNAME_SIZE).1
        ++ pad (SHORTNAME_FULL_SIZE - SHORTNAME_SIZE)
          (basisChars ext (SHORTNAME_FULL_SIZE - SHORTNAME_SIZE)).1 := ⟨_, _, rfl⟩
  obtain ⟨hlen, hblank⟩ := basisChars_spec base SHORTNAME_SIZE
  have hext := (basisChars_spec ext (SHORTNAME_FULL_SIZE - SHORTNAME_SIZE)).1
  have hsize := length_pad hlen
  have hbase : baseOf (generateBasisName fileName).1 = (basisChars base SHORTNAME_SIZE).1 := by
    rw [baseOf, hname, List.take_left' hsize, takeWhile_pad hblank]
  have hextOf : extOf (generateBasisName fileName).1
      = pad (SHORTNAME_FULL_SIZE - SHORTNAME_SIZE)
        (basisChars ext (SHORTNAME_FULL_SIZE - SHORTNAME_SIZE)).1 := by
    rw [extOf, hname, List.drop_left' hsize]
  exact ⟨by rw [hbase, hextOf, hname], by rw [hbase]; exact hlen,
    by rw [hextOf]; exact length_pad hext, by rw [hbase]; exact hblank⟩

variable {shortName : Name}

theorem Padded.length_eq (h : Padded shortName) :
    shortName.length = SHORTNAME_FULL_SIZE := by
  rw [h.eq, List.length_append, length_pad h.length, h.extLength]
  rfl

/-! ### Collecting the tails -/

/-- Some file of the directory, which is not the volume label, is `tail` to the basis. -/
def Exists (entries : List Entry) (shortName : Name) (tail : Tail) : Prop :=
  ∃ dirEntry ∈ entries, dirEntry.DIR_Attr ≠ ATTR_VOLUME_ID ∧
    tailOf dirEntry.DIR_Name shortName = tail

variable {entries : List Entry}

theorem exists_cons {dirEntry : Entry} {tail : Tail} :
    Exists (dirEntry :: entries) shortName tail ↔
      (dirEntry.DIR_Attr ≠ ATTR_VOLUME_ID ∧ tailOf dirEntry.DIR_Name shortName = tail) ∨
        Exists entries shortName tail := by
  rw [Exists, Exists, List.exists_mem_cons_iff]

theorem collectTails_none
    (h : Exists entries shortName (.number 0)) :
    ∀ needsTail availableMap, collectTails shortName entries needsTail availableMap = none := by
  induction entries with
  | nil =>
    obtain ⟨e, he, -⟩ := h
    exact absurd he List.not_mem_nil
  | cons dirEntry entries ih =>
    intro needsTail availableMap
    rw [collectTails]
    rcases exists_cons.mp h with ⟨hattr, htail⟩ | hrest
    · rw [if_neg hattr, collectNumTail, htail]
      rfl
    · split
      · exact ih hrest _ _
      · rcases collectNumTail dirEntry.DIR_Name shortName availableMap with _ | ⟨same, map⟩
        · rfl
        · exact ih hrest _ _

variable {map : Map}

/-- One entry, which does not have the number 0 -/
theorem collectNumTail_spec {fileName : Name}
    (hlen : map.length = SHORTNAME_CONVERSION_MAP_SIZE)
    (hzero : tailOf fileName shortName ≠ .number 0) :
    ∃ same map', collectNumTail fileName shortName map = some (same, map') ∧
      map'.length = SHORTNAME_CONVERSION_MAP_SIZE ∧
      (same = true ↔ tailOf fileName shortName = .same) ∧
      ∀ j < SHORTNAME_CONVERSION_MAP_SIZE, (map'.getD j false = true ↔
        map.getD j false = true ∨ tailOf fileName shortName = .number (j + 1)) := by
  rw [collectNumTail]
  rcases htail : tailOf fileName shortName with _ | _ | num
  · exact ⟨false, map, rfl, hlen, by simp, fun j _ => by simp⟩
  · exact ⟨true, map, rfl, hlen, by simp, fun j _ => by simp⟩
  · rw [htail] at hzero
    have hpos : num ≠ 0 := fun h => hzero (by rw [h])
    dsimp only
    by_cases hle : num ≤ SHORTNAME_CONVERSION_MAP_SIZE
    · have hwrap : (num + (2 ^ 32 - 1)) % 2 ^ 32 = num - 1 := by
        rw [SHORTNAME_CONVERSION_MAP_SIZE] at hle
        omega
      rw [if_pos hle, hwrap, if_pos (by omega)]
      refine ⟨false, _, rfl, by rw [List.length_set, hlen], by simp, fun j hj => ?_⟩
      rw [Tail.number.injEq, List.getD_eq_getElem?_getD, List.getD_eq_getElem?_getD]
      by_cases hj' : num - 1 = j
      · rw [hj', List.getElem?_set_self (by omega)]
        exact iff_of_true rfl (Or.inr (by omega))
      · rw [List.getElem?_set_ne hj', or_iff_left (by omega)]
    · rw [if_neg hle]
      refine ⟨false, map, rfl, hlen, by simp, fun j hj => ?_⟩
      rw [Tail.number.injEq, or_iff_left (by omega)]

/-- What is known when all tails have been collected -/
theorem collectTails_spec {shortName : Name} {entries : List Entry} :
    ∀ {needsTail : Bool} {map : Map}, map.length = SHORTNAME_CONVERSION_MAP_SIZE →
      ¬ Exists entries shortName (.number 0) →
      ∃ needsTail' map', collectTails shortName entries needsTail map = some (needsTail', map') ∧
        map'.length = SHORTNAME_CONVERSION_MAP_SIZE ∧
        (needsTail' = true ↔ needsTail = true ∨ Exists entries shortName .same) ∧
        ∀ j < SHORTNAME_CONVERSION_MAP_SIZE, (map'.getD j false = true ↔
          map.getD j false = true ∨ Exists entries shortName (.number (j + 1))) := by
  induction entries with
  | nil =>
    intro needsTail map hlen _
    have hnone (tail : Tail) : ¬ Exists [] shortName tail := fun ⟨e, he, _⟩ =>
      absurd he List.not_mem_nil
    refine ⟨needsTail, map, rfl, hlen, ?_, fun j _ => ?_⟩
    · rw [or_iff_left (hnone _)]
    · rw [or_iff_left (hnone _)]
  | cons dirEntry entries ih =>
    intro needsTail map hlen hzero
    rw [exists_cons, not_or] at hzero
    rw [collectTails]
    by_cases hattr : dirEntry.DIR_Attr = ATTR_VOLUME_ID
    · obtain ⟨needsTail', map', hrun, hlen', hneeds, hmap⟩ := @ih needsTail map hlen hzero.2
      have hskip (tail : Tail) :
          Exists (dirEntry :: entries) shortName tail ↔ Exists entries shortName tail := by
        rw [exists_cons]
        exact or_iff_right fun h => h.1 hattr
      refine ⟨needsTail', map', by rw [if_pos hattr, hrun], hlen', ?_, fun j hj => ?_⟩
      · rw [hneeds, hskip]
      · rw [hmap j hj, hskip]
    · obtain ⟨same, map₁, hone, hlen₁, hsame, hmap₁⟩ :=
        collectNumTail_spec hlen fun h => hzero.1 ⟨hattr, h⟩
      obtain ⟨needsTail', map', hrun, hlen', hneeds, hmap⟩ :=
        @ih (same || needsTail) map₁ hlen₁ hzero.2
      refine ⟨needsTail', map', ?_, hlen', ?_, fun j hj => ?_⟩
      · rw [if_neg hattr, hone]
        exact hrun
      · rw [hneeds, exists_cons, and_iff_right hattr, Bool.or_eq_true, hsame]
        tauto
      · rw [hmap j hj, hmap₁ j hj, exists_cons, and_iff_right hattr]
        tauto

/-! ### The first free number -/

theorem findNumber_spec : ∀ {i : Nat} {map : Map} {num : Nat}, map.length = 8 * i →
    findNumber i map num = num + (map.takeWhile id).length := by
  intro i
  induction i with
  | zero =>
    intro map num hlen
    rw [List.length_eq_zero_iff.mp hlen]
    rfl
  | succ i ih =>
    intro map num hlen
    have hsplit := List.take_append_drop 8 map
    have hfirst : (map.take 8).length = 8 := by
      rw [List.length_take]
      omega
    rw [findNumber]
    split
    · rename_i hall
      rw [ih (by rw [List.length_drop]; omega)]
      conv_rhs => rw [← hsplit]
      rw [List.takeWhile_append_of_pos (List.all_eq_true.mp hall), List.length_append, hfirst]
      omega
    · rename_i hall
      conv_rhs => rw [← hsplit]
      rw [List.takeWhile_append, if_neg fun hlength => hall ?_]
      rw [← (List.takeWhile_prefix id).eq_of_length hlength]
      exact List.all_takeWhile

theorem takeWhile_true {j : Nat} (h : j < (map.takeWhile id).length) :
    map.getD j false = true := by
  induction map generalizing j with
  | nil => exact absurd h (Nat.not_lt_zero j)
  | cons b map ih =>
    cases b with
    | false => exact absurd h (Nat.not_lt_zero j)
    | true =>
      cases j with
      | zero => rfl
      | succ j => exact ih (Nat.lt_of_succ_lt_succ h)

theorem takeWhile_false : map.getD (map.takeWhile id).length false = false := by
  induction map with
  | nil => rfl
  | cons b map ih =>
    cases b with
    | false => rfl
    | true => exact ih

/-- The first number that no tail has; 513 when all the numbers of the map are taken -/
structure FirstFree (entries : List Entry) (shortName : Name) (num : Nat) : Prop where
  pos : 0 < num
  max : num ≤ SHORTNAME_CONVERSION_MAP_SIZE + 1
  taken : ∀ j, 0 < j → j < num → Exists entries shortName (.number j)
  free : num ≤ SHORTNAME_CONVERSION_MAP_SIZE → ¬ Exists entries shortName (.number num)

theorem FirstFree.unique {m n : Nat}
    (h : FirstFree entries shortName m) (h' : FirstFree entries shortName n) : m = n := by
  have hle {m n : Nat} (h : FirstFree entries shortName m) (h' : FirstFree entries shortName n) :
      ¬ m < n := fun hlt =>
    have hmax := h'.max
    h.free (by omega) (h'.taken m h.pos hlt)
  exact Nat.le_antisymm (Nat.not_lt.mp (hle h' h)) (Nat.not_lt.mp (hle h h'))

/-! ### The name with its tail -/

variable {num : Nat}

theorem length_decimal_le (h : num ≤ SHORTNAME_CONVERSION_MAP_SIZE + 1) :
    (decimal num).length ≤ 3 := by
  rw [SHORTNAME_CONVERSION_MAP_SIZE] at h
  rw [decimal, List.length_reverse, List.length_map]
  exact (Nat.digits_length_le_iff (by decide) num).mpr (by omega)

theorem withTail_eq (base ext : Name) (num : Nat) :
    ∃ s, withTail base ext num = base.take (SHORTNAME_SIZE - 1 - (decimal num).length)
        ++ tilde :: (decimal num ++ (List.replicate s WHITESPACE_CHAR ++ ext)) ∧
      (base.take (SHORTNAME_SIZE - 1 - (decimal num).length)).length + s
        = SHORTNAME_SIZE - 1 - (decimal num).length := by
  have hlen : (base.take (SHORTNAME_SIZE - 1 - (decimal num).length)).length
      ≤ SHORTNAME_SIZE - 1 - (decimal num).length := List.length_take_le _ _
  refine ⟨_, ?_, Nat.add_sub_of_le hlen⟩
  rw [withTail, pad]
  simp only [List.append_assoc, List.cons_append, List.length_append, List.length_cons]
  congr 5
  omega

theorem tailNumber_blanks (s num : Nat) :
    tailNumber (List.replicate s WHITESPACE_CHAR) num = some num := by
  cases s with
  | zero => rfl
  | succ s => rw [List.replicate_succ, tailNumber, if_pos rfl]

/-- **A name with a tail is recognized**, unless the basis has a `'~'` in the same place. -/
theorem tailOf_withTail {base ext : Name} {num : Nat} (hne : base ≠ [])
    (hlen : base.length ≤ SHORTNAME_SIZE) (hpos : 0 < num)
    (hdigits : (decimal num).length < SHORTNAME_SIZE - 1)
    (htilde : (pad SHORTNAME_SIZE base ++ ext).getD (SHORTNAME_SIZE - 1 - (decimal num).length) 0
      ≠ tilde) :
    tailOf (withTail base ext num) (pad SHORTNAME_SIZE base ++ ext) = .number num := by
  obtain ⟨s, hname, hs⟩ := withTail_eq base ext num
  have hk : 0 < (decimal num).length := List.length_pos_of_ne_nil (decimal_ne_nil hpos)
  have hbase := List.length_pos_of_ne_nil hne
  set k := (decimal num).length with hkdef
  set kept := base.take (SHORTNAME_SIZE - 1 - k) with hkept
  have hkeptLen : kept.length = min (SHORTNAME_SIZE - 1 - k) base.length := List.length_take
  -- the basis behind the place where it is cut
  obtain ⟨rest, hrest⟩ : ∃ rest, pad SHORTNAME_SIZE base ++ ext = kept ++ rest := by
    refine ⟨base.drop (SHORTNAME_SIZE - 1 - k) ++
      (List.replicate (SHORTNAME_SIZE - base.length) WHITESPACE_CHAR ++ ext), ?_⟩
    rw [pad, ← List.append_assoc kept, hkept, List.take_append_drop, List.append_assoc]
  have hplace : (pad SHORTNAME_SIZE base ++ ext).getD kept.length 0 = WHITESPACE_CHAR ∨
      kept.length = SHORTNAME_SIZE - 1 - k := by
    rcases Nat.lt_or_ge (SHORTNAME_SIZE - 1 - k) base.length with hlong | hshort
    · exact Or.inr (by omega)
    · refine Or.inl ?_
      have hall : kept.length = base.length := by omega
      obtain ⟨m, hm⟩ : ∃ m, SHORTNAME_SIZE - base.length = m + 1 :=
        ⟨SHORTNAME_SIZE - base.length - 1, by omega⟩
      rw [hall, pad, hm, List.append_assoc, List.getD_append_right _ _ _ _ (Nat.le_refl _),
        Nat.sub_self, List.replicate_succ]
      rfl
  have hnot : (pad SHORTNAME_SIZE base ++ ext).getD kept.length 0 ≠ tilde := by
    rcases hplace with hblank | hlong
    · rw [hblank]
      decide
    · rwa [hlong]
  have hmark : (withTail base ext num).getD kept.length 0 = tilde := by
    rw [hname, List.getD_append_right _ _ _ _ (Nat.le_refl _), Nat.sub_self]
    rfl
  have hext : (withTail base ext num).drop 8 = (pad SHORTNAME_SIZE base ++ ext).drop 8 := by
    change List.drop SHORTNAME_SIZE _ = List.drop SHORTNAME_SIZE _
    rw [List.drop_left' (length_pad hlen), withTail, List.drop_left' (length_pad (by
      rw [List.length_append, List.length_cons, ← hkept, ← hkdef]
      omega))]
  have hfind : (List.range 8).find? (fun i => (withTail base ext num).getD i 0 ≠
      (pad SHORTNAME_SIZE base ++ ext).getD i 0) = some kept.length := by
    rw [List.find?_range_eq_some]
    refine ⟨?_, List.mem_range.mpr (by rw [SHORTNAME_SIZE] at hs; omega), fun j hj => ?_⟩
    · rw [decide_eq_true_iff, hmark]
      exact hnot.symm
    · rw [hname, hrest, List.getD_append _ _ _ _ hj, List.getD_append _ _ _ _ hj]
      simp
  have hlast : (pad SHORTNAME_SIZE base ++ ext).getD kept.length 0 = WHITESPACE_CHAR ∨
      (withTail base ext num).getD 7 0 ≠ 0x20 := by
    refine hplace.imp_right fun hlong => ?_
    obtain ⟨c, hc⟩ : ∃ c, (decimal num)[k - 1]? = some c :=
      ⟨_, List.getElem?_eq_getElem (by omega)⟩
    have hchar : (withTail base ext num).getD 7 0 = c := by
      have hseven : 7 - kept.length = k - 1 + 1 := by
        rw [SHORTNAME_SIZE] at hlong hdigits
        omega
      rw [hname, List.getD_append_right _ _ _ _ (by rw [SHORTNAME_SIZE] at hlong; omega), hseven,
        List.getD_cons_succ, List.getD_append _ _ _ _ (by omega), List.getD_eq_getElem?_getD, hc]
      rfl
    rw [hchar]
    intro heq
    have hdigit := (decimal_digit (List.mem_of_getElem? hc)).1
    rw [heq] at hdigit
    exact absurd hdigit (by decide)
  have hnumber : ((withTail base ext num).take 8).drop (kept.length + 1)
      = decimal num ++ List.replicate s WHITESPACE_CHAR := by
    rw [hname, ← List.cons_append, ← List.append_assoc (tilde :: decimal num), ← List.append_assoc,
      List.take_left' (by
        simp only [List.length_append, List.length_cons, List.length_replicate, ← hkdef]
        rw [SHORTNAME_SIZE] at hs hdigits
        omega), List.drop_append, List.drop_eq_nil_of_le (Nat.le_succ _), Nat.add_sub_cancel_left]
    rfl
  have hnonzero : kept.length ≠ 0 := by omega
  rw [tailOf, if_neg (not_not.mpr hext), hfind]
  dsimp only
  rw [if_pos ⟨hmark, hlast, hnonzero⟩, hnumber, tailNumber_decimal, tailNumber_blanks,
    Nat.zero_mul, Nat.zero_add]

theorem tailOf_self (name : Name) : tailOf name name = .same := by
  have hfind : (List.range 8).find? (fun i => name.getD i 0 ≠ name.getD i 0) = none := by
    rw [List.find?_eq_none]
    simp
  rw [tailOf, if_neg (not_not.mpr rfl), hfind]

/-! ### The result -/

/-- The names differ in the names of files and directories; the volume label is left out. -/
def IsNew (entries : List Entry) (name : Name) : Prop :=
  ∀ dirEntry ∈ entries, dirEntry.DIR_Attr ≠ ATTR_VOLUME_ID → dirEntry.DIR_Name ≠ name

/-- `LongToShortName` stays inside its arrays and makes a new short name. -/
def MakesNew (entries : List Entry) (longName : List UInt16) : Prop :=
  ∃ name, longToShortName entries longName = some name ∧ name.length = SHORTNAME_FULL_SIZE ∧
    IsNew entries name

def NeedsTail (entries : List Entry) (longName : List UInt16) : Prop :=
  (generateBasisName longName).2 = true ∨ Exists entries (generateBasisName longName).1 .same

/-- No tail has the number 0; and when a tail is needed, the basis has a character, and the name
    with the first free number does not exist if the map is full or if the basis has a `'~'` where
    the tail begins. -/
structure Unambiguous (entries : List Entry) (longName : List UInt16) : Prop where
  noZero : ¬ Exists entries (generateBasisName longName).1 (.number 0)
  base : NeedsTail entries longName → baseOf (generateBasisName longName).1 ≠ []
  tail : NeedsTail entries longName → ∀ num,
    FirstFree entries (generateBasisName longName).1 num →
    num = SHORTNAME_CONVERSION_MAP_SIZE + 1 ∨
      (generateBasisName longName).1.getD (SHORTNAME_SIZE - 1 - (decimal num).length) 0 = tilde →
    IsNew entries (withTail (baseOf (generateBasisName longName).1)
      (extOf (generateBasisName longName).1) num)

theorem longToShortName_eq (entries : List Entry) (longName : List UInt16) :
    longToShortName entries longName
      = (collectTails (generateBasisName longName).1 entries (generateBasisName longName).2
        (List.replicate SHORTNAME_CONVERSION_MAP_SIZE false)).bind fun found =>
          if found.1 then attachNumTail (generateBasisName longName).1
            (findNumber (SHORTNAME_CONVERSION_MAP_SIZE / 8) found.2 1)
          else some (generateBasisName longName).1 := rfl

/-- Without the number 0, a tail is attached exactly when one is needed, with the first free
    number. -/
theorem longToShortName_spec {longName : List UInt16}
    (hzero : ¬ Exists entries (generateBasisName longName).1 (.number 0)) :
    (¬ NeedsTail entries longName ∧
      longToShortName entries longName = some (generateBasisName longName).1) ∨
    (NeedsTail entries longName ∧ ∃ num, FirstFree entries (generateBasisName longName).1 num ∧
      longToShortName entries longName = attachNumTail (generateBasisName longName).1 num) := by
  obtain ⟨needsTail, map, hrun, hlen, hneeds, hmap⟩ := @collectTails_spec _ entries
    (generateBasisName longName).2 _ (List.length_replicate (n := SHORTNAME_CONVERSION_MAP_SIZE)
      (a := false)) hzero
  rw [longToShortName_eq, hrun, Option.bind_some]
  cases needsTail with
  | false =>
    exact Or.inl ⟨fun hn => Bool.false_ne_true (hneeds.mpr hn), rfl⟩
  | true =>
    have hnum : findNumber (SHORTNAME_CONVERSION_MAP_SIZE / 8) map 1
        = 1 + (map.takeWhile id).length := findNumber_spec hlen
    have hle := (map.takeWhile_sublist id).length_le
    have htaken (j : Nat) (hj : j < SHORTNAME_CONVERSION_MAP_SIZE) : map.getD j false = true ↔
        Exists entries (generateBasisName longName).1 (.number (j + 1)) := by
      rw [hmap j hj, or_iff_right]
      rw [List.getD_eq_getElem?_getD, List.getElem?_replicate_of_lt hj]
      exact Bool.false_ne_true
    refine Or.inr ⟨hneeds.mp rfl, 1 + (map.takeWhile id).length, ⟨by omega, by omega, ?_, ?_⟩, ?_⟩
    · intro j hpos hj
      have hbit := (htaken (j - 1) (by omega)).mp (takeWhile_true (by omega))
      rwa [Nat.sub_add_cancel hpos] at hbit
    · intro hmax htail
      rw [Nat.add_comm, ← htaken _ (by omega), takeWhile_false] at htail
      exact Bool.false_ne_true htail
    · exact (if_pos rfl).trans (congrArg _ hnum)

/-- Attaching a tail to a basis without characters reads in front of the name. -/
theorem attachNumTail_empty {ext : Name}
    (hdigits : (decimal num).length < SHORTNAME_SIZE - 1) :
    attachNumTail (pad SHORTNAME_SIZE [] ++ ext) num = none := by
  have hsize : (pad SHORTNAME_SIZE []).length = SHORTNAME_SIZE := length_pad (Nat.zero_le _)
  have hwrite := @writeDigits_spec num 11 (pad SHORTNAME_SIZE []) ext (by rw [hsize]; omega)
    (by rw [SHORTNAME_SIZE] at hdigits; omega)
  set k := (decimal num).length with hk
  have hblanks : (pad SHORTNAME_SIZE []).take (SHORTNAME_SIZE - k)
      = List.replicate (SHORTNAME_SIZE - 1 - k) WHITESPACE_CHAR ++ [WHITESPACE_CHAR] := by
    rw [pad, List.nil_append, List.length_nil, List.take_replicate, ← List.replicate_succ']
    congr 1
    omega
  have hplace : (SHORTNAME_SIZE : Int) - k - 1
      = (List.replicate (SHORTNAME_SIZE - 1 - k) WHITESPACE_CHAR).length := by
    rw [List.length_replicate]
    omega
  rw [hsize, hblanks, hplace] at hwrite
  have hmark : setChar (List.replicate (SHORTNAME_SIZE - 1 - k) WHITESPACE_CHAR ++ [WHITESPACE_CHAR]
      ++ decimal num ++ ext) (List.replicate (SHORTNAME_SIZE - 1 - k) WHITESPACE_CHAR).length tilde
      = some (List.replicate (SHORTNAME_SIZE - 1 - k) WHITESPACE_CHAR
        ++ tilde :: (decimal num ++ ext)) := by
    rw [List.append_assoc _ [WHITESPACE_CHAR], List.append_assoc _ _ ext, setChar_eq (by
      simp only [List.length_append, List.length_singleton]
      omega)]
    exact congrArg some (set_append _ _ _ _)
  simp only [attachNumTail, Option.bind_eq_bind, hwrite, Option.bind_some, hmark]
  rw [List.length_replicate, skipBlanks_outside]
  rfl

/-- **Short names** are new, and made inside the arrays, exactly when they are unambiguous. -/
theorem makesNew_iff (entries : List Entry) (longName : List UInt16) :
    MakesNew entries longName ↔ Unambiguous entries longName := by
  by_cases hzero : Exists entries (generateBasisName longName).1 (.number 0)
  · refine iff_of_false ?_ fun h => h.noZero hzero
    rintro ⟨name, hname, -⟩
    rw [longToShortName_eq, collectTails_none hzero] at hname
    exact nomatch hname
  have hpadded := generateBasisName_padded longName
  rcases longToShortName_spec hzero with ⟨hneeds, hrun⟩ | ⟨hneeds, num, hfree, hrun⟩
  · refine iff_of_true ⟨_, hrun, hpadded.length_eq, ?_⟩ ⟨hzero, fun hn => absurd hn hneeds,
      fun hn => absurd hn hneeds⟩
    intro dirEntry hmem hattr heq
    exact hneeds (Or.inr ⟨dirEntry, hmem, hattr, heq ▸ tailOf_self _⟩)
  have hdigits : (decimal num).length < SHORTNAME_SIZE - 1 :=
    Nat.lt_of_le_of_lt (length_decimal_le hfree.max) (by decide)
  by_cases hbase : baseOf (generateBasisName longName).1 = []
  · refine iff_of_false ?_ fun h => h.base hneeds hbase
    rintro ⟨name, hname, -⟩
    have hshort := hpadded.eq
    rw [hbase] at hshort
    rw [hrun, hshort, attachNumTail_empty hdigits] at hname
    exact nomatch hname
  have hattach := @attachNumTail_spec _ (extOf (generateBasisName longName).1) num hbase
    hpadded.blank hpadded.length hdigits
  rw [← hpadded.eq] at hattach
  rw [hattach] at hrun
  constructor
  · rintro ⟨name, hname, -, hnew⟩
    obtain rfl := Option.some.inj (hrun.symm.trans hname)
    refine ⟨hzero, fun _ => hbase, fun _ num' hfree' _ => ?_⟩
    rw [hfree'.unique hfree]
    exact hnew
  · intro h
    refine ⟨_, hrun, ?_, ?_⟩
    · rw [withTail, List.length_append, hpadded.extLength, length_pad]
      · rfl
      · have htake := List.length_take_le (SHORTNAME_SIZE - 1 - (decimal num).length)
          (baseOf (generateBasisName longName).1)
        rw [List.length_append, List.length_cons]
        omega
    by_cases hspecial : num = SHORTNAME_CONVERSION_MAP_SIZE + 1 ∨
        (generateBasisName longName).1.getD (SHORTNAME_SIZE - 1 - (decimal num).length) 0 = tilde
    · exact h.tail hneeds num hfree hspecial
    · rw [not_or] at hspecial
      intro dirEntry hmem hattr heq
      have hmax := hfree.max
      refine hfree.free (by omega) ⟨dirEntry, hmem, hattr, ?_⟩
      have htail := @tailOf_withTail _ (extOf (generateBasisName longName).1) num hbase
        hpadded.length hfree.pos hdigits (by rw [← hpadded.eq]; exact hspecial.2)
      rw [← hpadded.eq] at htail
      rw [heq, htail]

/-- The file `AB~`, whose tail has no digits -/
def noDigits : Entry where
  DIR_Name := [0x41, 0x42, tilde, 0x20, 0x20, 0x20, 0x20, 0x20, 0x20, 0x20, 0x20]
  DIR_Attr := 0x20
  length := rfl

/-- The file `ABCDEF~1` -/
def firstTail : Entry where
  DIR_Name := [0x41, 0x42, 0x43, 0x44, 0x45, 0x46, tilde, 0x31, 0x20, 0x20, 0x20]
  DIR_Attr := 0x20
  length := rfl

/-- For `a b`, the number of `AB~` leads out of the map; and `abc def~1` gets the name of the file
    that exists. -/
theorem short_name_is_not_new :
    ¬ MakesNew [noDigits] [0x61, 0x20, 0x62] ∧
    ¬ MakesNew [firstTail] [0x61, 0x62, 0x63, 0x20, 0x64, 0x65, 0x66, 0x7E, 0x31] := by
  constructor
  · rintro ⟨name, hname, -⟩
    have hnone : longToShortName [noDigits] [0x61, 0x20, 0x62] = none := by decide
    exact nomatch hnone.symm.trans hname
  · rintro ⟨name, hname, -, hnew⟩
    have hsome : longToShortName [firstTail] [0x61, 0x62, 0x63, 0x20, 0x64, 0x65, 0x66, 0x7E, 0x31]
        = some firstTail.DIR_Name := by decide
    refine hnew firstTail List.mem_cons_self (by decide) ?_
    exact Option.some.inj (hsome.symm.trans hname)

end TinyClr.ShortName
