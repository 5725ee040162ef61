import TinyClr.Core.CloneObjectSpec
import TinyClr.Support.CrcSpec

/-!
# Equality and hash codes agree

`ObjectsEqual` is an equivalence on what a memory keeps, comes back where it does not go round in a
circle, and is true of a value type and its clone.  Two values have one hash code exactly where the
bytes that it takes of them differ by a multiple of the generator; they are the same bytes where the
comparison looks at all of them.
-/

namespace TinyClr.Equality

open TinyClr.Library TinyClr.Support Heap

variable {mem : Memory} {totalFields : Nat → Nat}

theorem Sound.equivalence_same (h : Sound mem totalFields) : Equivalence (Same mem) where
  refl _ := ⟨1, objectsEqual_self⟩
  symm := fun ⟨fuel, hequal⟩ => ⟨fuel, h.objectsEqual_symm hequal⟩
  trans := fun ⟨fuel, hequal⟩ ⟨fuel', hequal'⟩ =>
    ⟨max fuel fuel', h.objectsEqual_trans (objectsEqual_le (Nat.le_max_left _ _) hequal)
      (objectsEqual_le (Nat.le_max_right _ _) hequal')⟩

/-- Two byte strings that have one checksum -/
def SameRemainder (x y : List UInt8) : Prop :=
  generator crcGenerator ∣ bitPoly (blockBits x) - bitPoly (blockBits y)

theorem SameRemainder.refl (x : List UInt8) : SameRemainder x x := by
  rw [SameRemainder, sub_self]
  exact dvd_zero _

theorem getHashCode_eq_iff {fuel a b : Nat} {fRecurse : Bool} :
    getHashCode mem totalFields fuel a fRecurse 0 = getHashCode mem totalFields fuel b fRecurse 0 ↔
      Option.Rel SameRemainder (hashedBytes mem totalFields fuel a fRecurse [])
        (hashedBytes mem totalFields fuel b fRecurse []) := by
  have hcode : ∀ ptr, getHashCode mem totalFields fuel ptr fRecurse 0 =
      (hashedBytes mem totalFields fuel ptr fRecurse []).map (List.foldl crcByte 0) :=
    fun ptr => getHashCode_eq fuel ptr fRecurse []
  rw [hcode, hcode]
  rcases hashedBytes mem totalFields fuel a fRecurse [] with _ | x
  · rcases hashedBytes mem totalFields fuel b fRecurse [] with _ | y
    · exact iff_of_true rfl .none
    · exact iff_of_false (by simp) (by simp)
  · rcases hashedBytes mem totalFields fuel b fRecurse [] with _ | y
    · exact iff_of_false (by simp) (by simp)
    · rw [Option.map_some, Option.map_some, Option.some.injEq, foldl_crcByte_eq_iff,
        Option.rel_some_some]
      rfl

/-- What equality, hash codes and clones have to do with each other -/
theorem equality_agrees (h : Sound mem totalFields) :
    Equivalence (Same mem) ∧
    (∀ a b, (∃ fuel res, objectsEqual mem fuel a b = some res) ↔ ¬ Circular mem a b) ∧
    (∀ a b fuel, getHashCode mem totalFields fuel a true 0 =
        getHashCode mem totalFields fuel b true 0 ↔
      Option.Rel SameRemainder (hashedBytes mem totalFields fuel a true [])
        (hashedBytes mem totalFields fuel b true [])) ∧
    (∀ a b, a ≠ 0 → b ≠ 0 → Same mem a b → HashFits mem totalFields true a b → ∀ fuel,
      hashedBytes mem totalFields fuel a true [] = hashedBytes mem totalFields fuel b true []) ∧
    ∀ (types : Nat → TypeInfo) (depth : Nat) (s s' : Store) (slot source obj : Nat),
      EmbedsValues types → slot < s.next → s.limit ≤ 2 ^ 32 →
      IsValue types depth s slot source obj →
      cloneObject types depth s slot source = some (.ok, s') → mem.block = s'.block →
      LeadsToSame mem slot obj := by
  refine ⟨h.equivalence_same, fun a b => h.terminates_iff, fun a b fuel => getHashCode_eq_iff,
    ?_, ?_⟩
  · rintro a b ha hb ⟨fuel, hequal⟩ hfits g
    exact h.hashedBytes_eq hequal hfits ha hb g []
  · intro types depth s s' slot source obj hvalues hslot hlimit hvalue hrun hmem
    exact cloneObject_equal hvalues hslot hlimit hvalue hrun hmem

/-- A structure with one integer, its clone, and the slot for the clone between them -/
def cloned : Memory where
  block
    | 1 => ⟨rawId .valuetype {} 2, 1⟩
    | 2 => ⟨rawId .i4 { alive := true } 1, 7⟩
    | 3 => ⟨rawId .object {} 1, 4⟩
    | 4 => ⟨rawId .valuetype {} 2, 1⟩
    | 5 => ⟨rawId .i4 { alive := true } 1, 7⟩
    | _ => ⟨rawId .void {} 1, 0⟩
  stringText _ := []
  array _ := ⟨0, 0, .void, true, []⟩
  delegate _ := ⟨0, []⟩
  eventSource _ := ⟨0, 0⟩

/-- The memory before the structure is cloned -/
def original : Store where
  block
    | 1 => ⟨rawId .valuetype {} 2, 1⟩
    | 2 => ⟨rawId .i4 { alive := true } 1, 7⟩
    | _ => ⟨rawId .void {} 1, 0⟩
  next := 4
  limit := 100

def integerTypes (_ : Nat) : TypeInfo := ⟨.valuetype, [.plain .i4]⟩

theorem sound_cloned : Sound cloned fun _ => 1 where
  size a ha := by
    match a, ha with
    | 1, _ => decide
    | 4, _ => decide
    | n + 6, ha => exact absurd ha (by simp [cloned, HeapBlock.dataType, rawId])
  array _ := rfl

theorem cloneObject_original :
    cloneObject integerTypes 1 original 3 1 =
      some (.ok, { original with block := cloned.block, next := 6 }) := by
  have hblock : ∀ s : Store, s.next = 6 → s.limit = 100 → (∀ x, s.block x = cloned.block x) →
      some (HResult.ok, s) = some (.ok, { original with block := cloned.block, next := 6 }) := by
    rintro ⟨block, next, limit⟩ rfl rfl h
    rw [show block = cloned.block from funext h]
    rfl
  refine hblock _ rfl rfl fun x => ?_
  match x with
  | 0 => rfl
  | 1 => rfl
  | 2 => rfl
  | 3 => rfl
  | 4 => rfl
  | 5 => rfl
  | n + 6 => rfl

theorem embedsValues_integerTypes : EmbedsValues integerTypes := by
  intro cls k cls' h
  match k, h with
  | 0, h => cases h

theorem isValue_original : IsValue integerTypes 1 original 3 1 1 := by
  refine .fields rfl (.inl rfl) (.mk ⟨rfl, rfl, rfl, by decide⟩ (by decide) (fun k hk => ?_)
    (fun k dt hk => ?_) (fun k cls' hk => ?_) fun k cls' hk => ?_)
  · change k ≤ 1 at hk
    change 1 + k < 4 ∧ 1 + k ≠ 3
    omega
  · match k, hk with
    | 0, _ => exact ⟨Or.inr rfl, nofun, rfl⟩
  · match k, hk with
    | 0, hk => cases hk
  · match k, hk with
    | 0, hk => cases hk

theorem hashFits_cloned : HashFits cloned (fun _ => 1) true 4 1 := by
  intro x y hxy _ hmore
  have hnone : ∀ {a b : Nat}, (cloned.block a).dataType = .i4 →
      Corresponds cloned (fun _ => 1) false a b x y → x = a := by
    intro a b ha hab
    cases hab with
    | here => rfl
    | target hobject =>
      rw [ha] at hobject
      cases hobject
  cases hxy with
  | here => cases hmore
  | target hobject => cases hobject
  | @field _ _ _ _ k _ _ hlow hhigh hfield =>
    obtain rfl : k = 1 := Nat.le_antisymm hhigh hlow
    rw [hnone rfl hfield] at hmore
    cases hmore

/-- The structure and its clone are equal and have one hash code. -/
theorem equality_agrees_cloned : Equivalence (Same cloned) ∧ Same cloned 4 1 ∧
    ¬ Circular cloned 4 1 ∧
    ∀ fuel, getHashCode cloned (fun _ => 1) fuel 4 true 0 =
      getHashCode cloned (fun _ => 1) fuel 1 true 0 := by
  obtain ⟨hequivalence, hreturns, hhash, hbytes, hclone⟩ := equality_agrees sound_cloned
  obtain ⟨depth, copy, hresolve, hequal⟩ := hclone integerTypes 1 original _ 3 1 1
    embedsValues_integerTypes (by decide) (by decide) isValue_original cloneObject_original rfl
  have hsame : Same cloned 4 1 := by
    match depth, hresolve with
    | depth + 2, hresolve =>
      obtain rfl : 4 = copy := Except.ok.inj (Option.some.inj hresolve)
      exact hequal
  refine ⟨hequivalence, hsame, (hreturns 4 1).mp (hsame.imp fun _ heq => ⟨true, heq⟩),
    fun fuel => (hhash 4 1 fuel).mpr ?_⟩
  rw [hbytes 4 1 (by decide) (by decide) hsame hashFits_cloned fuel]
  rcases hashedBytes cloned (fun _ => 1) fuel 1 true [] with _ | bytes
  · exact .none
  · exact .some (.refl bytes)

/-! ### Where they do not -/

/-- An `i1` with the value -1 that was zero extended and one that was sign extended, and two boxed
    structures, each with a reference to itself -/
def history : Memory where
  block
    | 1 => ⟨rawId .i1 {} 1, 0xFF⟩
    | 2 => ⟨rawId .i1 {} 1, 0xFFFFFFFF⟩
    | 3 => ⟨rawId .valuetype { boxed := true } 2, 1⟩
    | 4 => ⟨rawId .object {} 1, 3⟩
    | 5 => ⟨rawId .valuetype { boxed := true } 2, 1⟩
    | 6 => ⟨rawId .object {} 1, 5⟩
    | _ => ⟨rawId .void {} 1, 0⟩
  stringText _ := []
  array _ := ⟨0, 0, .void, true, []⟩
  delegate _ := ⟨0, []⟩
  eventSource _ := ⟨0, 0⟩

theorem sound_history : Sound history fun _ => 1 where
  size a ha := by
    match a, ha with
    | 3, _ => decide
    | 5, _ => decide
    | n + 7, ha => exact absurd ha (by simp [history, HeapBlock.dataType, rawId])
  array _ := rfl

theorem objectsEqual_loop : ∀ fuel, objectsEqual history fuel 3 5 = none ∧
    objectsEqual history fuel 4 6 = none := by
  intro fuel
  induction fuel with
  | zero => exact ⟨rfl, rfl⟩
  | succ fuel ih =>
    constructor
    · have hfield : equalFields (objectsEqual history fuel) 1 3 5 = none := by
        rw [equalFields, ih.2]
        rfl
      rw [objectsEqual]
      exact hfield
    · rw [objectsEqual]
      exact ih.1

theorem differWithin_history :
    DifferWithin 32 (history.block 1).bytes (history.block 2).bytes :=
  ⟨blockBits [0xFF], blockBits [0, 0, 0], blockBits [0xFF, 0xFF, 0xFF], blockBits [0, 0, 0, 0],
    by decide, by decide, by decide, by decide⟩

/-- Two integers that are equal have two hash codes, and two values are compared for ever. -/
theorem equal_but_hash_differs : Sound history (fun _ => 1) ∧ Same history 1 2 ∧
    (∀ fuel, getHashCode history (fun _ => 1) (fuel + 1) 1 true 0 ≠
      getHashCode history (fun _ => 1) (fuel + 1) 2 true 0) ∧
    ¬ ∃ fuel res, objectsEqual history fuel 3 5 = some res := by
  refine ⟨sound_history, ⟨1, rfl⟩, fun fuel heq => ?_, ?_⟩
  · have hhash : ∀ a, a = 1 ∨ a = 2 → getHashCode history (fun _ => 1) (fuel + 1) a true 0 =
        some (computeCRC (history.block a).bytes 8 0) := by
      rintro a (rfl | rfl)
      · rfl
      · rfl
    rw [hhash 1 (Or.inl rfl), hhash 2 (Or.inr rfl)] at heq
    have hcrc := Option.some.inj heq
    have hlength : ∀ a, (history.block a).bytes.length = 8 := fun _ => rfl
    rw [← hlength 1, computeCRC_eq_divideBits (by rw [hlength]; decide), hlength 1, ← hlength 2,
      computeCRC_eq_divideBits (by rw [hlength]; decide)] at hcrc
    exact divideBits_ne differWithin_history (by decide) 0 hcrc
  · rintro ⟨fuel, res, h⟩
    rw [(objectsEqual_loop fuel).1] at h
    cases h

end TinyClr.Equality
