import TinyClr.Core.ObjectsEqual
import TinyClr.Library.Loops
import Mathlib.Order.Interval.Finset.Nat

/-!
# What equality is

`ObjectsEqual` is an equivalence, and comes back exactly where it does not come to two blocks again
while it compares them, `Circular`.  `GetHashCode` is the checksum of some bytes, `hashedBytes`,
which are the same for equal values where those agree that the comparison does not look at,
`HashFits`.
-/

namespace TinyClr.Equality

open TinyClr.Library TinyClr.Support Heap

/-! ### One comparison -/

/-- What the heap keeps: an object has one block for each field, behind its header, below the highest
    address, and whether the elements of an array are references is decided by their type. -/
structure Sound (mem : Memory) (totalFields : Nat → Nat) : Prop where
  size : ∀ a, (mem.block a).dataType = .valuetype →
    (mem.block a).id.dataSize = totalFields (mem.block a).objectCls + 1 ∧
      (mem.block a).id.dataSize ≤ HB_MaxSize ∧ a + (mem.block a).id.dataSize ≤ 2 ^ 32
  array : ∀ a, (mem.array a).fReference = !(mem.array a).typeOfElement.numeric

variable {mem : Memory} {totalFields : Nat → Nat} {a b c fuel : Nat}

theorem Sound.numFields_eq (h : Sound mem totalFields)
    (ha : (mem.block a).dataType = .valuetype) :
    numFields (mem.block a) = totalFields (mem.block a).objectCls := by
  obtain ⟨hsize, hmax, -⟩ := h.size a ha
  rw [HB_MaxSize] at hmax
  rw [numFields, uint32_eq_toNat (by omega) (by omega)]
  omega

theorem Sound.numFields_congr (h : Sound mem totalFields)
    (ha : (mem.block a).dataType = .valuetype) (hb : (mem.block b).dataType = .valuetype)
    (hcls : (mem.block a).objectCls = (mem.block b).objectCls) :
    numFields (mem.block a) = numFields (mem.block b) := by
  rw [h.numFields_eq ha, h.numFields_eq hb, hcls]

theorem objectsEqual_self : objectsEqual mem (fuel + 1) a a = some true := by
  rw [objectsEqual, if_pos rfl]

/-- What `ObjectsEqual` is true of: the same block, two objects of one type with equal fields,
    references to one object or to equal ones, or equal data. -/
theorem objectsEqual_true_iff : objectsEqual mem (fuel + 1) a b = some true ↔
    a = b ∨ (a ≠ b ∧ (mem.block a).dataType = (mem.block b).dataType ∧
      (((mem.block a).dataType = .valuetype ∧
          (mem.block a).objectCls = (mem.block b).objectCls ∧
          equalFields (objectsEqual mem fuel) (numFields (mem.block a)) a b = some true) ∨
        ((mem.block a).dataType = .object ∧
          ((mem.block a).dereference = (mem.block b).dereference ∨
            ((mem.block a).dereference ≠ (mem.block b).dereference ∧
              (mem.block a).dereference ≠ 0 ∧ (mem.block b).dereference ≠ 0 ∧
              objectsEqual mem fuel (mem.block a).dereference (mem.block b).dereference =
                some true))) ∨
        ((mem.block a).dataType ≠ .valuetype ∧ (mem.block a).dataType ≠ .object ∧
          atomsEqual mem a b = true))) := by
  by_cases hab : a = b
  · subst hab
    exact iff_of_true objectsEqual_self (Or.inl rfl)
  rw [objectsEqual, if_neg hab, or_iff_right hab, and_iff_right hab]
  by_cases hdt : (mem.block a).dataType = (mem.block b).dataType
  · rw [if_pos hdt, and_iff_right hdt]
    cases hcase : (mem.block a).dataType with
    | valuetype =>
      by_cases hcls : (mem.block a).objectCls = (mem.block b).objectCls
      · simp [hcls]
      · simp [hcls]
    | object =>
      by_cases hptr : (mem.block a).dereference = (mem.block b).dereference
      · simp [hptr]
      · by_cases hnull : (mem.block a).dereference ≠ 0 ∧ (mem.block b).dereference ≠ 0
        · simp [hptr, hnull]
        · simp only [if_neg hptr, if_neg hnull]
          refine iff_of_false (by simp) ?_
          rintro (⟨h, -⟩ | ⟨-, h | ⟨-, hleft, hright, -⟩⟩ | ⟨-, h, -⟩)
          · cases h
          · exact hptr h
          · exact hnull ⟨hleft, hright⟩
          · exact h rfl
    | _ => simp
  · rw [if_neg hdt]
    refine iff_of_false (by simp) fun h => hdt h.1

/-- `ObjectsEqual` comes back and says that two values are equal. -/
def Same (mem : Memory) (a b : Nat) : Prop := ∃ fuel, objectsEqual mem fuel a b = some true

/-! ### Fields -/

section Fields

variable {equal equal' : Nat → Nat → Option Bool} {num l r : Nat}

theorem equalFields_true_iff : ∀ {num l r : Nat}, equalFields equal num l r = some true ↔
    ∀ k, 1 ≤ k → k ≤ num → equal (l + k) (r + k) = some true := by
  intro num
  induction num with
  | zero =>
    intro l r
    refine iff_of_true rfl fun k hlow hhigh => ?_
    omega
  | succ num ih =>
    intro l r
    rw [equalFields]
    constructor
    · intro h k hlow hhigh
      rcases hone : equal (l + 1) (r + 1) with _ | _ | _
      · rw [hone] at h
        cases h
      · rw [hone] at h
        cases h
      · rw [hone] at h
        rcases Nat.eq_or_lt_of_le hlow with rfl | hlt
        · exact hone
        · have htail := ih.mp h (k - 1) (by omega) (by omega)
          rwa [show l + 1 + (k - 1) = l + k by omega, show r + 1 + (k - 1) = r + k by omega] at htail
    · intro h
      rw [h 1 (Nat.le_refl 1) (by omega)]
      refine ih.mpr fun k hlow hhigh => ?_
      have htail := h (k + 1) (by omega) (by omega)
      rwa [show l + (k + 1) = l + 1 + k by omega, show r + (k + 1) = r + 1 + k by omega] at htail

theorem equalFields_mono (h : ∀ l r res, equal l r = some res → equal' l r = some res) :
    ∀ {num l r : Nat} {res : Bool}, equalFields equal num l r = some res →
      equalFields equal' num l r = some res := by
  intro num
  induction num with
  | zero => exact fun hres => hres
  | succ num ih =>
    intro l r res hres
    rw [equalFields] at hres ⊢
    rcases hone : equal (l + 1) (r + 1) with _ | one
    · rw [hone] at hres
      cases hres
    · rw [hone] at hres
      rw [h _ _ _ hone]
      cases one with
      | false => exact hres
      | true => exact ih hres

end Fields

/-! ### Symmetry and transitivity -/

theorem arraysEqual_iff {x y : ArrayHeader} : arraysEqual x y = true ↔
    x.numOfElements = y.numOfElements ∧ x.sizeOfElement = y.sizeOfElement ∧
      x.typeOfElement = y.typeOfElement ∧ x.fReference = false ∧
      x.elements.take (x.numOfElements * x.sizeOfElement) =
        y.elements.take (x.numOfElements * x.sizeOfElement) := by
  simp [arraysEqual, and_assoc]

theorem Sound.arraysEqual_symm (h : Sound mem totalFields)
    (heq : arraysEqual (mem.array a) (mem.array b) = true) :
    arraysEqual (mem.array b) (mem.array a) = true := by
  obtain ⟨hnum, hsize, htype, href, helements⟩ := arraysEqual_iff.mp heq
  refine arraysEqual_iff.mpr ⟨hnum.symm, hsize.symm, htype.symm, ?_, ?_⟩
  · rw [h.array, ← htype, ← h.array, href]
  · rw [← hnum, ← hsize, helements]

theorem Sound.atomsEqual_symm (h : Sound mem totalFields)
    (hdt : (mem.block a).dataType = (mem.block b).dataType) (heq : atomsEqual mem a b = true) :
    atomsEqual mem b a = true := by
  rw [atomsEqual] at heq ⊢
  rw [← hdt]
  cases hcase : (mem.block a).dataType with
  | szarray =>
    rw [hcase] at heq
    exact h.arraysEqual_symm heq
  | _ =>
    simp only [hcase, Bool.and_eq_true, beq_iff_eq] at heq ⊢
    first
    | exact heq.symm
    | exact ⟨heq.1, heq.2.symm⟩

theorem atomsEqual_trans (hab : (mem.block a).dataType = (mem.block b).dataType)
    (hleft : atomsEqual mem a b = true) (hright : atomsEqual mem b c = true) :
    atomsEqual mem a c = true := by
  rw [atomsEqual] at hleft hright ⊢
  rw [← hab] at hright
  cases hcase : (mem.block a).dataType with
  | szarray =>
    rw [hcase] at hleft hright
    obtain ⟨hnum, hsize, htype, href, helements⟩ := arraysEqual_iff.mp hleft
    obtain ⟨hnum', hsize', htype', -, helements'⟩ := arraysEqual_iff.mp hright
    rw [← hnum, ← hsize] at helements'
    exact arraysEqual_iff.mpr ⟨hnum.trans hnum', hsize.trans hsize', htype.trans htype', href,
      helements.trans helements'⟩
  | _ =>
    simp only [hcase, Bool.and_eq_true, beq_iff_eq] at hleft hright ⊢
    first
    | exact hleft.trans hright
    | exact ⟨hleft.1, hleft.2.trans hright.2⟩

theorem objectsEqual_succ : ∀ {fuel a b : Nat} {res : Bool},
    objectsEqual mem fuel a b = some res → objectsEqual mem (fuel + 1) a b = some res := by
  intro fuel
  induction fuel with
  | zero =>
    intro a b res h
    cases h
  | succ fuel ih =>
    intro a b res h
    rw [objectsEqual] at h ⊢
    by_cases hab : a = b
    · rw [if_pos hab] at h ⊢
      exact h
    rw [if_neg hab] at h ⊢
    by_cases hdt : (mem.block a).dataType = (mem.block b).dataType
    · rw [if_pos hdt] at h ⊢
      cases hcase : (mem.block a).dataType with
      | valuetype =>
        simp only [hcase] at h ⊢
        by_cases hcls : (mem.block a).objectCls = (mem.block b).objectCls
        · rw [if_pos hcls] at h ⊢
          exact equalFields_mono (fun _ _ _ => ih) h
        · rw [if_neg hcls] at h ⊢
          exact h
      | object =>
        simp only [hcase] at h ⊢
        by_cases hptr : (mem.block a).dereference = (mem.block b).dereference
        · rw [if_pos hptr] at h ⊢
          exact h
        · rw [if_neg hptr] at h ⊢
          by_cases hnull : (mem.block a).dereference ≠ 0 ∧ (mem.block b).dereference ≠ 0
          · rw [if_pos hnull] at h ⊢
            exact ih h
          · rw [if_neg hnull] at h ⊢
            exact h
      | _ =>
        simp only [hcase] at h ⊢
        exact h
    · rw [if_neg hdt] at h ⊢
      exact h

theorem objectsEqual_le {fuel fuel' : Nat} (hle : fuel ≤ fuel') {res : Bool}
    (h : objectsEqual mem fuel a b = some res) : objectsEqual mem fuel' a b = some res := by
  obtain ⟨more, rfl⟩ := Nat.exists_eq_add_of_le hle
  clear hle
  induction more with
  | zero => exact h
  | succ more ih => exact objectsEqual_succ ih

theorem Sound.objectsEqual_symm (h : Sound mem totalFields) : ∀ {fuel a b : Nat},
    objectsEqual mem fuel a b = some true → objectsEqual mem fuel b a = some true := by
  intro fuel
  induction fuel with
  | zero =>
    intro a b heq
    cases heq
  | succ fuel ih =>
    intro a b heq
    rcases objectsEqual_true_iff.mp heq with rfl | ⟨hab, hdt, hcases⟩
    · exact objectsEqual_self
    refine objectsEqual_true_iff.mpr (Or.inr ⟨hab.symm, hdt.symm, ?_⟩)
    rw [← hdt]
    rcases hcases with ⟨hvalue, hcls, hfields⟩ | ⟨hobject, htarget⟩ | ⟨hvalue, hobject, hatoms⟩
    · refine Or.inl ⟨hvalue, hcls.symm, ?_⟩
      rw [h.numFields_congr hvalue (hdt ▸ hvalue) hcls] at hfields
      exact equalFields_true_iff.mpr fun k hlow hhigh =>
        ih (equalFields_true_iff.mp hfields k hlow hhigh)
    · refine Or.inr (Or.inl ⟨hobject, ?_⟩)
      rcases htarget with hsame | ⟨hne, hleft, hright, hequal⟩
      · exact Or.inl hsame.symm
      · exact Or.inr ⟨hne.symm, hright, hleft, ih hequal⟩
    · exact Or.inr (Or.inr ⟨hvalue, hobject, h.atomsEqual_symm hdt hatoms⟩)

/-- Objects equal to one object are equal. -/
theorem Sound.objectsEqual_trans (h : Sound mem totalFields) : ∀ {fuel a b c : Nat},
    objectsEqual mem fuel a b = some true → objectsEqual mem fuel b c = some true →
      objectsEqual mem fuel a c = some true := by
  intro fuel
  induction fuel with
  | zero =>
    intro a b c hleft
    cases hleft
  | succ fuel ih =>
    intro a b c hleft hright
    rcases objectsEqual_true_iff.mp hleft with rfl | ⟨hab, hdt, hcases⟩
    · exact hright
    rcases objectsEqual_true_iff.mp hright with rfl | ⟨hbc, hdt', hcases'⟩
    · exact hleft
    by_cases hac : a = c
    · exact objectsEqual_true_iff.mpr (Or.inl hac)
    refine objectsEqual_true_iff.mpr (Or.inr ⟨hac, hdt.trans hdt', ?_⟩)
    rw [← hdt] at hcases'
    rcases hcases with ⟨hvalue, hcls, hfields⟩ | ⟨hobject, htarget⟩ | ⟨hvalue, hobject, hatoms⟩
    · rcases hcases' with ⟨-, hcls', hfields'⟩ | ⟨hobject, -⟩ | ⟨hnot, -, -⟩
      · refine Or.inl ⟨hvalue, hcls.trans hcls', equalFields_true_iff.mpr fun k hlow hhigh => ?_⟩
        have hnum := h.numFields_congr hvalue (hdt ▸ hvalue) hcls
        exact ih (equalFields_true_iff.mp hfields k hlow hhigh)
          (equalFields_true_iff.mp hfields' k hlow (hnum ▸ hhigh))
      · rw [hvalue] at hobject
        cases hobject
      · exact absurd hvalue hnot
    · rcases hcases' with ⟨hvalue, -⟩ | ⟨-, htarget'⟩ | ⟨-, hnot, -⟩
      · rw [hvalue] at hobject
        cases hobject
      · refine Or.inr (Or.inl ⟨hobject, ?_⟩)
        rcases htarget with hsame | ⟨hne, hnull, hmid, hequal⟩
        · rw [hsame]
          rcases htarget' with hsame' | hother
          · exact Or.inl hsame'
          · exact Or.inr hother
        · rcases htarget' with hsame' | ⟨-, -, hnull', hequal'⟩
          · rw [← hsame']
            exact Or.inr ⟨hne, hnull, hmid, hequal⟩
          · by_cases hend : (mem.block a).dereference = (mem.block c).dereference
            · exact Or.inl hend
            · exact Or.inr ⟨hend, hnull, hnull', ih hequal hequal'⟩
      · exact absurd hobject hnot
    · rcases hcases' with ⟨hvalue', -⟩ | ⟨hobject', -⟩ | ⟨-, -, hatoms'⟩
      · exact absurd hvalue' hvalue
      · exact absurd hobject' hobject
      · exact Or.inr (Or.inr ⟨hvalue, hobject, atomsEqual_trans hdt hatoms hatoms'⟩)

/-! ### Termination -/

inductive Alike (mem : Memory) : Nat → Nat → Prop
  | refl (a : Nat) : Alike mem a a
  | value {a b : Nat} : (mem.block a).dataType = .valuetype → (mem.block b).dataType = .valuetype →
      (mem.block a).objectCls = (mem.block b).objectCls →
      (∀ k, 1 ≤ k → k ≤ numFields (mem.block a) → Alike mem (a + k) (b + k)) → Alike mem a b
  | same {a b : Nat} : (mem.block a).dataType = .object → (mem.block b).dataType = .object →
      (mem.block a).dereference = (mem.block b).dereference → Alike mem a b
  | target {a b : Nat} : (mem.block a).dataType = .object → (mem.block b).dataType = .object →
      (mem.block a).dereference ≠ 0 → (mem.block b).dereference ≠ 0 →
      Alike mem (mem.block a).dereference (mem.block b).dereference → Alike mem a b
  | atom {a b : Nat} : (mem.block a).dataType = (mem.block b).dataType →
      (mem.block a).dataType ≠ .valuetype → (mem.block a).dataType ≠ .object →
      atomsEqual mem a b = true → Alike mem a b

theorem exists_fuel_forall {res : Nat → Bool} : ∀ {n : Nat},
    (∀ k, 1 ≤ k → k ≤ n → ∃ fuel, objectsEqual mem fuel (a + k) (b + k) = some (res k)) →
    ∃ fuel, ∀ k, 1 ≤ k → k ≤ n → objectsEqual mem fuel (a + k) (b + k) = some (res k) := by
  intro n
  induction n with
  | zero =>
    intro _
    refine ⟨0, fun k hlow hhigh => ?_⟩
    omega
  | succ n ih =>
    intro h
    obtain ⟨fuel, hfuel⟩ := ih fun k hlow hhigh => h k hlow (by omega)
    obtain ⟨fuel', hfuel'⟩ := h (n + 1) (by omega) (Nat.le_refl _)
    refine ⟨max fuel fuel', fun k hlow hhigh => ?_⟩
    rcases Nat.eq_or_lt_of_le hhigh with rfl | hlt
    · exact objectsEqual_le (Nat.le_max_right _ _) hfuel'
    · exact objectsEqual_le (Nat.le_max_left _ _) (hfuel k hlow (by omega))

theorem Alike.same_values (h : Alike mem a b) : Same mem a b := by
  induction h with
  | refl a => exact ⟨1, objectsEqual_self⟩
  | @value a b ha hb hcls _ ih =>
    obtain ⟨fuel, hfuel⟩ := exists_fuel_forall ih
    by_cases hab : a = b
    · exact ⟨1, hab ▸ objectsEqual_self⟩
    · exact ⟨fuel + 1, objectsEqual_true_iff.mpr (.inr ⟨hab, ha.trans hb.symm, .inl ⟨ha, hcls,
        equalFields_true_iff.mpr hfuel⟩⟩)⟩
  | @same a b ha hb hsame =>
    by_cases hab : a = b
    · exact ⟨1, hab ▸ objectsEqual_self⟩
    · exact ⟨1, objectsEqual_true_iff.mpr (.inr ⟨hab, ha.trans hb.symm, .inr (.inl ⟨ha,
        .inl hsame⟩)⟩)⟩
  | @target a b ha hb hleft hright _ ih =>
    obtain ⟨fuel, hfuel⟩ := ih
    by_cases hab : a = b
    · exact ⟨1, hab ▸ objectsEqual_self⟩
    · refine ⟨fuel + 1, objectsEqual_true_iff.mpr (.inr ⟨hab, ha.trans hb.symm, .inr (.inl ⟨ha, ?_⟩)⟩)⟩
      by_cases hsame : (mem.block a).dereference = (mem.block b).dereference
      · exact .inl hsame
      · exact .inr ⟨hsame, hleft, hright, hfuel⟩
  | @atom a b hdt hvalue hobject hatoms =>
    by_cases hab : a = b
    · exact ⟨1, hab ▸ objectsEqual_self⟩
    · exact ⟨1, objectsEqual_true_iff.mpr (.inr ⟨hab, hdt, .inr (.inr ⟨hvalue, hobject, hatoms⟩)⟩)⟩

theorem alike_of_objectsEqual : ∀ {fuel a b : Nat},
    objectsEqual mem fuel a b = some true → Alike mem a b := by
  intro fuel
  induction fuel with
  | zero =>
    intro a b h
    cases h
  | succ fuel ih =>
    intro a b h
    rcases objectsEqual_true_iff.mp h with rfl | ⟨-, hdt, hcases⟩
    · exact .refl a
    rcases hcases with ⟨hvalue, hcls, hfields⟩ | ⟨hobject, htarget⟩ | ⟨hvalue, hobject, hatoms⟩
    · exact .value hvalue (hdt ▸ hvalue) hcls fun k hlow hhigh =>
        ih (equalFields_true_iff.mp hfields k hlow hhigh)
    · rcases htarget with hsame | ⟨-, hleft, hright, hequal⟩
      · exact .same hobject (hdt ▸ hobject) hsame
      · exact .target hobject (hdt ▸ hobject) hleft hright (ih hequal)
    · exact .atom hdt hvalue hobject hatoms

theorem Alike.answer (h : Alike mem a b) {res : Bool}
    (hequal : objectsEqual mem fuel a b = some res) : res = true := by
  obtain ⟨fuel', hfuel'⟩ := h.same_values
  have hleft := objectsEqual_le (Nat.le_max_left fuel fuel') hequal
  rw [objectsEqual_le (Nat.le_max_right fuel fuel') hfuel'] at hleft
  exact (Option.some.inj hleft).symm

/-- The comparison of two blocks leads to that of two others: what both refer to, or two fields,
    where all fields in front of them are alike. -/
inductive Leads (mem : Memory) : Nat × Nat → Nat × Nat → Prop
  | target {a b : Nat} : a ≠ b → (mem.block a).dataType = .object →
      (mem.block b).dataType = .object → (mem.block a).dereference ≠ (mem.block b).dereference →
      (mem.block a).dereference ≠ 0 → (mem.block b).dereference ≠ 0 →
      Leads mem (a, b) ((mem.block a).dereference, (mem.block b).dereference)
  | field {a b k : Nat} : a ≠ b → (mem.block a).dataType = .valuetype →
      (mem.block b).dataType = .valuetype → (mem.block a).objectCls = (mem.block b).objectCls →
      1 ≤ k → k ≤ numFields (mem.block a) →
      (∀ j, 1 ≤ j → j < k → Alike mem (a + j) (b + j)) → Leads mem (a, b) (a + k, b + k)

open Relation in
/-- The comparison of two values comes to two blocks whose comparison leads to itself. -/
def Circular (mem : Memory) (a b : Nat) : Prop :=
  ∃ p, ReflTransGen (Leads mem) (a, b) p ∧ TransGen (Leads mem) p p

theorem Circular.leads (h : Circular mem a b) :
    ∃ x y, Leads mem (a, b) (x, y) ∧ Circular mem x y := by
  obtain ⟨p, hreach, hcycle⟩ := h
  rcases Relation.ReflTransGen.cases_head hreach with rfl | ⟨⟨x, y⟩, hleads, hreach⟩
  · obtain ⟨⟨x, y⟩, hleads, hreach⟩ := Relation.TransGen.head'_iff.mp hcycle
    exact ⟨x, y, hleads, _, hreach, hcycle⟩
  · exact ⟨x, y, hleads, p, hreach, hcycle⟩

/-- The comparison of two lists of fields that has come back has compared all those in front of which
    the others are alike. -/
theorem equalFields_compares : ∀ {num l r k : Nat} {res : Bool},
    equalFields (objectsEqual mem fuel) num l r = some res → 1 ≤ k → k ≤ num →
    (∀ j, 1 ≤ j → j < k → Alike mem (l + j) (r + j)) →
    ∃ res, objectsEqual mem fuel (l + k) (r + k) = some res := by
  intro num
  induction num with
  | zero =>
    intro l r k res h hlow hhigh
    omega
  | succ num ih =>
    intro l r k res h hlow hhigh halike
    rw [equalFields] at h
    rcases hone : objectsEqual mem fuel (l + 1) (r + 1) with _ | one
    · rw [hone] at h
      cases h
    · rcases Nat.eq_or_lt_of_le hlow with rfl | hlt
      · exact ⟨one, hone⟩
      · have hfirst : one = true := (halike 1 (Nat.le_refl 1) hlt).answer hone
        rw [hone, hfirst] at h
        have hrest := ih (k := k - 1) h (by omega) (by omega) fun j hj hjk => by
          have hnext := halike (j + 1) (by omega) (by omega)
          rwa [← Nat.add_assoc, ← Nat.add_assoc, Nat.add_right_comm l, Nat.add_right_comm r] at hnext
        rwa [show l + 1 + (k - 1) = l + k by omega, show r + 1 + (k - 1) = r + k by omega] at hrest

theorem equalFields_returns : ∀ {num l r : Nat},
    (∀ k, 1 ≤ k → k ≤ num → (∀ j, 1 ≤ j → j < k → Alike mem (l + j) (r + j)) →
      ∃ fuel res, objectsEqual mem fuel (l + k) (r + k) = some res) →
    ∃ fuel res, equalFields (objectsEqual mem fuel) num l r = some res := by
  intro num
  induction num with
  | zero => exact fun _ => ⟨0, true, rfl⟩
  | succ num ih =>
    intro l r h
    obtain ⟨fuel, one, hone⟩ := h 1 (Nat.le_refl 1) (by omega) fun j hj hjk => by omega
    cases one with
    | false =>
      refine ⟨fuel, false, ?_⟩
      rw [equalFields, hone]
      rfl
    | true =>
      obtain ⟨fuel', res, hrest⟩ := ih (l := l + 1) (r := r + 1) fun k hlow hhigh halike => by
        obtain ⟨fuel', res, hres⟩ := h (k + 1) (by omega) (by omega) fun j hj hjk => by
          rcases Nat.eq_or_lt_of_le hj with rfl | hlt
          · exact alike_of_objectsEqual hone
          · have hnext := halike (j - 1) (by omega) (by omega)
            rwa [show l + 1 + (j - 1) = l + j by omega, show r + 1 + (j - 1) = r + j by omega]
              at hnext
        refine ⟨fuel', res, ?_⟩
        rwa [show l + (k + 1) = l + 1 + k by omega, show r + (k + 1) = r + 1 + k by omega] at hres
      refine ⟨max fuel fuel', res, ?_⟩
      rw [equalFields, objectsEqual_le (Nat.le_max_left fuel fuel') hone]
      exact equalFields_mono (fun _ _ _ => objectsEqual_le (Nat.le_max_right fuel fuel')) hrest

theorem Leads.compares {x y : Nat} (h : Leads mem (a, b) (x, y)) {res : Bool}
    (hequal : objectsEqual mem (fuel + 1) a b = some res) :
    ∃ res, objectsEqual mem fuel x y = some res := by
  rw [objectsEqual] at hequal
  cases h with
  | target hab ha hb hne hleft hright =>
    rw [if_neg hab, if_pos (ha.trans hb.symm), ha] at hequal
    simp only [if_neg hne, if_pos (And.intro hleft hright)] at hequal
    exact ⟨res, hequal⟩
  | field hab ha hb hcls hlow hhigh halike =>
    rw [if_neg hab, if_pos (ha.trans hb.symm), ha] at hequal
    simp only [if_pos hcls] at hequal
    exact equalFields_compares hequal hlow hhigh halike

theorem objectsEqual_returns
    (h : ∀ x y, Leads mem (a, b) (x, y) → ∃ fuel res, objectsEqual mem fuel x y = some res) :
    ∃ fuel res, objectsEqual mem fuel a b = some res := by
  by_cases hab : a = b
  · exact ⟨1, true, hab ▸ objectsEqual_self⟩
  by_cases hdt : (mem.block a).dataType = (mem.block b).dataType
  swap
  · refine ⟨1, false, ?_⟩
    rw [objectsEqual, if_neg hab, if_neg hdt]
  have hunfold : ∀ fuel, objectsEqual mem (fuel + 1) a b = _ := fun fuel => by
    rw [objectsEqual, if_neg hab, if_pos hdt]
  cases hcase : (mem.block a).dataType with
  | valuetype =>
    simp only [hcase] at hunfold
    by_cases hcls : (mem.block a).objectCls = (mem.block b).objectCls
    · obtain ⟨fuel, res, hres⟩ := equalFields_returns fun k hlow hhigh halike =>
        h _ _ (.field hab hcase (hdt ▸ hcase) hcls hlow hhigh halike)
      exact ⟨fuel + 1, res, by rw [hunfold, if_pos hcls, hres]⟩
    · exact ⟨1, false, by rw [hunfold, if_neg hcls]⟩
  | object =>
    simp only [hcase] at hunfold
    by_cases hsame : (mem.block a).dereference = (mem.block b).dereference
    · exact ⟨1, true, by rw [hunfold, if_pos hsame]⟩
    · by_cases hnull : (mem.block a).dereference ≠ 0 ∧ (mem.block b).dereference ≠ 0
      · obtain ⟨fuel, res, hres⟩ :=
          h _ _ (.target hab hcase (hdt ▸ hcase) hsame hnull.1 hnull.2)
        exact ⟨fuel + 1, res, by rw [hunfold, if_neg hsame, if_pos hnull, hres]⟩
      · exact ⟨1, false, by rw [hunfold, if_neg hsame, if_neg hnull]⟩
  | _ =>
    simp only [hcase] at hunfold
    exact ⟨1, _, hunfold 0⟩

theorem Sound.leads_lt (h : Sound mem totalFields) {p q : Nat × Nat} (hleads : Leads mem p q) :
    q ∈ Set.Iio (2 ^ 32) ×ˢ Set.Iio (2 ^ 32) := by
  cases hleads with
  | target => exact ⟨Nat.mod_lt _ (by decide), Nat.mod_lt _ (by decide)⟩
  | @field a b k _ ha hb hcls hlow hhigh _ =>
    obtain ⟨hsize, -, hend⟩ := h.size a ha
    obtain ⟨hsize', -, hend'⟩ := h.size b hb
    rw [h.numFields_eq ha] at hhigh
    rw [← hcls] at hsize'
    simp only [Set.mem_prod, Set.mem_Iio]
    omega

/-- **A comparison comes back** exactly where it does not come to two blocks again while it compares
    them. -/
theorem Sound.terminates_iff (h : Sound mem totalFields) :
    (∃ fuel res, objectsEqual mem fuel a b = some res) ↔ ¬ Circular mem a b := by
  constructor
  · rintro ⟨fuel, res, hequal⟩ hcircular
    induction fuel generalizing a b res with
    | zero => cases hequal
    | succ fuel ih =>
      obtain ⟨x, y, hleads, hcircular⟩ := hcircular.leads
      obtain ⟨res, hres⟩ := hleads.compares hequal
      exact ih res hres hcircular
  · intro hcircular
    have hacc : Acc (fun q p => Leads mem p q) (a, b) :=
      acc_of_no_cycle ((Set.finite_Iio _).prod (Set.finite_Iio _)) (fun _ _ => h.leads_lt)
        fun q hreach hcycle => hcircular ⟨q, hreach, hcycle⟩
    have hreturns : ∀ p, Acc (fun q p => Leads mem p q) p →
        ∃ fuel res, objectsEqual mem fuel p.1 p.2 = some res := by
      intro p hp
      induction hp with
      | intro p _ ih => exact objectsEqual_returns fun x y hleads => ih (x, y) hleads
    exact hreturns (a, b) hacc

/-! ### Hash codes -/

def crcBytes (rgBlock : List UInt8) (nLength : Nat) : List UInt8 :=
  rgBlock.take (int32 nLength).toNat

/-- The bytes that a hash code is the checksum of, after those before it; behind a null reference it
    starts again. -/
def hashedBytes (mem : Memory) (totalFields : Nat → Nat) :
    Nat → Nat → Bool → List UInt8 → Option (List UInt8)
  | 0, _, _, _ => none
  | fuel + 1, ptr, fRecurse, bytes =>
      if ptr = 0 then some []
      else
        match (mem.block ptr).dataType with
        | .object => hashedBytes mem totalFields fuel (mem.block ptr).dereference fRecurse bytes
        | .string => some (bytes ++ crcBytes (mem.stringText ptr) (mem.stringText ptr).length)
        | .classType | .valuetype =>
            if fRecurse then
              (List.range' (ptr + 1) (totalFields (mem.block ptr).objectCls)).foldlM
                (fun bytes field => hashedBytes mem totalFields fuel field false bytes) bytes
            else some bytes
        | .delegateHead => do
            let bytes ← hashedBytes mem totalFields fuel (mem.delegate ptr).object false bytes
            some (bytes ++ crcBytes (mem.delegate ptr).ftn 4)
        | .objectToEvent => do
            let bytes ← hashedBytes mem totalFields fuel (mem.eventSource ptr).eventPtr false bytes
            hashedBytes mem totalFields fuel (mem.eventSource ptr).objectPtr false bytes
        | dt => some (bytes ++ crcBytes (mem.block ptr).bytes (getAtomicDataUsedBytes dt))

theorem computeCRC_bytes (rgBlock bytes : List UInt8) (nLength : Nat) :
    computeCRC rgBlock nLength (bytes.foldl crcByte 0) =
      (bytes ++ crcBytes rgBlock nLength).foldl crcByte 0 := by
  rw [computeCRC, List.foldl_append, crcBytes]

theorem foldlM_bytes {hash : UInt32 → Nat → Option UInt32}
    {take : List UInt8 → Nat → Option (List UInt8)}
    (h : ∀ field bytes, hash (bytes.foldl crcByte 0) field =
      (take bytes field).map (List.foldl crcByte 0)) : ∀ (fields : List Nat) (bytes : List UInt8),
    fields.foldlM hash (bytes.foldl crcByte 0) =
      (fields.foldlM take bytes).map (List.foldl crcByte 0) := by
  intro fields
  induction fields with
  | nil => exact fun _ => rfl
  | cons field fields ih =>
    intro bytes
    rw [List.foldlM_cons, List.foldlM_cons, h]
    rcases take bytes field with _ | next
    · rfl
    · exact ih next

theorem getHashCode_eq : ∀ (fuel ptr : Nat) (fRecurse : Bool) (bytes : List UInt8),
    getHashCode mem totalFields fuel ptr fRecurse (bytes.foldl crcByte 0) =
      (hashedBytes mem totalFields fuel ptr fRecurse bytes).map (List.foldl crcByte 0) := by
  intro fuel
  induction fuel with
  | zero => exact fun _ _ _ => rfl
  | succ fuel ih =>
    intro ptr fRecurse bytes
    rw [getHashCode, hashedBytes]
    by_cases hnull : ptr = 0
    · rw [if_pos hnull, if_pos hnull]
      rfl
    rw [if_neg hnull, if_neg hnull]
    have hfields := @foldlM_bytes
      (fun crc field => getHashCode mem totalFields fuel field false crc)
      (fun bytes field => hashedBytes mem totalFields fuel field false bytes)
      (fun field bytes => ih field false bytes)
      (List.range' (ptr + 1) (totalFields (mem.block ptr).objectCls)) bytes
    cases (mem.block ptr).dataType with
    | object => exact ih _ _ _
    | classType | valuetype =>
      cases fRecurse with
      | false => rfl
      | true => exact hfields
    | delegateHead =>
      simp only [ih]
      rcases hashedBytes mem totalFields fuel (mem.delegate ptr).object false bytes with _ | next
      · rfl
      · exact congrArg some (computeCRC_bytes _ _ _)
    | objectToEvent =>
      simp only [ih]
      rcases hashedBytes mem totalFields fuel (mem.eventSource ptr).eventPtr false bytes with _ | next
      · rfl
      · exact ih _ _ _
    | _ => exact congrArg some (computeCRC_bytes _ _ _)

/-- What a hash code takes its bytes from: the two blocks themselves, what both refer to, and once
    the fields of two objects -/
inductive Corresponds (mem : Memory) (totalFields : Nat → Nat) :
    Bool → Nat → Nat → Nat → Nat → Prop
  | here {fRecurse : Bool} {a b : Nat} : Corresponds mem totalFields fRecurse a b a b
  | target {fRecurse : Bool} {a b x y : Nat} : (mem.block a).dataType = .object →
      (mem.block b).dataType = .object →
      Corresponds mem totalFields fRecurse (mem.block a).dereference (mem.block b).dereference x y →
      Corresponds mem totalFields fRecurse a b x y
  | field {a b x y k : Nat} : (mem.block a).dataType = .valuetype →
      (mem.block b).dataType = .valuetype → 1 ≤ k →
      k ≤ totalFields (mem.block a).objectCls →
      Corresponds mem totalFields false (a + k) (b + k) x y →
      Corresponds mem totalFields true a b x y

def hashesMore (dt : DataType) : Bool :=
  dt == .szarray || (!reference dt && dt != .reflection &&
    decide ((sizeInBits dt + 7) / 8 < getAtomicDataUsedBytes dt))

/-- Where the comparison finds two blocks equal by less than all that the hash code takes, they have
    the same bytes. -/
def HashFits (mem : Memory) (totalFields : Nat → Nat) (fRecurse : Bool) (a b : Nat) : Prop :=
  ∀ x y, Corresponds mem totalFields fRecurse a b x y →
    (mem.block x).dataType = (mem.block y).dataType → hashesMore (mem.block x).dataType = true →
    atomsEqual mem x y = true → (mem.block x).bytes = (mem.block y).bytes

theorem getAtomicDataUsedBytes_le (dt : DataType) : getAtomicDataUsedBytes dt ≤ 8 := by
  cases dt <;> decide

theorem foldlM_fields_congr {take : List UInt8 → Nat → Option (List UInt8)} : ∀ {n a b : Nat},
    (∀ k, 1 ≤ k → k ≤ n → ∀ bytes, take bytes (a + k) = take bytes (b + k)) → ∀ bytes,
    (List.range' (a + 1) n).foldlM take bytes = (List.range' (b + 1) n).foldlM take bytes := by
  intro n
  induction n with
  | zero => exact fun _ _ => rfl
  | succ n ih =>
    intro a b h bytes
    rw [List.range'_succ, List.range'_succ, List.foldlM_cons, List.foldlM_cons,
      h 1 (Nat.le_refl 1) (by omega)]
    refine bind_congr fun bytes' => ih (fun k hlow hhigh bytes => ?_) bytes'
    have htail := h (k + 1) (by omega) (by omega) bytes
    rwa [show a + (k + 1) = a + 1 + k by omega, show b + (k + 1) = b + 1 + k by omega] at htail

theorem crcBytes_data {fRecurse : Bool} (hfits : HashFits mem totalFields fRecurse a b)
    (hdt : (mem.block a).dataType = (mem.block b).dataType)
    (href : reference (mem.block a).dataType = false)
    (hreflection : (mem.block a).dataType ≠ .reflection)
    (hatoms : atomsEqual mem a b = true)
    (htake : (mem.block a).bytes.take ((sizeInBits (mem.block a).dataType + 7) / 8) =
      (mem.block b).bytes.take ((sizeInBits (mem.block a).dataType + 7) / 8)) :
    crcBytes (mem.block a).bytes (getAtomicDataUsedBytes (mem.block a).dataType) =
      crcBytes (mem.block b).bytes (getAtomicDataUsedBytes (mem.block a).dataType) := by
  have hused := getAtomicDataUsedBytes_le (mem.block a).dataType
  rw [crcBytes, crcBytes, int32_eq_self (by omega) (by omega), Int.toNat_natCast]
  by_cases hless : (sizeInBits (mem.block a).dataType + 7) / 8 <
      getAtomicDataUsedBytes (mem.block a).dataType
  · rw [hfits a b .here hdt (by simp [hashesMore, href, hreflection, hless]) hatoms]
  · have hle := Nat.min_eq_left (Nat.le_of_not_lt hless)
    rw [← hle, ← List.take_take, ← List.take_take, htake]

theorem hashedBytes_atoms {fRecurse : Bool} (hfits : HashFits mem totalFields fRecurse a b)
    (hdt : (mem.block a).dataType = (mem.block b).dataType)
    (hvalue : (mem.block a).dataType ≠ .valuetype) (hobject : (mem.block a).dataType ≠ .object)
    (hatoms : atomsEqual mem a b = true) (ha : a ≠ 0) (hb : b ≠ 0) (g : Nat) (bytes : List UInt8) :
    hashedBytes mem totalFields g a fRecurse bytes =
      hashedBytes mem totalFields g b fRecurse bytes := by
  cases g with
  | zero => rfl
  | succ g =>
    have hmore := hfits a b .here hdt
    have hdata := crcBytes_data hfits hdt
    rw [hashedBytes, hashedBytes, if_neg ha, if_neg hb, ← hdt]
    have hequal := hatoms
    rw [atomsEqual] at hatoms
    cases hcase : (mem.block a).dataType with
    | valuetype => exact absurd hcase hvalue
    | object => exact absurd hcase hobject
    | szarray =>
      rw [hcase] at hmore
      simp only [hmore rfl hequal]
    | reflection =>
      simp only [hcase, beq_iff_eq] at hatoms
      simp only [HeapBlock.bytes, hatoms]
    | _ =>
      rw [hcase] at hdata
      simp only [hcase, Bool.and_eq_true, beq_iff_eq] at hatoms
      first
      | exact absurd hatoms.1 (by decide)
      | exact congrArg (fun taken => some (bytes ++ taken)) (hdata rfl (by decide) hequal hatoms.2)

theorem Sound.hashedBytes_eq (h : Sound mem totalFields) : ∀ {fuel a b : Nat} {fRecurse : Bool},
    objectsEqual mem fuel a b = some true → HashFits mem totalFields fRecurse a b → a ≠ 0 → b ≠ 0 →
    ∀ g bytes, hashedBytes mem totalFields g a fRecurse bytes =
      hashedBytes mem totalFields g b fRecurse bytes := by
  intro fuel
  induction fuel with
  | zero =>
    intro a b fRecurse heq
    cases heq
  | succ fuel ih =>
    intro a b fRecurse heq hfits ha hb g bytes
    rcases objectsEqual_true_iff.mp heq with rfl | ⟨hab, hdt, hcases⟩
    · rfl
    rcases hcases with ⟨hvalue, hcls, hfields⟩ | ⟨hobject, htarget⟩ | ⟨hvalue, hobject, hatoms⟩
    · cases g with
      | zero => rfl
      | succ g =>
        rw [hashedBytes, hashedBytes, if_neg ha, if_neg hb, ← hdt, hvalue, ← hcls]
        cases fRecurse with
        | false => rfl
        | true =>
          refine foldlM_fields_congr (fun k hlow hhigh bytes => ?_) bytes
          rw [h.numFields_eq hvalue] at hfields
          exact ih (equalFields_true_iff.mp hfields k hlow hhigh)
            (fun x y hxy => hfits x y (.field hvalue (hdt ▸ hvalue) hlow hhigh hxy)) (by omega)
            (by omega) g bytes
    · cases g with
      | zero => rfl
      | succ g =>
        rw [hashedBytes, hashedBytes, if_neg ha, if_neg hb, ← hdt, hobject]
        rcases htarget with hsame | ⟨-, hleft, hright, hequal⟩
        · simp only [hsame]
        · exact ih hequal (fun x y hxy => hfits x y (.target hobject (hdt ▸ hobject) hxy)) hleft
            hright g bytes
    · exact hashedBytes_atoms hfits hdt hvalue hobject hatoms ha hb g bytes

end TinyClr.Equality
