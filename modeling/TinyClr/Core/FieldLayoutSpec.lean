import TinyClr.Core.FieldLayout

/-!
# The slots of a type

The instance fields of a type are those of its ancestors and its own, from the root of the
hierarchy down.  Linking gives them the offsets 1, 2, … in this order, and creation walks the same
list from its end: the two loops agree because both follow `fieldsOf`.
-/

namespace TinyClr.FieldLayout

open TinyClr.Library TypeSystem

variable {sys : TypeSystem} {idx p : TypeDefIndex} {td : TypeDefRecord} {cr cr' : CrossReferences}

/-! ### Fields -/

def ownFields (sys : TypeSystem) (idx : TypeDefIndex) : List FieldDefIndex :=
  match sys.typeDef idx with
  | none => []
  | some td => (List.range td.iFields_Num.toNat).map fun k => ⟨idx.assembly, td.iFields_First + k⟩

def staticFields (sys : TypeSystem) (idx : TypeDefIndex) : List FieldDefIndex :=
  match sys.typeDef idx with
  | none => []
  | some td => (List.range td.sFields_Num.toNat).map fun k => ⟨idx.assembly, td.sFields_First + k⟩

/-- The instance fields of a type, those of its ancestors first -/
def fieldsOf (sys : TypeSystem) (idx : TypeDefIndex) : List FieldDefIndex :=
  (sys.lineage idx).reverse.flatMap (ownFields sys)

def staticFieldsOf (sys : TypeSystem) (assm : Nat) : List FieldDefIndex :=
  (List.range ((sys.assemblies[assm]?.map fun a => a.typeDef.length).getD 0)).flatMap fun t =>
    staticFields sys ⟨assm, t⟩

/-- Field tables as the linker writes them: they have at most `0xFFFF` entries, the fields of a type
    are in the table, and no entry belongs to two types or is static and not at once. -/
structure FieldTables (sys : TypeSystem) : Prop where
  size : ∀ a ∈ sys.assemblies, a.fieldDef.length ≤ 0xFFFF
  inside : ∀ idx, ∀ f ∈ ownFields sys idx ++ staticFields sys idx,
    ∃ a, sys.assemblies[f.assembly]? = some a ∧ f.field < a.fieldDef.length
  apart : ∃ declaring : FieldDefIndex → TypeDefIndex × Bool,
    (∀ idx, ∀ f ∈ ownFields sys idx, declaring f = (idx, false)) ∧
      ∀ idx, ∀ f ∈ staticFields sys idx, declaring f = (idx, true)

theorem ownFields_eq (htd : sys.typeDef idx = some td) :
    ownFields sys idx = (List.range td.iFields_Num.toNat).map fun k =>
      ⟨idx.assembly, td.iFields_First + k⟩ := by
  rw [ownFields, htd]

theorem staticFields_eq (htd : sys.typeDef idx = some td) :
    staticFields sys idx = (List.range td.sFields_Num.toNat).map fun k =>
      ⟨idx.assembly, td.sFields_First + k⟩ := by
  rw [staticFields, htd]

@[simp] theorem length_ownFields (htd : sys.typeDef idx = some td) :
    (ownFields sys idx).length = td.iFields_Num.toNat := by
  rw [ownFields_eq htd, List.length_map, List.length_range]

theorem fieldsOf_root (hp : sys.parent idx = none) : fieldsOf sys idx = ownFields sys idx := by
  rw [fieldsOf, lineage_of_root hp, List.reverse_singleton, List.flatMap_singleton]

theorem fieldsOf_child (h : sys.Linked) (hidx : sys.Valid idx) (hp : sys.parent idx = some p) :
    fieldsOf sys idx = fieldsOf sys p ++ ownFields sys idx := by
  rw [fieldsOf, h.lineage_child hidx hp, List.reverse_cons, List.flatMap_append,
    List.flatMap_singleton, fieldsOf]

def inheritedFields (sys : TypeSystem) (idx : TypeDefIndex) : List FieldDefIndex :=
  match sys.parent idx with
  | none => []
  | some p => fieldsOf sys p

theorem fieldsOf_eq (h : sys.Linked) (hidx : sys.Valid idx) :
    fieldsOf sys idx = inheritedFields sys idx ++ ownFields sys idx := by
  rw [inheritedFields]
  cases hp : sys.parent idx with
  | none => rw [fieldsOf_root hp, List.nil_append]
  | some p => exact fieldsOf_child h hidx hp

/-! ### Linking -/

theorem uint16_add (x y : Nat) : uint16 (uint16 x + y : Int) = uint16 (x + y : Nat) := by
  unfold uint16
  omega

/-- The total of the loop over the parents is the number of fields, in 16 bits. -/
theorem countFields_spec (h : sys.Linked) : ∀ (fuel : Nat) (idx : TypeDefIndex) (tot : Nat)
    (finalizer : Bool), sys.Valid idx →
    (Library.lineage sys.parent fuel idx).length < fuel →
    ∃ finalizer', countFields sys fuel idx (uint16 tot) finalizer =
      some (uint16 (tot + (fieldsOf sys idx).length : Nat), finalizer') := by
  intro fuel
  induction fuel with
  | zero => exact fun idx tot finalizer hidx hfuel => absurd hfuel (Nat.not_lt_zero _)
  | succ fuel ih =>
    intro idx tot finalizer hidx hfuel
    obtain ⟨td, htd⟩ := hidx
    rw [countFields, htd, h.switchToParent_eq ⟨td, htd⟩]
    simp only [Option.bind_eq_bind, Option.bind_some]
    rw [uint16_add]
    cases hp : sys.parent idx with
    | none =>
      refine ⟨finalizer || td.hasFinalizer, ?_⟩
      rw [fieldsOf_root hp, length_ownFields htd]
    | some p =>
      rw [Library.lineage_child hp] at hfuel
      obtain ⟨finalizer', hcount⟩ := ih p (tot + td.iFields_Num.toNat) (finalizer || td.hasFinalizer)
        (h.valid_parent ⟨td, htd⟩ hp) (Nat.lt_of_succ_lt_succ hfuel)
      refine ⟨finalizer', ?_⟩
      simp only
      rw [hcount, fieldsOf_child h ⟨td, htd⟩ hp, List.length_append, length_ownFields htd,
        Nat.add_assoc, Nat.add_comm td.iFields_Num.toNat]

theorem numberFields_offset (assm : Nat) : ∀ (num fd : Nat) (i : Int) (cr : CrossReferences)
    (f : FieldDefIndex), (numberFields cr assm fd i num).offset f =
      if f.assembly = assm ∧ fd ≤ f.field ∧ f.field < fd + num then
        uint16 (i + (f.field - fd : Nat)) else cr.offset f := by
  intro num
  induction num with
  | zero =>
    intro fd i cr f
    rw [numberFields, if_neg (by omega)]
  | succ num ih =>
    intro fd i cr f
    rw [numberFields, ih]
    by_cases hfirst : f = ⟨assm, fd⟩
    · subst hfirst
      simp only
      rw [if_neg (by omega), if_pos ⟨trivial, Nat.le_refl fd, by omega⟩, Function.update_self,
        Nat.sub_self]
      exact congrArg uint16 (Int.add_zero i).symm
    · have hne : f.assembly = assm → f.field ≠ fd := fun ha hf => hfirst (by rw [← ha, ← hf])
      by_cases hin : f.assembly = assm ∧ fd + 1 ≤ f.field ∧ f.field < fd + 1 + num
      · rw [if_pos hin, if_pos (by omega)]
        congr 1
        omega
      · rw [if_neg hin, if_neg (by omega)]
        exact Function.update_of_ne hfirst _ _

@[simp] theorem numberFields_totalFields (assm : Nat) : ∀ (num fd : Nat) (i : Int)
    (cr : CrossReferences),
    (numberFields cr assm fd i num).totalFields = cr.totalFields := by
  intro num
  induction num with
  | zero => exact fun _ _ _ => rfl
  | succ num ih => exact fun _ _ _ => ih _ _ _

@[simp] theorem linkMethods_totalFields (assm idxType : Nat) : ∀ (num md : Nat)
    (cr : CrossReferences),
    (linkMethods cr assm md idxType num).totalFields = cr.totalFields := by
  intro num
  induction num with
  | zero => exact fun _ _ => rfl
  | succ num ih => exact fun _ _ => ih _ _

@[simp] theorem linkMethods_offset (assm idxType : Nat) : ∀ (num md : Nat)
    (cr : CrossReferences), (linkMethods cr assm md idxType num).offset = cr.offset := by
  intro num
  induction num with
  | zero => exact fun _ _ => rfl
  | succ num ih => exact fun _ _ => ih _ _

theorem mem_ownFields (htd : sys.typeDef idx = some td) {f : FieldDefIndex} :
    f ∈ ownFields sys idx ↔ f.assembly = idx.assembly ∧ td.iFields_First ≤ f.field ∧
      f.field < td.iFields_First + td.iFields_Num.toNat := by
  rw [ownFields_eq htd, List.mem_map]
  constructor
  · rintro ⟨k, hk, rfl⟩
    have hlt := List.mem_range.mp hk
    exact ⟨rfl, Nat.le_add_right _ _, by simp only; omega⟩
  · rintro ⟨hassm, hlow, hhigh⟩
    refine ⟨f.field - td.iFields_First, List.mem_range.mpr (by omega), ?_⟩
    rw [← hassm, Nat.add_sub_cancel' hlow]

theorem mem_staticFields (htd : sys.typeDef idx = some td) {f : FieldDefIndex} :
    f ∈ staticFields sys idx ↔ f.assembly = idx.assembly ∧ td.sFields_First ≤ f.field ∧
      f.field < td.sFields_First + td.sFields_Num.toNat := by
  rw [staticFields_eq htd, List.mem_map]
  constructor
  · rintro ⟨k, hk, rfl⟩
    have hlt := List.mem_range.mp hk
    exact ⟨rfl, Nat.le_add_right _ _, by simp only; omega⟩
  · rintro ⟨hassm, hlow, hhigh⟩
    refine ⟨f.field - td.sFields_First, List.mem_range.mpr (by omega), ?_⟩
    rw [← hassm, Nat.add_sub_cancel' hlow]

def staticsBefore (sys : TypeSystem) (assm n : Nat) : List FieldDefIndex :=
  (List.range n).flatMap fun t => staticFields sys ⟨assm, t⟩

theorem staticsBefore_succ (assm n : Nat) :
    staticsBefore sys assm (n + 1) = staticsBefore sys assm n ++ staticFields sys ⟨assm, n⟩ := by
  rw [staticsBefore, List.range_succ, List.flatMap_append, List.flatMap_singleton, staticsBefore]

structure Numbered (sys : TypeSystem) (assm n : Nat) (cr : CrossReferences) : Prop where
  total : ∀ t < n, cr.totalFields ⟨assm, t⟩ = uint16 (fieldsOf sys ⟨assm, t⟩).length
  own_offset : ∀ t < n, ∀ td, sys.typeDef ⟨assm, t⟩ = some td → ∀ f ∈ ownFields sys ⟨assm, t⟩,
    cr.offset f = uint16 ((uint16 (fieldsOf sys ⟨assm, t⟩).length : Int) - td.iFields_Num.toNat + 1 +
      (f.field - td.iFields_First : Nat))
  static_offset : ∀ t < n, ∀ td, sys.typeDef ⟨assm, t⟩ = some td →
    ∀ f ∈ staticFields sys ⟨assm, t⟩, cr.offset f =
      uint16 ((staticsBefore sys assm t).length + (f.field - td.sFields_First : Nat) : Int)

def OnlyChanges (assm : Nat) (cr cr' : CrossReferences) : Prop :=
  (∀ idx : TypeDefIndex, idx.assembly ≠ assm → cr'.totalFields idx = cr.totalFields idx) ∧
    ∀ f : FieldDefIndex, f.assembly ≠ assm → cr'.offset f = cr.offset f

variable {assm n : Nat}

theorem OnlyChanges.numbered {other : Nat} (h : OnlyChanges assm cr cr')
    (hother : other ≠ assm) (hcr : Numbered sys other n cr) : Numbered sys other n cr' := by
  have hoffset : ∀ f : FieldDefIndex, f.assembly = other → cr'.offset f = cr.offset f :=
    fun f hf => h.2 f (by rw [hf]; exact hother)
  refine ⟨fun t ht => ?_, fun t ht td htd f hf => ?_, fun t ht td htd f hf => ?_⟩
  · rw [h.1 _ hother]
    exact hcr.total t ht
  · rw [hoffset f ((mem_ownFields htd).mp hf).1]
    exact hcr.own_offset t ht td htd f hf
  · rw [hoffset f ((mem_staticFields htd).mp hf).1]
    exact hcr.static_offset t ht td htd f hf

theorem linkType_eq (h : sys.Linked) {iStaticFields : Nat}
    (htd : sys.typeDef ⟨assm, n⟩ = some td) (cr : CrossReferences) :
    ∃ cr', linkType sys assm n iStaticFields cr =
        some (cr', iStaticFields + td.sFields_Num.toNat) ∧
      cr'.totalFields = Function.update cr.totalFields ⟨assm, n⟩
        (uint16 (fieldsOf sys ⟨assm, n⟩).length) ∧
      ∀ f, cr'.offset f =
        if f ∈ ownFields sys ⟨assm, n⟩ then
          uint16 ((uint16 (fieldsOf sys ⟨assm, n⟩).length : Int) - td.iFields_Num.toNat + 1 +
            (f.field - td.iFields_First : Nat))
        else if f ∈ staticFields sys ⟨assm, n⟩ then
          uint16 (iStaticFields + (f.field - td.sFields_First : Nat) : Int)
        else cr.offset f := by
  obtain ⟨finalizer, hcount⟩ := countFields_spec h sys.walkLimit ⟨assm, n⟩ 0
    ((numberFields cr assm td.sFields_First iStaticFields td.sFields_Num.toNat).hasFinalizer
      ⟨assm, n⟩) ⟨td, htd⟩ (h.length_lineage ⟨td, htd⟩)
  rw [Nat.zero_add, show uint16 ((0 : Nat) : Int) = 0 from rfl] at hcount
  rw [linkType, htd]
  simp only [Option.bind_eq_bind, Option.bind_some, hcount]
  refine ⟨_, rfl, ?_, fun f => ?_⟩
  · rw [linkMethods_totalFields, numberFields_totalFields, numberFields_totalFields]
  · rw [linkMethods_offset, numberFields_offset]
    simp only [numberFields_offset, mem_ownFields htd, mem_staticFields htd]

/-- The types before are not touched when the next one is linked. -/
theorem linkType_spec (h : sys.Linked) (hfields : FieldTables sys)
    (hidx : sys.Valid ⟨assm, n⟩) (hcr : Numbered sys assm n cr) :
    ∃ cr', linkType sys assm n (staticsBefore sys assm n).length cr =
        some (cr', (staticsBefore sys assm (n + 1)).length) ∧
      Numbered sys assm (n + 1) cr' ∧ OnlyChanges assm cr cr' := by
  obtain ⟨td, htd⟩ := hidx
  obtain ⟨declaring, hown, hstatic⟩ := hfields.apart
  obtain ⟨cr', hlink, htotal, hoffset⟩ := linkType_eq h htd cr
  have hlen : (staticsBefore sys assm n).length + td.sFields_Num.toNat =
      (staticsBefore sys assm (n + 1)).length := by
    rw [staticsBefore_succ, List.length_append, staticFields_eq htd, List.length_map,
      List.length_range]
  rw [hlen] at hlink
  refine ⟨cr', hlink, ⟨fun t ht => ?_, fun t ht td' htd' f hf => ?_, fun t ht td' htd' f hf => ?_⟩,
    fun idx hne => ?_, fun f hne => ?_⟩
  · rw [htotal]
    rcases Nat.lt_succ_iff_lt_or_eq.mp ht with hlt | rfl
    · rw [Function.update_of_ne (by simp only [ne_eq, TypeDefIndex.mk.injEq]; omega)]
      exact hcr.total t hlt
    · rw [Function.update_self]
  · rw [hoffset]
    rcases Nat.lt_succ_iff_lt_or_eq.mp ht with hlt | rfl
    · rw [if_neg, if_neg]
      · exact hcr.own_offset t hlt td' htd' f hf
      · intro hf'
        have hdecl := (hown _ f hf).symm.trans (hstatic _ f hf')
        simp at hdecl
      · intro hf'
        have hdecl := (hown _ f hf).symm.trans (hown _ f hf')
        simp only [Prod.mk.injEq, TypeDefIndex.mk.injEq] at hdecl
        omega
    · rw [if_pos hf]
      obtain rfl := Option.some.inj (htd.symm.trans htd')
      rfl
  · rw [hoffset, if_neg]
    · rcases Nat.lt_succ_iff_lt_or_eq.mp ht with hlt | rfl
      · rw [if_neg]
        · exact hcr.static_offset t hlt td' htd' f hf
        · intro hf'
          have hdecl := (hstatic _ f hf).symm.trans (hstatic _ f hf')
          simp only [Prod.mk.injEq, TypeDefIndex.mk.injEq] at hdecl
          omega
      · rw [if_pos hf]
        obtain rfl := Option.some.inj (htd.symm.trans htd')
        rfl
    · intro hf'
      have hdecl := (hstatic _ f hf).symm.trans (hown _ f hf')
      simp at hdecl
  · rw [htotal, Function.update_of_ne]
    rintro rfl
    exact hne rfl
  · rw [hoffset, if_neg fun hf => hne ((mem_ownFields htd).mp hf).1,
      if_neg fun hf => hne ((mem_staticFields htd).mp hf).1]

theorem OnlyChanges.refl (assm : Nat) (cr : CrossReferences) : OnlyChanges assm cr cr :=
  ⟨fun _ _ => rfl, fun _ _ => rfl⟩

theorem OnlyChanges.trans {cr₁ cr₂ cr₃ : CrossReferences}
    (h : OnlyChanges assm cr₁ cr₂) (h' : OnlyChanges assm cr₂ cr₃) : OnlyChanges assm cr₁ cr₃ :=
  ⟨fun idx hne => (h'.1 idx hne).trans (h.1 idx hne),
    fun f hne => (h'.2 f hne).trans (h.2 f hne)⟩

theorem linkTypes_spec (h : sys.Linked) (hfields : FieldTables sys) :
    ∀ (types n : Nat) (cr : CrossReferences),
    (∀ t < n + types, sys.Valid ⟨assm, t⟩) → Numbered sys assm n cr →
    ∃ cr', linkTypes sys assm types n (staticsBefore sys assm n).length cr = some cr' ∧
      Numbered sys assm (n + types) cr' ∧ OnlyChanges assm cr cr' := by
  intro types
  induction types with
  | zero => exact fun n cr _ hcr => ⟨cr, rfl, hcr, OnlyChanges.refl assm cr⟩
  | succ types ih =>
    intro n cr hvalid hcr
    obtain ⟨cr₁, hlink, hcr₁, honly₁⟩ := linkType_spec h hfields (hvalid n (by omega)) hcr
    obtain ⟨cr', hrest, hcr', honly'⟩ := ih (n + 1) cr₁ (fun t ht => hvalid t (by omega)) hcr₁
    refine ⟨cr', ?_, ?_, honly₁.trans honly'⟩
    · rw [linkTypes, hlink]
      exact hrest
    · rw [← Nat.succ_add_eq_add_succ]
      exact hcr'

def typeCount (sys : TypeSystem) (assm : Nat) : Nat :=
  (sys.assemblies[assm]?.map fun a => a.typeDef.length).getD 0

theorem valid_iff {t : Nat} : sys.Valid ⟨assm, t⟩ ↔ t < typeCount sys assm := by
  rw [Valid, typeDef, typeCount]
  cases hassm : sys.assemblies[assm]? with
  | none => simp
  | some a => simp [List.getElem?_eq_some_iff]

theorem resolveLink_spec (h : sys.Linked) (hfields : FieldTables sys)
    (hassm : assm < sys.assemblies.length) (cr : CrossReferences) :
    ∃ cr', resolveLink sys assm cr = some cr' ∧ Numbered sys assm (typeCount sys assm) cr' ∧
      OnlyChanges assm cr cr' := by
  have hget := List.getElem?_eq_getElem hassm
  have hcount : typeCount sys assm = sys.assemblies[assm].typeDef.length := by
    rw [typeCount, hget]
    rfl
  obtain ⟨cr', hlink, hcr', honly⟩ := linkTypes_spec h hfields (typeCount sys assm) 0 cr
    (fun t ht => valid_iff.mpr (by rwa [Nat.zero_add] at ht))
    ⟨fun t ht => absurd ht (Nat.not_lt_zero t), fun t ht => absurd ht (Nat.not_lt_zero t),
      fun t ht => absurd ht (Nat.not_lt_zero t)⟩
  refine ⟨cr', ?_, ?_, honly⟩
  · rw [resolveLink, hget]
    simp only [Option.bind_eq_bind, Option.bind_some]
    rw [← hcount]
    exact hlink
  · rw [Nat.zero_add] at hcr'
    exact hcr'

/-- In whatever order the assemblies are linked, all of those linked are numbered. -/
theorem resolveLinkAll_spec (h : sys.Linked) (hfields : FieldTables sys) : ∀ (order : List Nat)
    (cr : CrossReferences), (∀ assm ∈ order, assm < sys.assemblies.length) →
    ∃ cr', resolveLinkAll sys order cr = some cr' ∧
      ∀ assm, (assm ∈ order ∨ Numbered sys assm (typeCount sys assm) cr) →
        Numbered sys assm (typeCount sys assm) cr' := by
  intro order
  induction order with
  | nil => exact fun cr _ => ⟨cr, rfl, fun assm h => h.resolve_left (List.not_mem_nil)⟩
  | cons first order ih =>
    intro cr horder
    obtain ⟨cr₁, hlink, hcr₁, honly⟩ := resolveLink_spec h hfields (horder first List.mem_cons_self)
      cr
    obtain ⟨cr', hrest, hall⟩ := ih cr₁ fun assm hassm => horder assm (List.mem_cons_of_mem _ hassm)
    refine ⟨cr', ?_, fun assm hassm => hall assm ?_⟩
    · rw [resolveLinkAll, hlink]
      exact hrest
    · by_cases hfirst : assm = first
      · subst hfirst
        exact Or.inr hcr₁
      · rcases hassm with hassm | hassm
        · exact Or.inl (List.mem_of_ne_of_mem hfirst hassm)
        · exact Or.inr (honly.numbered hfirst hassm)

/-! ### Offsets -/

/-- All assemblies have been linked. -/
def Laid (sys : TypeSystem) (cr : CrossReferences) : Prop :=
  ∀ assm, Numbered sys assm (typeCount sys assm) cr

theorem laid_of_resolveLinkAll (h : sys.Linked) (hfields : FieldTables sys) {order : List Nat}
    (horder : ∀ assm, assm ∈ order ↔ assm < sys.assemblies.length) (cr : CrossReferences) :
    ∃ cr', resolveLinkAll sys order cr = some cr' ∧ Laid sys cr' := by
  obtain ⟨cr', hlink, hall⟩ := resolveLinkAll_spec h hfields order cr fun assm => (horder assm).mp
  refine ⟨cr', hlink, fun assm => ?_⟩
  by_cases hassm : assm < sys.assemblies.length
  · exact hall assm (Or.inl ((horder assm).mpr hassm))
  · have hnone : typeCount sys assm = 0 := by
      rw [typeCount, List.getElem?_eq_none (Nat.le_of_not_lt hassm)]
      rfl
    rw [hnone]
    exact ⟨fun t ht => absurd ht (Nat.not_lt_zero t), fun t ht => absurd ht (Nat.not_lt_zero t),
      fun t ht => absurd ht (Nat.not_lt_zero t)⟩

theorem map_offset_eq_range' {f : Nat → FieldDefIndex} {start num : Nat}
    (h : ∀ k < num, cr.offset (f k) = start + k) :
    ((List.range num).map f).map cr.offset = List.range' start num := by
  rw [List.map_map, List.range'_eq_map_range]
  exact List.map_congr_left fun k hk => h k (List.mem_range.mp hk)

theorem map_offset_ownFields (h : sys.Linked) (hcr : Laid sys cr) (hidx : sys.Valid idx)
    (hsmall : (fieldsOf sys idx).length < 2 ^ 16) :
    (ownFields sys idx).map cr.offset =
      List.range' (1 + (inheritedFields sys idx).length) (ownFields sys idx).length := by
  obtain ⟨assm, t⟩ := idx
  have hlt := valid_iff.mp hidx
  obtain ⟨td, htd⟩ := hidx
  have hlen := congrArg List.length (fieldsOf_eq h ⟨td, htd⟩)
  rw [List.length_append, length_ownFields htd] at hlen
  have hoffset := (hcr assm).own_offset t hlt td htd
  rw [uint16_eq_toNat (Int.natCast_nonneg _) (by exact_mod_cast hsmall)] at hoffset
  rw [length_ownFields htd, ownFields_eq htd]
  refine map_offset_eq_range' fun k hk => ?_
  rw [hoffset _ ((mem_ownFields htd).mpr ⟨rfl, Nat.le_add_right _ _, by simp only; omega⟩),
    uint16_eq_toNat (by simp only; omega) (by simp only; omega)]
  simp only
  omega

theorem map_offset_fieldsOf (h : sys.Linked) (hcr : Laid sys cr) : ∀ idx, sys.Valid idx →
    (fieldsOf sys idx).length < 2 ^ 16 →
    (fieldsOf sys idx).map cr.offset = List.range' 1 (fieldsOf sys idx).length := by
  refine h.induction (fun idx hidx hp hsmall => ?_) (fun idx p hidx hp ih hsmall => ?_)
  · have hown := map_offset_ownFields h hcr hidx hsmall
    rw [fieldsOf_root hp, hown, inheritedFields, hp]
    rfl
  · have hown := map_offset_ownFields h hcr hidx hsmall
    have hinherited : inheritedFields sys idx = fieldsOf sys p := by
      rw [inheritedFields, hp]
    rw [fieldsOf_child h hidx hp, List.length_append] at hsmall
    rw [fieldsOf_child h hidx hp, List.map_append, ih (by omega), hown, hinherited,
      List.length_append, List.range'_append_1]

theorem totalFields_eq (hcr : Laid sys cr) (hidx : sys.Valid idx)
    (hsmall : (fieldsOf sys idx).length < 2 ^ 16) :
    cr.totalFields idx = (fieldsOf sys idx).length := by
  rw [(hcr idx.assembly).total idx.type (valid_iff.mp hidx),
    uint16_eq_toNat (Int.natCast_nonneg _) (by exact_mod_cast hsmall), Int.toNat_natCast]

theorem nodup_staticFields (idx : TypeDefIndex) : (staticFields sys idx).Nodup := by
  rw [staticFields]
  cases sys.typeDef idx with
  | none => exact List.nodup_nil
  | some td =>
    refine (List.nodup_range).map fun k k' hk => ?_
    simp only [FieldDefIndex.mk.injEq] at hk
    omega

theorem mem_staticsBefore {f : FieldDefIndex} (h : f ∈ staticsBefore sys assm n) :
    ∃ t < n, f ∈ staticFields sys ⟨assm, t⟩ := by
  obtain ⟨t, ht, hf⟩ := List.mem_flatMap.mp h
  exact ⟨t, List.mem_range.mp ht, hf⟩

theorem nodup_staticsBefore (hfields : FieldTables sys) (assm n : Nat) :
    (staticsBefore sys assm n).Nodup := by
  obtain ⟨declaring, -, hstatic⟩ := hfields.apart
  induction n with
  | zero => exact List.nodup_nil
  | succ n ih =>
    rw [staticsBefore_succ]
    refine ih.append (nodup_staticFields _) fun f hf hf' => ?_
    obtain ⟨t, ht, hft⟩ := mem_staticsBefore hf
    have hdecl := (hstatic _ f hft).symm.trans (hstatic _ f hf')
    simp only [Prod.mk.injEq, TypeDefIndex.mk.injEq] at hdecl
    omega

theorem length_staticsBefore (hfields : FieldTables sys) (assm n : Nat) :
    (staticsBefore sys assm n).length ≤ 0xFFFF := by
  have hassm : ∀ f ∈ staticsBefore sys assm n, f.assembly = assm := by
    intro f hf
    obtain ⟨t, -, hft⟩ := mem_staticsBefore hf
    cases htd : sys.typeDef ⟨assm, t⟩ with
    | none => simp [staticFields, htd] at hft
    | some td => exact ((mem_staticFields htd).mp hft).1
  have hnodup : ((staticsBefore sys assm n).map FieldDefIndex.field).Nodup := by
    refine (nodup_staticsBefore hfields assm n).map_on fun f hf g hg hfg => ?_
    have hsame := (hassm f hf).trans (hassm g hg).symm
    cases f
    cases g
    simp_all
  have hsub : (staticsBefore sys assm n).map FieldDefIndex.field ⊆ List.range 0xFFFF := by
    intro k hk
    obtain ⟨f, hf, rfl⟩ := List.mem_map.mp hk
    obtain ⟨t, -, hft⟩ := mem_staticsBefore hf
    obtain ⟨a, ha, hlt⟩ := hfields.inside ⟨assm, t⟩ f (List.mem_append_right _ hft)
    have hsize := hfields.size a (List.mem_of_getElem? ha)
    exact List.mem_range.mpr (Nat.lt_of_lt_of_le hlt hsize)
  have hle := (List.subperm_of_subset hnodup hsub).length_le
  rwa [List.length_map, List.length_range] at hle

theorem map_offset_staticsBefore (hfields : FieldTables sys) (hcr : Laid sys cr) :
    ∀ n ≤ typeCount sys assm, (staticsBefore sys assm n).map cr.offset =
      List.range' 0 (staticsBefore sys assm n).length := by
  intro n
  induction n with
  | zero => exact fun _ => rfl
  | succ n ih =>
    intro hn
    obtain ⟨td, htd⟩ := valid_iff.mpr (Nat.lt_of_succ_le hn)
    have hsmall := length_staticsBefore hfields assm (n + 1)
    have hoffset := (hcr assm).static_offset n (Nat.lt_of_succ_le hn) td htd
    rw [staticsBefore_succ, List.length_append] at hsmall
    have hcount : (staticFields sys ⟨assm, n⟩).length = td.sFields_Num.toNat := by
      rw [staticFields_eq htd, List.length_map, List.length_range]
    have hstatic : (staticFields sys ⟨assm, n⟩).map cr.offset =
        List.range' (0 + (staticsBefore sys assm n).length)
          (staticFields sys ⟨assm, n⟩).length := by
      rw [hcount] at hsmall ⊢
      rw [Nat.zero_add, staticFields_eq htd]
      refine map_offset_eq_range' fun k hk => ?_
      rw [hoffset _ ((mem_staticFields htd).mpr ⟨rfl, Nat.le_add_right _ _, by simp only; omega⟩),
        uint16_eq_toNat (by simp only; omega) (by simp only; omega)]
      simp only
      omega
    rw [staticsBefore_succ, List.map_append, ih (Nat.le_of_succ_le hn), hstatic,
      List.length_append, List.range'_append_1]

theorem staticFieldsOf_eq (assm : Nat) :
    staticFieldsOf sys assm = staticsBefore sys assm (typeCount sys assm) := rfl

theorem length_staticFieldsOf (assm : Nat) :
    (staticFieldsOf sys assm).length = iStaticFields sys assm := by
  rw [staticFieldsOf, iStaticFields, List.length_flatMap]
  cases hassm : sys.assemblies[assm]? with
  | none => rfl
  | some a =>
    simp only [Option.map_some, Option.getD_some]
    refine congrArg List.sum (List.ext_getElem (by simp) fun t ht ht' => ?_)
    have hlt : t < a.typeDef.length := by simpa using ht
    have htd : sys.typeDef ⟨assm, t⟩ = some a.typeDef[t] := by
      rw [typeDef, hassm]
      exact List.getElem?_eq_getElem hlt
    simp [staticFields_eq htd]

end TinyClr.FieldLayout
