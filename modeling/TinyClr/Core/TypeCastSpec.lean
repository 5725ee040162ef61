import TinyClr.Core.TypeCast

/-!
# Assignability

`Assignable` is the relation the type tests are meant to decide, on types with a number of array
levels.  `IsInstanceOf` differs from it in two places: an array passes for an instance of whatever
has fewer array levels, because the source is compared with `System.Array` where the target should
be, and arrays of a class are no arrays of an interface it implements.
-/

namespace TinyClr.ExecutionEngine

open TinyClr.Library TypeSystem TypeDescriptor

variable {sys : TypeSystem} {s t u : TypeDefIndex} {levels levelsTarget : Nat}

/-! ### The relation -/

def semanticsOf (sys : TypeSystem) (t : TypeDefIndex) : Option TypeSemantics :=
  (sys.typeDef t).map fun td => td.semantics

def IsReference (sys : TypeSystem) (t : TypeDefIndex) : Prop :=
  semanticsOf sys t = some .classType ∨ semanticsOf sys t = some .interface

def Lists (sys : TypeSystem) (s t : TypeDefIndex) : Prop :=
  semanticsOf sys t = some .interface ∧ ∃ td, sys.typeDef s = some td ∧
    ∃ tk ∈ td.interfaces, sys.resolveToken s.assembly tk = some (some t)

/-- Assignability of types that are no arrays: to themselves, their ancestors, and the interfaces
    these list -/
def ClassAssignable (sys : TypeSystem) (s t : TypeDefIndex) : Prop :=
  ∃ a, Ancestor sys.parent s a ∧ (a = t ∨ Lists sys a t)

def Assignable (sys : TypeSystem) : Nat → TypeDefIndex → Nat → TypeDefIndex → Prop
  | 0, s, 0, t => ClassAssignable sys s t
  | _ + 1, _, 0, t => ClassAssignable sys sys.wellKnown.array t
  | 0, _, _ + 1, _ => False
  | m + 1, s, n + 1, t => (m = n ∧ s = t) ∨
      ((0 < m ∨ IsReference sys s) ∧ (0 < n ∨ IsReference sys t) ∧ Assignable sys m s n t)

/-- Interface lists name types of the tables, and `System.Array` is a class. -/
structure Interfaces (sys : TypeSystem) : Prop where
  resolved : ∀ idx td, sys.typeDef idx = some td → ∀ tk ∈ td.interfaces,
    ∃ cls, sys.resolveToken idx.assembly tk = some (some cls)
  array_class : semanticsOf sys sys.wellKnown.array = some .classType

theorem Interfaces.array_valid (hlists : Interfaces sys) : sys.Valid sys.wellKnown.array := by
  have hclass := hlists.array_class
  rw [semanticsOf] at hclass
  obtain ⟨td, htd, -⟩ := Option.map_eq_some_iff.mp hclass
  exact ⟨td, htd⟩

/-- Whether the interface lists name types of the tables -/
def checkInterfaces (sys : TypeSystem) : Bool :=
  sys.types.all fun idx => (sys.typeDef idx).all fun td =>
    td.interfaces.all fun tk => (sys.resolveToken idx.assembly tk).join.isSome

theorem interfaces_of_check (h : checkInterfaces sys = true)
    (harray : semanticsOf sys sys.wellKnown.array = some .classType) : Interfaces sys := by
  refine ⟨fun idx td htd tk htk => ?_, harray⟩
  have hall := List.all_eq_true.mp h idx (mem_types ⟨td, htd⟩)
  have hsome := List.all_eq_true.mp ((Option.all_eq_true _ _).mp hall td htd) tk htk
  obtain ⟨cls, hcls⟩ := Option.isSome_iff_exists.mp hsome
  exact ⟨cls, Option.join_eq_some_iff.mp hcls⟩

theorem classAssignable_refl (s : TypeDefIndex) : ClassAssignable sys s s :=
  ⟨s, Relation.ReflTransGen.refl, Or.inl rfl⟩

theorem assignable_refl (levels : Nat) (s : TypeDefIndex) : Assignable sys levels s levels s := by
  cases levels with
  | zero => exact classAssignable_refl s
  | succ n => exact Or.inl ⟨rfl, rfl⟩

/-! ### The walk over parents and interfaces -/

theorem scanInterfaces_spec {assm : Nat} : ∀ (tokens : List Token),
    (∀ tk ∈ tokens, ∃ cls, sys.resolveToken assm tk = some (some cls)) →
    ∃ b, scanInterfaces sys assm t tokens = some b ∧
      (b = true ↔ ∃ tk ∈ tokens, sys.resolveToken assm tk = some (some t)) := by
  intro tokens
  induction tokens with
  | nil => exact fun _ => ⟨false, rfl, by simp⟩
  | cons tk tokens ih =>
    intro hresolved
    obtain ⟨cls, hcls⟩ := hresolved tk List.mem_cons_self
    rw [scanInterfaces, hcls]
    simp only [Option.bind_eq_bind, Option.bind_some]
    by_cases heq : cls = t
    · rw [if_pos heq]
      refine ⟨true, rfl, iff_of_true rfl ⟨tk, List.mem_cons_self, ?_⟩⟩
      rw [hcls, heq]
    · rw [if_neg heq]
      obtain ⟨b, hscan, hb⟩ := ih fun tk htk => hresolved tk (List.mem_cons_of_mem _ htk)
      refine ⟨b, hscan, hb.trans ⟨?_, ?_⟩⟩
      · rintro ⟨tk', htk', hres⟩
        exact ⟨tk', List.mem_cons_of_mem _ htk', hres⟩
      · rintro ⟨tk', htk', hres⟩
        rcases List.mem_cons.mp htk' with rfl | htk'
        · rw [hcls] at hres
          exact absurd (Option.some.inj (Option.some.inj hres)) heq
        · exact ⟨tk', htk', hres⟩

/-- A type is assignable to itself, to what its interface list has, and to what its parent is
    assignable to. -/
theorem classAssignable_iff : ClassAssignable sys s t ↔
    s = t ∨ Lists sys s t ∨ ∃ p, sys.parent s = some p ∧ ClassAssignable sys p t := by
  constructor
  · rintro ⟨a, hsa, hat⟩
    rcases Relation.ReflTransGen.cases_head hsa with rfl | ⟨p, hp, hpa⟩
    · rcases hat with rfl | hlists
      · exact Or.inl rfl
      · exact Or.inr (Or.inl hlists)
    · exact Or.inr (Or.inr ⟨p, hp, a, hpa, hat⟩)
  · rintro (rfl | hlists | ⟨p, hp, a, hpa, hat⟩)
    · exact classAssignable_refl _
    · exact ⟨s, Relation.ReflTransGen.refl, Or.inr hlists⟩
    · exact ⟨a, Relation.ReflTransGen.head hp hpa, hat⟩

theorem searchHierarchy_spec (h : sys.Linked) (hlists : Interfaces sys) {semantic : TypeSemantics}
    (hsemantic : semanticsOf sys t = some semantic) : ∀ (fuel : Nat) (s : TypeDefIndex),
    sys.Valid s → (Library.lineage sys.parent fuel s).length < fuel →
    ∃ b, searchHierarchy sys t semantic fuel s = some b ∧
      (b = true ↔ ClassAssignable sys s t) := by
  intro fuel
  induction fuel with
  | zero => exact fun s _ hfuel => absurd hfuel (Nat.not_lt_zero _)
  | succ fuel ih =>
    intro s hs hfuel
    obtain ⟨td, htd⟩ := hs
    rw [searchHierarchy]
    by_cases heq : s = t
    · rw [if_pos heq]
      exact ⟨true, rfl, iff_of_true rfl (classAssignable_iff.mpr (Or.inl heq))⟩
    · obtain ⟨listed, hscan, hlisted⟩ : ∃ listed,
          (if semantic = .interface then scanInterfaces sys s.assembly t td.interfaces
            else some false) = some listed ∧ (listed = true ↔ Lists sys s t) := by
        by_cases hinterface : semantic = .interface
        · obtain ⟨b, hscan, hb⟩ := scanInterfaces_spec (t := t) td.interfaces
            (hlists.resolved s td htd)
          refine ⟨b, by rw [if_pos hinterface, hscan], hb.trans ⟨fun hmem => ?_, ?_⟩⟩
          · exact ⟨by rw [hsemantic, hinterface], td, htd, hmem⟩
          · rintro ⟨-, td', htd', hmem⟩
            obtain rfl := Option.some.inj (htd.symm.trans htd')
            exact hmem
        · refine ⟨false, by rw [if_neg hinterface], by simp, ?_⟩
          rintro ⟨hface, -⟩
          rw [hsemantic] at hface
          exact absurd (Option.some.inj hface) hinterface
      rw [if_neg heq, htd, h.switchToParent_eq ⟨td, htd⟩]
      simp only [Option.bind_eq_bind, Option.bind_some, hscan]
      by_cases hfound : listed = true
      · rw [if_pos hfound]
        exact ⟨true, rfl, iff_of_true rfl
          (classAssignable_iff.mpr (Or.inr (Or.inl (hlisted.mp hfound))))⟩
      · rw [if_neg hfound]
        have hnot : ¬ Lists sys s t := fun hl => hfound (hlisted.mpr hl)
        cases hp : sys.parent s with
        | none =>
          refine ⟨false, rfl, iff_of_false Bool.false_ne_true fun hca => ?_⟩
          rcases classAssignable_iff.mp hca with hst | hl | ⟨p, hp', -⟩
          · exact heq hst
          · exact hnot hl
          · rw [hp] at hp'
            cases hp'
        | some p =>
          rw [Library.lineage_child hp] at hfuel
          obtain ⟨b, hsearch, hb⟩ := ih p (h.valid_parent ⟨td, htd⟩ hp) (Nat.lt_of_succ_lt_succ hfuel)
          refine ⟨b, hsearch, hb.trans ⟨fun hca => ?_, fun hca => ?_⟩⟩
          · exact classAssignable_iff.mpr (Or.inr (Or.inr ⟨p, hp, hca⟩))
          · rcases classAssignable_iff.mp hca with hst | hl | ⟨q, hq, hca⟩
            · exact absurd hst heq
            · exact absurd hl hnot
            · rw [hp] at hq
              rw [Option.some.inj hq]
              exact hca

/-! ### `IsInstanceOf` -/

def dataTypeOf (sys : TypeSystem) (t : TypeDefIndex) : Option DataType :=
  (sys.typeDef t).map fun td => td.dataType

def describe (sys : TypeSystem) (levels : Nat) (t : TypeDefIndex) : TypeDescriptor where
  handlerCls := if levels = 0 then t else sys.wellKnown.array
  levels := levels
  type := t

/-- The classes that `IsInstanceOf` takes every array for an instance of -/
def ArrayShortcut (sys : TypeSystem) (t : TypeDefIndex) : Prop :=
  t = sys.wellKnown.array ∨ t = sys.wellKnown.object ∨ t = sys.wellKnown.iList ∨
    t = sys.wellKnown.iCloneable

/-- When `IsInstanceOf` answers true of a descriptor and a described target -/
def Accepts (sys : TypeSystem) (desc : TypeDescriptor) (n : Nat) (t : TypeDefIndex) : Prop :=
  (desc.levels = 0 ∧ n = 0 ∧ ClassAssignable sys desc.handlerCls t) ∨
  (desc.levels = n ∧ 0 < n ∧ semanticsOf sys desc.type = semanticsOf sys t ∧
    ClassAssignable sys desc.type t) ∨
  (n < desc.levels ∧ (ArrayShortcut sys desc.handlerCls ∨
    (dataTypeOf sys desc.handlerCls = dataTypeOf sys t ∧
      (0 < n → semanticsOf sys desc.handlerCls = semanticsOf sys t) ∧
      ClassAssignable sys desc.handlerCls t)))

theorem initializeFromType_eq (hs : sys.Valid s) :
    initializeFromType sys s = some { handlerCls := s, levels := 0, type := s } := by
  obtain ⟨td, htd⟩ := hs
  rw [initializeFromType, htd]
  rfl

theorem getElementType_eq {h : TypeDefIndex} {m : Nat} (hs : sys.Valid s) :
    getElementType sys ⟨h, m + 1, s⟩ = some ⟨if m = 0 then s else h, m, s⟩ := by
  cases m with
  | zero => exact initializeFromType_eq hs
  | succ m => rfl

/-- The class that is recorded after `n` levels have been taken off, where there are that many -/
def peeledCls (m n : Nat) (s h : TypeDefIndex) : TypeDefIndex := if 0 < m ∧ m ≤ n then s else h

theorem peeledCls_succ (m n : Nat) (s h : TypeDefIndex) :
    peeledCls m n s (if m = 0 then s else h) = peeledCls (m + 1) (n + 1) s h := by
  rw [peeledCls, peeledCls]
  by_cases hm : m = 0
  · rw [if_pos hm, ite_self, if_pos ⟨Nat.succ_pos m, by omega⟩]
  · rw [if_neg hm]
    exact if_congr (by omega) rfl rfl

theorem peel_eq (hs : sys.Valid s) (ht : sys.Valid t) : ∀ (fuel m n : Nat) (h hTarget : TypeDefIndex)
    (fArray : Bool), m < fuel →
    peel sys fuel ⟨h, m, s⟩ ⟨hTarget, n, t⟩ fArray =
      some (⟨peeledCls m n s h, m - n, s⟩, ⟨peeledCls n m t hTarget, n - m, t⟩,
        fArray || decide (0 < m ∧ 0 < n)) := by
  intro fuel
  induction fuel with
  | zero => exact fun m _ _ _ _ hm => absurd hm (Nat.not_lt_zero m)
  | succ fuel ih =>
    intro m n h hTarget fArray hm
    rw [peel]
    by_cases hboth : m > 0 ∧ n > 0
    · obtain ⟨m, rfl⟩ := Nat.exists_eq_succ_of_ne_zero (Nat.ne_of_gt hboth.1)
      obtain ⟨n, rfl⟩ := Nat.exists_eq_succ_of_ne_zero (Nat.ne_of_gt hboth.2)
      rw [if_pos hboth, getElementType_eq hs, getElementType_eq ht]
      simp only [Option.bind_eq_bind, Option.bind_some]
      rw [ih m n _ _ true (Nat.lt_of_succ_lt_succ hm), peeledCls_succ, peeledCls_succ,
        Nat.succ_sub_succ, Nat.succ_sub_succ, Bool.true_or, decide_eq_true hboth, Bool.or_true]
    · have hm' : m - n = m := by omega
      have hn' : n - m = n := by omega
      have hcls : peeledCls m n s h = h := if_neg (by omega)
      have hclsTarget : peeledCls n m t hTarget = hTarget := if_neg (by omega)
      rw [if_neg hboth, hm', hn', hcls, hclsTarget, decide_eq_false hboth, Bool.or_false]

theorem typeDef_ne_iff {td td' : TypeDefRecord} (htd : sys.typeDef s = some td)
    (htd' : sys.typeDef t = some td') :
    (td.dataType = td'.dataType ↔ dataTypeOf sys s = dataTypeOf sys t) ∧
      (td.semantics = td'.semantics ↔ semanticsOf sys s = semanticsOf sys t) := by
  rw [dataTypeOf, dataTypeOf, semanticsOf, semanticsOf, htd, htd']
  exact ⟨Option.some_inj.symm, Option.some_inj.symm⟩

/-- What the comparison after the loop answers: of the two one has no levels left. -/
theorem comparePeeled_spec (h : sys.Linked) (hlists : Interfaces sys)
    (desc descTarget : TypeDescriptor) (hinst : sys.Valid desc.handlerCls)
    (htarget : sys.Valid descTarget.handlerCls) (fArray : Bool) :
    ∃ b, comparePeeled sys desc descTarget fArray = some b ∧
      (b = true ↔ descTarget.levels ≤ desc.levels ∧
        ((descTarget.levels < desc.levels ∧ descTarget.levels = 0 ∧
            ArrayShortcut sys desc.handlerCls) ∨
          ((descTarget.levels < desc.levels →
              dataTypeOf sys desc.handlerCls = dataTypeOf sys descTarget.handlerCls) ∧
            (fArray = true →
              semanticsOf sys desc.handlerCls = semanticsOf sys descTarget.handlerCls) ∧
            ClassAssignable sys desc.handlerCls descTarget.handlerCls))) := by
  obtain ⟨td, htd⟩ := id hinst
  obtain ⟨tdTarget, htdTarget⟩ := id htarget
  obtain ⟨hdataType, hsemantics⟩ := typeDef_ne_iff htd htdTarget
  rw [comparePeeled, htd, htdTarget, ArrayShortcut]
  simp only [Option.bind_eq_bind, Option.bind_some]
  by_cases hlt : desc.levels < descTarget.levels
  · rw [if_pos hlt]
    exact ⟨false, rfl, iff_of_false Bool.false_ne_true fun hall => absurd hall.1 (by omega)⟩
  · rw [if_neg hlt]
    by_cases hshort : desc.levels > descTarget.levels ∧ descTarget.levels = 0 ∧
        (desc.handlerCls = sys.wellKnown.array ∨ desc.handlerCls = sys.wellKnown.object ∨
          desc.handlerCls = sys.wellKnown.iList ∨ desc.handlerCls = sys.wellKnown.iCloneable)
    · rw [if_pos hshort]
      exact ⟨true, rfl, iff_of_true rfl ⟨Nat.le_of_not_lt hlt, Or.inl hshort⟩⟩
    · rw [if_neg hshort]
      by_cases hdt : desc.levels > descTarget.levels ∧ td.dataType ≠ tdTarget.dataType
      · rw [if_pos hdt]
        refine ⟨false, rfl, iff_of_false Bool.false_ne_true ?_⟩
        rintro ⟨-, hin | ⟨heq, -⟩⟩
        · exact hshort hin
        · exact hdt.2 (hdataType.mpr (heq hdt.1))
      · rw [if_neg hdt]
        by_cases hsem : fArray = true ∧ td.semantics ≠ tdTarget.semantics
        · rw [if_pos hsem]
          refine ⟨false, rfl, iff_of_false Bool.false_ne_true ?_⟩
          rintro ⟨-, hin | ⟨-, heq, -⟩⟩
          · exact hshort hin
          · exact hsem.2 (hsemantics.mpr (heq hsem.1))
        · rw [if_neg hsem]
          obtain ⟨b, hb, hiff⟩ := searchHierarchy_spec h hlists
            (show semanticsOf sys descTarget.handlerCls = some tdTarget.semantics by
              rw [semanticsOf, htdTarget]; rfl) _ _ hinst (h.length_lineage hinst)
          refine ⟨b, hb, hiff.trans ⟨fun hca => ⟨Nat.le_of_not_lt hlt, Or.inr ⟨?_, ?_, hca⟩⟩, ?_⟩⟩
          · exact fun hgt => hdataType.mp (not_not.mp fun hne => hdt ⟨hgt, hne⟩)
          · exact fun harray => hsemantics.mp (not_not.mp fun hne => hsem ⟨harray, hne⟩)
          · rintro ⟨-, hin | ⟨-, -, hca⟩⟩
            · exact absurd hin hshort
            · exact hca

/-- What `IsInstanceOf` answers of a descriptor and a described target -/
theorem isInstanceOf_spec (h : sys.Linked) (hlists : Interfaces sys) (desc : TypeDescriptor)
    (hinst : sys.Valid desc.handlerCls) (hs : sys.Valid desc.type) (n : Nat) (ht : sys.Valid t) :
    ∃ b, isInstanceOf sys desc (describe sys n t) = some b ∧ (b = true ↔ Accepts sys desc n t) := by
  obtain ⟨cls, m, s⟩ := desc
  have hcls : sys.Valid (peeledCls m n s cls) := by
    rw [peeledCls]
    split
    exacts [hs, hinst]
  have hclsTarget : sys.Valid (peeledCls n m t (describe sys n t).handlerCls) := by
    rw [peeledCls, describe]
    split
    · exact ht
    · simp only
      split
      exacts [ht, hlists.array_valid]
  obtain ⟨b, hb, hiff⟩ := comparePeeled_spec h hlists ⟨peeledCls m n s cls, m - n, s⟩
    ⟨peeledCls n m t (describe sys n t).handlerCls, n - m, t⟩ hcls hclsTarget
    (decide (0 < m ∧ 0 < n))
  refine ⟨b, ?_, hiff.trans ?_⟩
  · rw [isInstanceOf]
    have hpeel := peel_eq hs ht (m + 1) m n cls (describe sys n t).handlerCls false
      (Nat.lt_succ_self m)
    rw [Bool.false_or] at hpeel
    rw [show describe sys n t = ⟨(describe sys n t).handlerCls, n, t⟩ from rfl, hpeel]
    exact hb
  · simp only [Accepts, decide_eq_true_eq]
    rcases Nat.lt_trichotomy m n with hlt | rfl | hgt
    · refine iff_of_false (fun hall => by omega) ?_
      rintro (⟨-, h0, -⟩ | ⟨heq, -⟩ | ⟨hgt, -⟩) <;> omega
    · by_cases hm : m = 0
      · have h1 : peeledCls m m s cls = cls := if_neg (by omega)
        have h2 : peeledCls m m t (describe sys m t).handlerCls = t := by
          rw [peeledCls, describe, hm]
          rfl
        rw [h1, h2]
        constructor
        · rintro ⟨-, ⟨hlt, -⟩ | ⟨-, -, hca⟩⟩
          · omega
          · exact Or.inl ⟨hm, hm, hca⟩
        · rintro (⟨-, -, hca⟩ | ⟨-, hpos, -⟩ | ⟨hlt, -⟩)
          · exact ⟨Nat.le_refl _, Or.inr ⟨fun hlt => by omega, fun hpos => by omega, hca⟩⟩
          · omega
          · omega
      · have hpos : 0 < m := Nat.pos_of_ne_zero hm
        have h1 : peeledCls m m s cls = s := if_pos ⟨hpos, Nat.le_refl m⟩
        have h2 : peeledCls m m t (describe sys m t).handlerCls = t := if_pos ⟨hpos, Nat.le_refl m⟩
        rw [h1, h2]
        constructor
        · rintro ⟨-, ⟨hlt, -⟩ | ⟨-, hsem, hca⟩⟩
          · omega
          · exact Or.inr (Or.inl ⟨rfl, hpos, hsem ⟨hpos, hpos⟩, hca⟩)
        · rintro (⟨h0, -⟩ | ⟨-, -, hsem, hca⟩ | ⟨hlt, -⟩)
          · omega
          · exact ⟨Nat.le_refl _, Or.inr ⟨fun hlt => by omega, fun _ => hsem, hca⟩⟩
          · omega
    · have hm : 0 < m := Nat.zero_lt_of_lt hgt
      have h1 : peeledCls m n s cls = cls := if_neg (by omega)
      have h2 : peeledCls n m t (describe sys n t).handlerCls = t := by
        rw [peeledCls, describe]
        by_cases hn : n = 0
        · rw [if_neg (by omega)]
          exact if_pos hn
        · rw [if_pos ⟨Nat.pos_of_ne_zero hn, Nat.le_of_lt hgt⟩]
      have h3 : n - m < m - n := by omega
      have h4 : n - m = 0 := by omega
      rw [h1, h2]
      constructor
      · rintro ⟨-, ⟨-, -, hshort⟩ | ⟨hdt, hsem, hca⟩⟩
        · exact Or.inr (Or.inr ⟨hgt, Or.inl hshort⟩)
        · exact Or.inr (Or.inr ⟨hgt, Or.inr ⟨hdt h3, fun hn => hsem ⟨hm, hn⟩, hca⟩⟩)
      · rintro (⟨h0, -⟩ | ⟨heq, -⟩ | ⟨-, hshort | ⟨hdt, hsem, hca⟩⟩)
        · omega
        · omega
        · exact ⟨Nat.le_of_lt h3, Or.inl ⟨h3, h4, hshort⟩⟩
        · exact ⟨Nat.le_of_lt h3, Or.inr ⟨fun _ => hdt, fun hmn => hsem hmn.2, hca⟩⟩

/-! ### Assignability of arrays -/

theorem not_assignable_of_lt {m n : Nat} (hlt : m < n) : ¬ Assignable sys m s n t := by
  induction m generalizing n with
  | zero =>
    obtain ⟨n, rfl⟩ := Nat.exists_eq_succ_of_ne_zero (Nat.ne_of_gt hlt)
    exact not_false
  | succ m ih =>
    obtain ⟨n, rfl⟩ := Nat.exists_eq_succ_of_ne_zero (Nat.ne_of_gt (Nat.zero_lt_of_lt hlt))
    have hlt' := Nat.lt_of_succ_lt_succ hlt
    rintro (⟨heq, -⟩ | ⟨-, -, hassign⟩)
    · exact Nat.ne_of_lt hlt' heq
    · exact ih hlt' hassign

theorem assignable_same (m : Nat) : Assignable sys (m + 1) s (m + 1) t ↔
    s = t ∨ (IsReference sys s ∧ IsReference sys t ∧ ClassAssignable sys s t) := by
  induction m with
  | zero => simp [Assignable]
  | succ m ih =>
    rw [Assignable, ih]
    constructor
    · rintro (⟨-, heq⟩ | ⟨-, -, hassign⟩)
      · exact Or.inl heq
      · exact hassign
    · exact fun hassign => Or.inr ⟨Or.inl m.succ_pos, Or.inl m.succ_pos, hassign⟩

theorem assignable_of_gt {m n : Nat} (hgt : n < m) : Assignable sys m s n t ↔
    (n = 0 ∨ IsReference sys t) ∧ ClassAssignable sys sys.wellKnown.array t := by
  obtain ⟨m, rfl⟩ := Nat.exists_eq_succ_of_ne_zero (Nat.ne_of_gt (Nat.zero_lt_of_lt hgt))
  induction n generalizing m with
  | zero => simp [Assignable]
  | succ n ih =>
    have hgt' := Nat.lt_of_succ_lt_succ hgt
    obtain ⟨m, rfl⟩ := Nat.exists_eq_succ_of_ne_zero (Nat.ne_of_gt (Nat.zero_lt_of_lt hgt'))
    rw [Assignable, ih m hgt']
    constructor
    · rintro (⟨heq, -⟩ | ⟨-, hpos | href, hzero, hassign⟩)
      · omega
      · exact ⟨Or.inr (hzero.resolve_left (Nat.ne_of_gt hpos)), hassign⟩
      · exact ⟨Or.inr href, hassign⟩
    · rintro ⟨hzero, hassign⟩
      have href := hzero.resolve_left n.succ_ne_zero
      exact Or.inr ⟨Or.inl m.succ_pos, Or.inr href, Or.inr href, hassign⟩

/-- The interface lists name all interfaces, those of an interface included. -/
def InterfacesClosed (sys : TypeSystem) : Prop :=
  ∀ s t u, Lists sys s t → ClassAssignable sys t u → ClassAssignable sys s u

theorem classAssignable_trans (hclosed : InterfacesClosed sys) (hst : ClassAssignable sys s t)
    (htu : ClassAssignable sys t u) : ClassAssignable sys s u := by
  obtain ⟨a, hsa, hat⟩ := hst
  have hau : ClassAssignable sys a u := by
    rcases hat with rfl | hlists
    · exact htu
    · exact hclosed a t u hlists htu
  exact hau.imp fun _ hb => ⟨hsa.trans hb.1, hb.2⟩

/-- Where the interface lists are closed, assignability composes over any array levels. -/
theorem assignable_trans (hclosed : InterfacesClosed sys) : ∀ (m n k : Nat) {s t u : TypeDefIndex},
    Assignable sys m s n t → Assignable sys n t k u → Assignable sys m s k u := by
  intro m
  induction m with
  | zero =>
    intro n k s t u hst htu
    cases n with
    | succ n => exact absurd hst not_false
    | zero =>
      cases k with
      | succ k => exact absurd htu not_false
      | zero => exact classAssignable_trans hclosed hst htu
  | succ m ih =>
    intro n k s t u hst htu
    cases n with
    | zero =>
      cases k with
      | succ k => exact absurd htu not_false
      | zero => exact classAssignable_trans hclosed hst htu
    | succ n =>
      cases k with
      | zero => exact htu
      | succ k =>
        rcases hst with ⟨rfl, rfl⟩ | ⟨hs, ht, hst⟩
        · exact htu
        · rcases htu with ⟨rfl, rfl⟩ | ⟨-, hu, htu⟩
          · exact Or.inr ⟨hs, ht, hst⟩
          · exact Or.inr ⟨hs, hu, ih n k hst htu⟩

/-! ### Where the answers agree -/

/-- A question is answered, with true exactly when `p` holds. -/
def Decides (answer : Option Bool) (p : Prop) : Prop := ∃ b, answer = some b ∧ (b = true ↔ p)

theorem decides_iff {answer : Option Bool} {p q : Prop} (h : Decides answer p) :
    Decides answer q ↔ (p ↔ q) := by
  obtain ⟨b, hb, hp⟩ := h
  constructor
  · rintro ⟨b', hb', hq⟩
    rw [hb] at hb'
    rw [← hp, ← hq, Option.some.inj hb']
  · exact fun hpq => ⟨b, hb, hp.trans hpq⟩

/-- Where `IsInstanceOf` is right: a source with more levels than the target has a target that
    `System.Array` is assignable to, and of two different element types that would be assignable
    both or none are reference types exactly if they have the same semantics. -/
def TypesAgree (sys : TypeSystem) (m : Nat) (s : TypeDefIndex) (n : Nat) (t : TypeDefIndex) :
    Prop :=
  (n < m → (n = 0 ∨ IsReference sys t) ∧ ClassAssignable sys sys.wellKnown.array t) ∧
  (m = n → 0 < m → s ≠ t → ClassAssignable sys s t →
    (semanticsOf sys s = semanticsOf sys t ↔ IsReference sys s ∧ IsReference sys t))

theorem accepts_describe (m n : Nat) (s t : TypeDefIndex) : Accepts sys (describe sys m s) n t ↔
    n < m ∨ (m = n ∧ (0 < m → semanticsOf sys s = semanticsOf sys t) ∧
      ClassAssignable sys s t) := by
  rw [Accepts, describe]
  constructor
  · rintro (⟨hm, hn, hca⟩ | ⟨heq, hpos, hsem, hca⟩ | ⟨hlt, -⟩)
    · simp only at hm hca
      rw [if_pos hm] at hca
      exact Or.inr ⟨hm.trans hn.symm, fun hpos => by omega, hca⟩
    · exact Or.inr ⟨heq, fun _ => hsem, hca⟩
    · exact Or.inl hlt
  · rintro (hlt | ⟨heq, hsem, hca⟩)
    · refine Or.inr (Or.inr ⟨hlt, Or.inl (Or.inl ?_)⟩)
      exact if_neg (Nat.ne_of_gt (Nat.zero_lt_of_lt hlt))
    · by_cases hm : m = 0
      · refine Or.inl ⟨hm, heq ▸ hm, ?_⟩
        simp only
        rw [if_pos hm]
        exact hca
      · have hpos := Nat.pos_of_ne_zero hm
        exact Or.inr (Or.inl ⟨heq, heq ▸ hpos, hsem hpos, hca⟩)

theorem isInstanceOf_describe (h : sys.Linked) (hlists : Interfaces sys) {m n : Nat}
    (hs : sys.Valid s) (ht : sys.Valid t) :
    isInstanceOf sys (describe sys m s) (describe sys n t) = some true ↔
      n < m ∨ (m = n ∧ (0 < m → semanticsOf sys s = semanticsOf sys t) ∧
        ClassAssignable sys s t) := by
  have hinst : sys.Valid (describe sys m s).handlerCls := by
    rw [describe]
    simp only
    split
    exacts [hs, hlists.array_valid]
  obtain ⟨b, hb, hiff⟩ := isInstanceOf_spec h hlists (describe sys m s) hinst hs n ht
  rw [hb, Option.some.injEq, hiff, accepts_describe]

/-- What passes for a type passes for all that this passes for. -/
def TestsCompose (sys : TypeSystem) : Prop := ∀ m s n t k u,
  sys.Valid s → sys.Valid t → sys.Valid u →
    isInstanceOf sys (describe sys m s) (describe sys n t) = some true →
    isInstanceOf sys (describe sys n t) (describe sys k u) = some true →
    isInstanceOf sys (describe sys m s) (describe sys k u) = some true

/-- **The test of types is transitive, its wrong answers about arrays included, exactly if the
    interface lists are closed.** -/
theorem testsCompose_iff (h : sys.Linked) (hlists : Interfaces sys) :
    TestsCompose sys ↔ InterfacesClosed sys := by
  constructor
  · intro htrans s t u hst htu
    have hs : sys.Valid s := hst.2.imp fun _ htd => htd.1
    have hinterface : ∀ i, semanticsOf sys i = some .interface → sys.Valid i := fun i hi =>
      (Option.map_eq_some_iff.mp hi).imp fun _ htd => htd.1
    have ht := hinterface t hst.1
    have hu : sys.Valid u := by
      obtain ⟨a, hta, rfl | hau⟩ := htu
      · exact h.valid_ancestor ht hta
      · exact hinterface u hau.1
    have base := fun {s t} (hs : sys.Valid s) (ht : sys.Valid t) =>
      isInstanceOf_describe h hlists (m := 0) (n := 0) hs ht
    simp only [Nat.lt_irrefl, true_and, false_or, false_implies] at base
    exact (base hs hu).mp (htrans 0 s 0 t 0 u hs ht hu
      ((base hs ht).mpr ⟨s, Relation.ReflTransGen.refl, Or.inr hst⟩) ((base ht hu).mpr htu))
  · intro hclosed m s n t k u hs ht hu hst htu
    rw [isInstanceOf_describe h hlists hs ht] at hst
    rw [isInstanceOf_describe h hlists ht hu] at htu
    rw [isInstanceOf_describe h hlists hs hu]
    rcases hst with hlt | ⟨rfl, hsem, hst⟩
    · rcases htu with hlt' | ⟨rfl, -⟩
      · exact Or.inl (Nat.lt_trans hlt' hlt)
      · exact Or.inl hlt
    · rcases htu with hlt | ⟨rfl, hsem', htu⟩
      · exact Or.inl hlt
      · exact Or.inr ⟨rfl, fun hm => (hsem hm).trans (hsem' hm),
          classAssignable_trans hclosed hst htu⟩

theorem accepts_iff_assignable (m n : Nat) (s t : TypeDefIndex) :
    (Accepts sys (describe sys m s) n t ↔ Assignable sys m s n t) ↔ TypesAgree sys m s n t := by
  rw [accepts_describe, TypesAgree]
  rcases Nat.lt_trichotomy m n with hlt | rfl | hgt
  · refine iff_of_true (iff_of_false ?_ (not_assignable_of_lt hlt)) ⟨?_, ?_⟩
    · rintro (hgt | ⟨heq, -⟩) <;> omega
    · exact fun hgt => by omega
    · exact fun heq => by omega
  · cases m with
    | zero =>
      refine iff_of_true ?_ ⟨fun hlt => by omega, fun _ hpos => by omega⟩
      simp [Assignable]
    | succ m =>
      rw [assignable_same]
      have hpos := m.succ_pos
      constructor
      · refine fun hiff => ⟨fun hlt => by omega, fun _ _ hne hca => ⟨fun hsem => ?_, ?_⟩⟩
        · rcases hiff.mp (Or.inr ⟨rfl, fun _ => hsem, hca⟩) with heq | ⟨hs, ht, -⟩
          · exact absurd heq hne
          · exact ⟨hs, ht⟩
        · rintro ⟨hs, ht⟩
          rcases hiff.mpr (Or.inr ⟨hs, ht, hca⟩) with hlt | ⟨-, hsem, -⟩
          · omega
          · exact hsem hpos
      · rintro ⟨-, hagree⟩
        constructor
        · rintro (hlt | ⟨-, hsem, hca⟩)
          · omega
          · by_cases heq : s = t
            · exact Or.inl heq
            · obtain ⟨hs, ht⟩ := (hagree rfl hpos heq hca).mp (hsem hpos)
              exact Or.inr ⟨hs, ht, hca⟩
        · rintro (rfl | ⟨hs, ht, hca⟩)
          · exact Or.inr ⟨rfl, fun _ => rfl, classAssignable_refl _⟩
          · by_cases heq : s = t
            · subst heq
              exact Or.inr ⟨rfl, fun _ => rfl, hca⟩
            · exact Or.inr ⟨rfl, fun _ => (hagree rfl hpos heq hca).mpr ⟨hs, ht⟩, hca⟩
  · rw [assignable_of_gt hgt]
    constructor
    · exact fun hiff => ⟨fun _ => hiff.mp (Or.inl hgt), fun heq => by omega⟩
    · exact fun hagree => iff_of_true (Or.inl hgt) (hagree.1 hgt)

/-! ### Casts -/

inductive HasType (sys : TypeSystem) : ObjectKind → Nat → TypeDefIndex → Prop
  | szArray {levels : Nat} {type : TypeDefIndex} : 0 < levels → sys.Valid type →
      HasType sys (.szArray levels type) levels type
  | object {cls : TypeDefIndex} : sys.Valid cls → HasType sys (.instance cls) 0 cls
  | delegate {cls : Option TypeDefIndex} : sys.Valid (cls.getD sys.wellKnown.delegate) →
      HasType sys (.delegate cls) 0 (cls.getD sys.wellKnown.delegate)
  | delegateList {cls : Option TypeDefIndex} : sys.Valid (cls.getD sys.wellKnown.multicastDelegate) →
      HasType sys (.delegateList cls) 0 (cls.getD sys.wellKnown.multicastDelegate)
  | weakReference {cls : TypeDefIndex} {extended : Bool} : sys.Valid cls →
      cls = (if extended then sys.wellKnown.extendedWeakReference
        else sys.wellKnown.weakReference) → HasType sys (.weakReference extended) 0 cls
  | typeObject {levels : Nat} {type : TypeDefIndex} : sys.Valid type →
      sys.Valid sys.wellKnown.type → HasType sys (.typeObject levels type) 0 sys.wellKnown.type
  | reflection {kind : ReflectionKind} : sys.Valid (reflectionCls sys kind) →
      HasType sys (.reflection kind) 0 (reflectionCls sys kind)
  | data {dt : DataType} {cls : TypeDefIndex} : sys.wellKnown.builtIn dt = some cls →
      sys.Valid cls → HasType sys (.data dt) 0 cls

inductive Denotes (sys : TypeSystem) (assm : Nat) : Token → Nat → TypeDefIndex → Prop
  | token {tk : Token} {cls : TypeDefIndex} : sys.resolveToken assm tk = some (some cls) →
      Denotes sys assm tk 0 cls
  | typeSpec {idx : Nat} {a : Assembly} {sig rest : List SigItem} {res : Element} :
      sys.assemblies[assm]? = some a → a.typeSpec[idx]? = some sig →
      sys.advance assm sig = some (.ok res, rest) →
      Denotes sys assm (.typeSpec idx) res.levels res.cls

/-- A `System.Type` object has the levels of the type that it stands for. -/
def descriptorOf (sys : TypeSystem) (obj : ObjectKind) (m : Nat) (s : TypeDefIndex) :
    TypeDescriptor :=
  match obj with
  | .typeObject levels type => { handlerCls := sys.wellKnown.type, levels, type }
  | _ => describe sys m s

variable {obj : ObjectKind} {m n : Nat} {assm : Nat} {tk : Token}

theorem initializeFromObject_eq (hobj : HasType sys obj m s) :
    initializeFromObject sys obj = some (.ok (descriptorOf sys obj m s)) := by
  cases hobj with
  | szArray hlevels hs =>
    rw [initializeFromObject, initializeFromType_eq hs]
    simp only [Option.bind_eq_bind, Option.bind_some, convertToArray, descriptorOf, describe]
    rw [if_neg (Nat.ne_of_gt hlevels)]
  | object hs => rw [initializeFromObject, initializeFromType_eq hs]; rfl
  | delegate hs => rw [initializeFromObject, initializeFromType_eq hs]; rfl
  | delegateList hs => rw [initializeFromObject, initializeFromType_eq hs]; rfl
  | weakReference hs heq => rw [initializeFromObject, ← heq, initializeFromType_eq hs]; rfl
  | typeObject _ hs => rw [initializeFromObject, reflectionCls, initializeFromType_eq hs]; rfl
  | reflection hs => rw [initializeFromObject, initializeFromType_eq hs]; rfl
  | data hcls hs => rw [initializeFromObject, hcls]; simp only; rw [initializeFromType_eq hs]; rfl

theorem HasType.valid (hobj : HasType sys obj m s) (harray : sys.Valid sys.wellKnown.array) :
    sys.Valid (descriptorOf sys obj m s).handlerCls ∧
      sys.Valid (descriptorOf sys obj m s).type := by
  cases hobj with
  | szArray hlevels hs =>
    refine ⟨?_, hs⟩
    simp only [descriptorOf, describe]
    rw [if_neg (Nat.ne_of_gt hlevels)]
    exact harray
  | typeObject htype hs => exact ⟨hs, htype⟩
  | object hs | delegate hs | delegateList hs | reflection hs => exact ⟨hs, hs⟩
  | weakReference hs _ => exact ⟨hs, hs⟩
  | data _ hs => exact ⟨hs, hs⟩

theorem initializeFromTypeSpec_eq {idx : Nat} {a : Assembly} {sig rest : List SigItem}
    {res : Element} (ha : sys.assemblies[assm]? = some a) (hsig : a.typeSpec[idx]? = some sig)
    (hadvance : sys.advance assm sig = some (.ok res, rest)) (hcls : sys.Valid res.cls) :
    initializeFromTypeSpec sys assm idx = some (.ok (describe sys res.levels res.cls)) := by
  rw [initializeFromTypeSpec, ha]
  simp only [Option.bind_eq_bind, Option.bind_some]
  rw [hsig]
  simp only [Option.bind_some]
  rw [hadvance]
  simp only [Option.bind_some]
  rw [initializeFromElement, initializeFromType_eq hcls]
  simp only [Option.bind_eq_bind, Option.bind_some, describe, convertToArray]
  by_cases hlevels : res.levels = 0
  · rw [if_pos hlevels, if_pos hlevels, hlevels]
  · rw [if_neg hlevels, if_neg hlevels]

theorem isInstanceOfToken_spec (h : sys.Linked) (hlists : Interfaces sys)
    (hobj : HasType sys obj m s) (htk : Denotes sys assm tk n t) (ht : sys.Valid t) :
    Decides (isInstanceOfToken sys obj assm tk) (Accepts sys (descriptorOf sys obj m s) n t) := by
  obtain ⟨hinst, hs⟩ := hobj.valid hlists.array_valid
  have hanswer := isInstanceOf_spec h hlists (descriptorOf sys obj m s) hinst hs n ht
  rw [isInstanceOfToken, initializeFromObject_eq hobj]
  simp only [Option.bind_eq_bind, Option.bind_some]
  cases htk with
  | typeSpec ha hsig hadvance =>
    simp only [initializeFromTypeSpec_eq ha hsig hadvance ht, Option.bind_some]
    exact hanswer
  | token hresolve =>
    have hcls : ∀ {answer : Option Bool},
        answer = (if (descriptorOf sys obj m s).handlerCls = t then some true else
          (initializeFromType sys t).bind fun descTarget =>
            isInstanceOf sys (descriptorOf sys obj m s) descTarget) →
        Decides answer (Accepts sys (descriptorOf sys obj m s) 0 t) := by
      rintro answer rfl
      by_cases heq : (descriptorOf sys obj m s).handlerCls = t
      · rw [if_pos heq]
        refine ⟨true, rfl, iff_of_true rfl ?_⟩
        rw [Accepts, heq]
        rcases Nat.eq_zero_or_pos (descriptorOf sys obj m s).levels with hzero | hpos
        · exact Or.inl ⟨hzero, rfl, classAssignable_refl t⟩
        · exact Or.inr (Or.inr ⟨hpos, Or.inr ⟨rfl, fun _ => rfl, classAssignable_refl t⟩⟩)
      · rw [if_neg heq, initializeFromType_eq ht]
        exact hanswer
    cases tk with
    | typeSpec idx => cases hresolve
    | typeRef idx =>
      refine hcls ?_
      simp only [hresolve, Option.bind_some]
    | typeDef idx =>
      refine hcls ?_
      simp only [hresolve, Option.bind_some]

/-- `CastToType` accepts an object exactly if its type is assignable to that of the token. -/
def CastsRightly (sys : TypeSystem) (obj : ObjectKind) (m : Nat) (s : TypeDefIndex) (assm : Nat)
    (tk : Token) (n : Nat) (t : TypeDefIndex) : Prop :=
  ∀ fUpdate,
    (Assignable sys m s n t → castToType sys (some obj) tk assm fUpdate = some (.ok, some obj)) ∧
    (¬ Assignable sys m s n t → castToType sys (some obj) tk assm fUpdate =
      some (if fUpdate then (.ok, none) else (.failed .invalidCast, some obj)))

theorem castsRightly_iff {b : Bool} (hb : isInstanceOfToken sys obj assm tk = some b) :
    CastsRightly sys obj m s assm tk n t ↔ (b = true ↔ Assignable sys m s n t) := by
  have hcast : ∀ fUpdate, castToType sys (some obj) tk assm fUpdate =
      some (if b then (.ok, some obj) else if fUpdate then (.ok, none)
        else (.failed .invalidCast, some obj)) := by
    intro fUpdate
    rw [castToType, hb]
    cases b <;> cases fUpdate <;> rfl
  rw [CastsRightly]
  simp only [hcast]
  cases b with
  | true =>
    by_cases hassign : Assignable sys m s n t
    · simp [hassign]
    · simp [hassign]
  | false =>
    by_cases hassign : Assignable sys m s n t
    · simp [hassign]
    · simp [hassign]

/-- Where a cast is right.  A `System.Type` object of an array type is taken for an array. -/
def ObjectAgrees (sys : TypeSystem) (obj : ObjectKind) (m : Nat) (s : TypeDefIndex) (n : Nat)
    (t : TypeDefIndex) : Prop :=
  match obj with
  | .typeObject levels type =>
      (n = 0 → 0 < levels → ClassAssignable sys sys.wellKnown.type t →
        dataTypeOf sys sys.wellKnown.type = dataTypeOf sys t) ∧
      (0 < n → n < levels → dataTypeOf sys sys.wellKnown.type = dataTypeOf sys t →
        semanticsOf sys sys.wellKnown.type = semanticsOf sys t →
        ¬ ClassAssignable sys sys.wellKnown.type t) ∧
      (0 < n → n = levels → semanticsOf sys type = semanticsOf sys t →
        ¬ ClassAssignable sys type t)
  | _ => TypesAgree sys m s n t

theorem accepts_typeObject (htype : ¬ ArrayShortcut sys sys.wellKnown.type) (levels : Nat)
    (type : TypeDefIndex) :
    (Accepts sys (descriptorOf sys (.typeObject levels type) 0 sys.wellKnown.type) n t ↔
        Assignable sys 0 sys.wellKnown.type n t) ↔
      ObjectAgrees sys (.typeObject levels type) 0 sys.wellKnown.type n t := by
  rw [ObjectAgrees, Accepts, descriptorOf]
  simp only
  cases n with
  | zero =>
    have hassign : Assignable sys 0 sys.wellKnown.type 0 t ↔
        ClassAssignable sys sys.wellKnown.type t := Iff.rfl
    rw [hassign]
    constructor
    · refine fun hiff => ⟨fun _ hpos hca => ?_, fun hlt => by omega, fun hlt => by omega⟩
      rcases hiff.mpr hca with ⟨hzero, -⟩ | ⟨-, hlt, -⟩ | ⟨-, hshort | ⟨hdt, -⟩⟩
      · omega
      · omega
      · exact absurd hshort htype
      · exact hdt
    · rintro ⟨hdt, -, -⟩
      constructor
      · rintro (⟨-, -, hca⟩ | ⟨-, hlt, -⟩ | ⟨-, hshort | ⟨-, -, hca⟩⟩)
        · exact hca
        · omega
        · exact absurd hshort htype
        · exact hca
      · intro hca
        rcases Nat.eq_zero_or_pos levels with hzero | hpos
        · exact Or.inl ⟨hzero, rfl, hca⟩
        · exact Or.inr (Or.inr ⟨hpos, Or.inr ⟨hdt rfl hpos hca, fun hlt => by omega, hca⟩⟩)
  | succ n =>
    have hnot : ¬ Assignable sys 0 sys.wellKnown.type (n + 1) t := not_false
    constructor
    · refine fun hiff => ⟨fun hzero => by omega, fun _ hlt hdt hsem hca => ?_,
        fun hpos heq hsem hca => ?_⟩
      · exact hnot (hiff.mp (Or.inr (Or.inr ⟨hlt, Or.inr ⟨hdt, fun _ => hsem, hca⟩⟩)))
      · exact hnot (hiff.mp (Or.inr (Or.inl ⟨heq.symm, hpos, hsem, hca⟩)))
    · rintro ⟨-, hfewer, hsame⟩
      refine iff_of_false ?_ hnot
      rintro (⟨-, hzero, -⟩ | ⟨heq, hpos, hsem, hca⟩ | ⟨hlt, hshort | ⟨hdt, hsem, hca⟩⟩)
      · omega
      · exact hsame hpos heq.symm hsem hca
      · exact htype hshort
      · exact hfewer n.succ_pos hlt hdt (hsem n.succ_pos) hca

theorem accepts_iff_objectAgrees (htype : ¬ ArrayShortcut sys sys.wellKnown.type)
    (hobj : HasType sys obj m s) :
    (Accepts sys (descriptorOf sys obj m s) n t ↔ Assignable sys m s n t) ↔
      ObjectAgrees sys obj m s n t := by
  cases hobj with
  | typeObject _ _ => exact accepts_typeObject htype _ _
  | szArray _ _ | object _ | delegate _ | delegateList _ | weakReference _ _ | reflection _
  | data _ _ => exact accepts_iff_assignable _ _ _ _

/-- Type tests and casts follow the hierarchy exactly where the source and the target agree. -/
theorem type_tests_follow_hierarchy (h : sys.Linked) (hlists : Interfaces sys)
    (htype : ¬ ArrayShortcut sys sys.wellKnown.type) :
    (∀ m s n t, sys.Valid s → sys.Valid t →
      (Decides (isInstanceOf sys (describe sys m s) (describe sys n t)) (Assignable sys m s n t) ↔
        TypesAgree sys m s n t)) ∧
    (∀ obj m s assm tk n t, HasType sys obj m s → Denotes sys assm tk n t → sys.Valid t →
      (CastsRightly sys obj m s assm tk n t ↔ ObjectAgrees sys obj m s n t)) ∧
    (∀ tk assm fUpdate, castToType sys none tk assm fUpdate = some (.ok, none)) := by
  refine ⟨fun m s n t hs ht => ?_, fun obj m s assm tk n t hobj htk ht => ?_, fun _ _ _ => rfl⟩
  · have hinst : sys.Valid (describe sys m s).handlerCls := by
      rw [describe]
      by_cases hm : m = 0
      · simpa only [if_pos hm] using hs
      · simpa only [if_neg hm] using hlists.array_valid
    rw [decides_iff (isInstanceOf_spec h hlists (describe sys m s) hinst hs n ht)]
    exact accepts_iff_assignable m n s t
  · obtain ⟨b, hb, hiff⟩ := isInstanceOfToken_spec h hlists hobj htk ht
    rw [castsRightly_iff hb, hiff]
    exact accepts_iff_objectAgrees htype hobj

/-- A type without members -/
def plainType (extendsIdx : Option Token) (semantics : TypeSemantics) (interfaces : List Token) :
    TypeDefRecord where
  name := ""
  nameSpace := ""
  extendsIdx := extendsIdx
  enclosingType := none
  interfaces := interfaces
  methods_First := 0
  vMethods_Num := 0
  iMethods_Num := 0
  sMethods_Num := 0
  dataType := .classType
  sFields_First := 0
  iFields_First := 0
  sFields_Num := 0
  iFields_Num := 0
  semantics := semantics
  hasFinalizer := false

/-- `Object`, `Array`, `Type`, the interfaces `IList` and `ICloneable`, which `Array` implements,
    and of the program a class with an interface and a class derived from it -/
def smallSystem : TypeSystem where
  assemblies :=
    [{ typeDef :=
        [plainType none .classType [],
         plainType none .interface [],
         plainType none .interface [],
         plainType (some (.typeDef 0)) .classType [.typeDef 1, .typeDef 2],
         plainType (some (.typeDef 0)) .classType []]
       fieldDef := []
       methodDef := []
       typeRef := []
       typeSpec := [] },
     { typeDef :=
        [plainType none .interface [],
         plainType (some (.typeRef 0)) .classType [.typeDef 0],
         plainType (some (.typeDef 1)) .classType []]
       fieldDef := []
       methodDef := []
       typeRef := [⟨0, 0⟩]
       typeSpec := [[.szArray, .typeToken false (.typeDef 1)]] }]
  wellKnown :=
    { array := ⟨0, 3⟩
      object := ⟨0, 0⟩
      iList := ⟨0, 1⟩
      iCloneable := ⟨0, 2⟩
      void := ⟨0, 0⟩
      delegate := ⟨0, 0⟩
      multicastDelegate := ⟨0, 0⟩
      weakReference := ⟨0, 0⟩
      extendedWeakReference := ⟨0, 0⟩
      assembly := ⟨0, 0⟩
      type := ⟨0, 4⟩
      constructorInfo := ⟨0, 0⟩
      methodInfo := ⟨0, 0⟩
      fieldInfo := ⟨0, 0⟩
      builtIn := fun _ => some ⟨0, 0⟩ }

theorem smallSystem_linked : smallSystem.Linked := linked_of_check (by decide)

theorem smallSystem_interfaces : Interfaces smallSystem := interfaces_of_check (by decide) rfl

/-- An array of the derived class is one of its base class, and can be cast to that. -/
theorem type_tests_follow_hierarchy_small :
    Decides (isInstanceOf smallSystem (describe smallSystem 1 ⟨1, 2⟩)
      (describe smallSystem 1 ⟨1, 1⟩)) (Assignable smallSystem 1 ⟨1, 2⟩ 1 ⟨1, 1⟩) ∧
    CastsRightly smallSystem (.szArray 1 ⟨1, 2⟩) 1 ⟨1, 2⟩ 1 (.typeSpec 0) 1 ⟨1, 1⟩ := by
  obtain ⟨htests, hcasts, -⟩ := type_tests_follow_hierarchy smallSystem_linked
    smallSystem_interfaces (by rintro (h | h | h | h) <;> cases h)
  have hderived : smallSystem.Valid ⟨1, 2⟩ := ⟨_, rfl⟩
  have hbase : smallSystem.Valid ⟨1, 1⟩ := ⟨_, rfl⟩
  have hagree : TypesAgree smallSystem 1 ⟨1, 2⟩ 1 ⟨1, 1⟩ :=
    ⟨fun hlt => absurd hlt (Nat.lt_irrefl 1),
      fun _ _ _ _ => iff_of_true rfl ⟨Or.inl rfl, Or.inl rfl⟩⟩
  have hread : smallSystem.advance 1 [.szArray, .typeToken false (.typeDef 1)] =
      some (.ok ⟨.classType, false, 1, ⟨1, 1⟩⟩, []) := rfl
  have harray : Denotes smallSystem 1 (.typeSpec 0) 1 ⟨1, 1⟩ := Denotes.typeSpec rfl rfl hread
  refine ⟨(htests 1 _ 1 _ hderived hbase).mpr hagree, ?_⟩
  exact (hcasts _ 1 _ 1 _ 1 _ (HasType.szArray Nat.one_pos hderived)
    harray hbase).mpr hagree

theorem testsCompose_small : TestsCompose smallSystem ↔ InterfacesClosed smallSystem :=
  testsCompose_iff smallSystem_linked smallSystem_interfaces

/-- An array of the derived class passes for a `Type`, both in the test and in the cast. -/
theorem array_passes_for_unrelated_class :
    smallSystem.Linked ∧ Interfaces smallSystem ∧
    isInstanceOf smallSystem (describe smallSystem 1 ⟨1, 2⟩) (describe smallSystem 0 ⟨0, 4⟩) =
      some true ∧
    castToType smallSystem (some (.szArray 1 ⟨1, 2⟩)) (.typeRef 0) 1 false =
      some (.ok, some (.szArray 1 ⟨1, 2⟩)) ∧
    ¬ Assignable smallSystem 1 ⟨1, 2⟩ 0 ⟨0, 4⟩ := by
  refine ⟨smallSystem_linked, smallSystem_interfaces, rfl, rfl, fun hassign => ?_⟩
  have htype : semanticsOf smallSystem ⟨0, 4⟩ = some .classType := rfl
  obtain ⟨b, hb, hiff⟩ := searchHierarchy_spec smallSystem_linked smallSystem_interfaces
    htype smallSystem.walkLimit ⟨0, 3⟩ ⟨_, rfl⟩ (smallSystem_linked.length_lineage ⟨_, rfl⟩)
  rw [hiff.mpr hassign] at hb
  cases hb

end TinyClr.ExecutionEngine
