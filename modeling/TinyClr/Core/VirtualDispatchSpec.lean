import TinyClr.Core.VirtualDispatch
import TinyClr.Core.TypeCastSpec

/-!
# Slots

A virtual method that is not marked as a new slot takes the slot of the method of its name and
signature that it inherits.  `SlotHolds` follows one slot from the class of its first method down
the hierarchy, `Prescribed` is the implementation a call has to reach.  The search stops at the
nearest method of the name and signature, which may hide the slot.
-/

namespace TinyClr.VirtualDispatch

open TinyClr.Library TypeSystem ExecutionEngine

variable {sys : TypeSystem} {owner : MethodDefIndex → Nat}
  {C X Y Z O : TypeDefIndex} {M m m' : MethodDefIndex}

/-! ### Methods of a class -/

def Declares (sys : TypeSystem) (X : TypeDefIndex) (m : MethodDefIndex) : Prop :=
  ∃ td, sys.typeDef X = some td ∧ m.assembly = X.assembly ∧ td.methods_First ≤ m.method ∧
    m.method < td.methods_First + (td.vMethods_Num.toNat + td.iMethods_Num.toNat)

def Below (sys : TypeSystem) (Y X : TypeDefIndex) : Prop :=
  Relation.TransGen (fun a b => sys.parent a = some b) Y X

def elementsOf (sys : TypeSystem) (assm : Nat) : Nat → List SigItem → Option (List Element)
  | 0, _ => some []
  | n + 1, sig => do
      let (res, sig) ← sys.advance assm sig
      match res with
      | .error _ => none
      | .ok res => do
          let rest ← elementsOf sys assm n sig
          some (res :: rest)

/-- What the signatures of two methods have in common if they are the same -/
structure Signature where
  flags : UInt8
  elements : List Element
deriving DecidableEq

/-- The signature of a method, if it is well formed -/
def signatureOf (sys : TypeSystem) (m : MethodDefIndex) : Option Signature := do
  let md ← methodDef sys m
  let elements ← elementsOf sys m.assembly (md.sig.count + 1) md.sig.items
  some { flags := md.sig.flags, elements }

def Matches (sys : TypeSystem) (name : String) (signature : Signature) (m : MethodDefIndex) : Prop :=
  (∃ md, methodDef sys m = some md ∧ md.name = name) ∧ signatureOf sys m = some signature

def SameMethod (sys : TypeSystem) (m m' : MethodDefIndex) : Prop :=
  ∃ name signature, Matches sys name signature m ∧ Matches sys name signature m'

def IsAbstract (sys : TypeSystem) (m : MethodDefIndex) : Prop :=
  ∃ md, methodDef sys m = some md ∧ md.isAbstract = true

def IsVirtual (sys : TypeSystem) (m : MethodDefIndex) : Prop :=
  ∃ md, methodDef sys m = some md ∧ md.isVirtual = true

def NewSlot (sys : TypeSystem) (m : MethodDefIndex) : Prop :=
  ∃ md, methodDef sys m = some md ∧ md.newSlot = true

/-- Well-formed tables: methods have records and signatures that can be read, a class has no two
    methods of one name and signature, and `numArgs` counts `this` and the parameters. -/
structure MethodTables (sys : TypeSystem) (owner : MethodDefIndex → Nat) : Prop where
  wellFormed : ∀ X m, Declares sys X m → ∃ md signature, methodDef sys m = some md ∧
    signatureOf sys m = some signature ∧ md.numArgs.toNat = md.sig.count + 1
  unique : ∀ X m m', Declares sys X m → Declares sys X m' → SameMethod sys m m' → m = m'
  owned : ∀ X m, Declares sys X m → owner m = X.type

namespace MethodTables

variable (ht : MethodTables sys owner)

include ht

theorem declares_unique (hX : Declares sys X m) (hY : Declares sys Y m) : X = Y := by
  have htype : X.type = Y.type := (ht.owned X m hX).symm.trans (ht.owned Y m hY)
  obtain ⟨-, -, hassmX, -⟩ := hX
  obtain ⟨-, -, hassmY, -⟩ := hY
  obtain ⟨assmX, typeX⟩ := X
  obtain ⟨assmY, typeY⟩ := Y
  simp only at htype hassmX hassmY
  rw [htype, ← hassmX, ← hassmY]

end MethodTables

theorem SameMethod.symm (h : SameMethod sys m m') : SameMethod sys m' m := by
  obtain ⟨name, signature, hm, hm'⟩ := h
  exact ⟨name, signature, hm', hm⟩

theorem Matches.unique {name name' : String} {signature signature' : Signature}
    (h : Matches sys name signature m) (h' : Matches sys name' signature' m) :
    name = name' ∧ signature = signature' := by
  obtain ⟨⟨md, hmd, hname⟩, hsig⟩ := h
  obtain ⟨⟨md', hmd', hname'⟩, hsig'⟩ := h'
  rw [hmd] at hmd'
  rw [hsig] at hsig'
  obtain rfl := Option.some.inj hmd'
  exact ⟨hname.symm.trans hname', Option.some.inj hsig'⟩

theorem SameMethod.trans {m'' : MethodDefIndex} (h : SameMethod sys m m')
    (h' : SameMethod sys m' m'') : SameMethod sys m m'' := by
  obtain ⟨name, signature, hm, hm'⟩ := h
  obtain ⟨name', signature', hm'', hm'''⟩ := h'
  obtain ⟨rfl, rfl⟩ := hm'.unique hm''
  exact ⟨name, signature, hm, hm'''⟩

theorem matches_of_sameMethod {name : String} {signature : Signature}
    (h : SameMethod sys m m') (hm : Matches sys name signature m) : Matches sys name signature m' := by
  obtain ⟨name', signature', hm', hm''⟩ := h
  obtain ⟨rfl, rfl⟩ := hm.unique hm'
  exact hm''

/-! ### Signatures -/

theorem elementsOf_succ {assm n : Nat} {sig : List SigItem} {elements : List Element}
    (h : elementsOf sys assm (n + 1) sig = some elements) :
    ∃ res sig' rest, sys.advance assm sig = some (.ok res, sig') ∧
      elementsOf sys assm n sig' = some rest ∧ elements = res :: rest := by
  rw [elementsOf] at h
  rcases hadvance : sys.advance assm sig with _ | ⟨_ | res, sig'⟩
  · rw [hadvance] at h
    cases h
  · rw [hadvance] at h
    cases h
  · rw [hadvance] at h
    simp only [Option.bind_eq_bind, Option.bind_some] at h
    obtain ⟨rest, hrest, heq⟩ := Option.bind_eq_some_iff.mp h
    exact ⟨res, sig', rest, rfl, hrest, (Option.some.inj heq).symm⟩

theorem length_elementsOf {assm : Nat} : ∀ {n : Nat} {sig : List SigItem} {elements : List Element},
    elementsOf sys assm n sig = some elements → elements.length = n := by
  intro n
  induction n with
  | zero =>
    intro sig elements h
    rw [← Option.some.inj h]
    rfl
  | succ n ih =>
    intro sig elements h
    obtain ⟨res, sig', rest, -, hrest, rfl⟩ := elementsOf_succ h
    rw [List.length_cons, ih hrest]

theorem matchSignatureElement_iff (resLeft resRight : Element) :
    matchSignatureElement resLeft resRight = true ↔ resLeft = resRight := by
  cases resLeft
  cases resRight
  simp only [matchSignatureElement, decide_eq_true_eq, Element.mk.injEq]
  constructor
  · rintro ⟨hbyRef, hlevels, hdt, hcls⟩
    exact ⟨hdt, hbyRef, hlevels, hcls⟩
  · rintro ⟨hdt, hbyRef, hlevels, hcls⟩
    exact ⟨hbyRef, hlevels, hdt, hcls⟩

/-- The comparison of two signatures that can be read is the one of their elements. -/
theorem matchSignatureDirect_spec (assmLeft assmRight : Nat) :
    ∀ (n n' : Nat) (sigLeft sigRight : List SigItem) (left right : List Element),
      elementsOf sys assmLeft n sigLeft = some left →
      elementsOf sys assmRight n' sigRight = some right →
      matchSignatureDirect sys assmLeft assmRight n n' sigLeft sigRight =
        some (decide (left = right)) := by
  intro n
  induction n with
  | zero =>
    intro n' sigLeft sigRight left right hleft hright
    obtain rfl := Option.some.inj hleft
    rw [matchSignatureDirect, ← length_elementsOf hright]
    congr 1
    rw [decide_eq_decide, List.length_eq_zero_iff]
    exact eq_comm
  | succ n ih =>
    intro n' sigLeft sigRight left right hleft hright
    rw [matchSignatureDirect]
    by_cases hlen : n + 1 = n'
    · subst hlen
      obtain ⟨res, sigLeft', left', hadvance, hleft', rfl⟩ := elementsOf_succ hleft
      obtain ⟨res', sigRight', right', hadvance', hright', rfl⟩ := elementsOf_succ hright
      rw [if_neg (not_not.mpr rfl), hadvance]
      simp only [Option.bind_eq_bind, Option.bind_some]
      rw [hadvance']
      simp only [Option.bind_some, Nat.add_sub_cancel]
      by_cases hres : res = res'
      · rw [if_pos ((matchSignatureElement_iff _ _).mpr hres), ih n _ _ _ _ hleft' hright']
        simp [hres]
      · rw [if_neg fun hmatch => hres ((matchSignatureElement_iff _ _).mp hmatch)]
        simp [hres]
    · rw [if_pos hlen, decide_eq_false]
      rintro rfl
      exact hlen ((length_elementsOf hleft).symm.trans (length_elementsOf hright))

theorem signatureOf_some {md : MethodDefRecord} {signature : Signature}
    (hmd : methodDef sys m = some md) (h : signatureOf sys m = some signature) :
    elementsOf sys m.assembly (md.sig.count + 1) md.sig.items = some signature.elements ∧
      md.sig.flags = signature.flags := by
  rw [signatureOf, hmd] at h
  simp only [Option.bind_eq_bind, Option.bind_some] at h
  obtain ⟨elements, helements, heq⟩ := Option.bind_eq_some_iff.mp h
  rw [← Option.some.inj heq]
  exact ⟨helements, rfl⟩

/-- `MatchSignature` compares the signatures of two methods. -/
theorem matchSignature_spec {md md' : MethodDefRecord} {signature signature' : Signature}
    (hmd : methodDef sys m = some md) (hmd' : methodDef sys m' = some md')
    (hsig : signatureOf sys m = some signature) (hsig' : signatureOf sys m' = some signature') :
    matchSignature sys m.assembly md.sig m'.assembly md'.sig =
      some (decide (signature = signature')) := by
  obtain ⟨helements, hflags⟩ := signatureOf_some hmd hsig
  obtain ⟨helements', hflags'⟩ := signatureOf_some hmd' hsig'
  obtain ⟨flags, elements⟩ := signature
  obtain ⟨flags', elements'⟩ := signature'
  simp only at helements helements' hflags hflags'
  rw [matchSignature, hflags, hflags']
  by_cases heq : flags = flags'
  · rw [if_neg (not_not.mpr heq), matchSignatureDirect_spec _ _ _ _ _ _ _ _ helements helements']
    simp [heq]
  · rw [if_pos heq]
    simp [heq]

theorem MethodTables.numArgs_eq (ht : MethodTables sys owner) (hX : Declares sys X m)
    (hY : Declares sys Y m') {md md' : MethodDefRecord} (hmd : methodDef sys m = some md)
    (hmd' : methodDef sys m' = some md') (hsig : signatureOf sys m = signatureOf sys m') :
    md.numArgs = md'.numArgs := by
  obtain ⟨md₁, signature, hmd₁, hsig₁, hnum⟩ := ht.wellFormed X m hX
  obtain ⟨md₂, signature', hmd₂, hsig₂, hnum'⟩ := ht.wellFormed Y m' hY
  obtain rfl := Option.some.inj (hmd.symm.trans hmd₁)
  obtain rfl := Option.some.inj (hmd'.symm.trans hmd₂)
  obtain rfl : signature = signature' :=
    Option.some.inj ((hsig₁.symm.trans hsig).trans hsig₂)
  have hlen := length_elementsOf (signatureOf_some hmd hsig₁).1
  have hlen' := length_elementsOf (signatureOf_some hmd' hsig₂).1
  refine UInt8.toNat_inj.mp ?_
  rw [hnum, hnum', ← hlen, ← hlen']

/-! ### The search -/

/-- What the search looks for in a class: the called method itself, or a method with a body of the
    name and signature -/
def Hit (sys : TypeSystem) (calleeMD : MethodDefIndex) (name : String) (signature : Signature)
    (X : TypeDefIndex) (m : MethodDefIndex) : Prop :=
  Declares sys X m ∧ (m = calleeMD ∨ (¬ IsAbstract sys m ∧ Matches sys name signature m))

section Search

variable {calleeMD : MethodDefIndex} {calleeMDR : MethodDefRecord} {name : String}
  {signature : Signature}

theorem scanMethods_spec (name : String) (ht : MethodTables sys owner) (hO : Declares sys O calleeMD)
    (hcallee : methodDef sys calleeMD = some calleeMDR)
    (hsig : signatureOf sys calleeMD = some signature) :
    ∀ (num md : Nat), (∀ k, md ≤ k → k < md + num → Declares sys X ⟨X.assembly, k⟩) →
    ∃ found, scanMethods sys calleeMD calleeMDR name X.assembly num md = some found ∧
      (∀ m, found = some m → Hit sys calleeMD name signature X m) ∧
      (found = none → ∀ k, md ≤ k → k < md + num →
        ¬ Hit sys calleeMD name signature X ⟨X.assembly, k⟩) := by
  intro num
  induction num with
  | zero => exact fun md _ => ⟨none, rfl, by simp, fun _ k hle hlt => by omega⟩
  | succ num ih =>
    intro md hdeclares
    have hX := hdeclares md (Nat.le_refl md) (by omega)
    rw [scanMethods]
    by_cases hself : (⟨X.assembly, md⟩ : MethodDefIndex) = calleeMD
    · rw [if_pos hself]
      refine ⟨_, rfl, fun m hm => ?_, by simp⟩
      rw [← Option.some.inj hm]
      exact ⟨hself ▸ hX, Or.inl rfl⟩
    · rw [if_neg hself]
      obtain ⟨targetMDR, signature', htarget, hsig', -⟩ := ht.wellFormed X _ hX
      have hfound : ∃ b, (if targetMDR.numArgs = calleeMDR.numArgs ∧ targetMDR.isAbstract = false ∧
            targetMDR.name = name then
          matchSignature sys calleeMD.assembly calleeMDR.sig X.assembly targetMDR.sig
          else some false) = some b ∧
          (b = true ↔ Hit sys calleeMD name signature X ⟨X.assembly, md⟩) := by
        by_cases hcond : targetMDR.numArgs = calleeMDR.numArgs ∧ targetMDR.isAbstract = false ∧
            targetMDR.name = name
        · rw [if_pos hcond, matchSignature_spec hcallee htarget hsig hsig']
          obtain ⟨-, habstract, hname⟩ := hcond
          refine ⟨_, rfl, decide_eq_true_iff.trans ⟨?_, ?_⟩⟩
          · rintro rfl
            refine ⟨hX, Or.inr ⟨?_, ⟨_, htarget, hname⟩, hsig'⟩⟩
            exact fun h => by simp [IsAbstract, htarget, habstract] at h
          · rintro ⟨-, heq | ⟨-, -, hmatch⟩⟩
            · exact absurd heq hself
            · exact Option.some.inj (hmatch.symm.trans hsig')
        · rw [if_neg hcond]
          refine ⟨false, rfl, iff_of_false Bool.false_ne_true ?_⟩
          rintro ⟨-, heq | ⟨habstract, ⟨md', hmd', hname⟩, hmatch⟩⟩
          · exact hself heq
          · obtain rfl := Option.some.inj (htarget.symm.trans hmd')
            refine hcond ⟨ht.numArgs_eq hX hO htarget hcallee (hmatch.trans hsig.symm), ?_, hname⟩
            exact Bool.eq_false_iff.mpr fun h => habstract ⟨_, htarget, h⟩
      obtain ⟨b, hb, hhit⟩ := hfound
      rw [htarget]
      simp only [Option.bind_eq_bind, Option.bind_some]
      rw [hb]
      simp only [Option.bind_some]
      by_cases hb : b = true
      · rw [if_pos hb]
        refine ⟨_, rfl, fun m hm => ?_, by simp⟩
        rw [← Option.some.inj hm]
        exact hhit.mp hb
      · rw [if_neg hb]
        obtain ⟨found, hscan, hsome, hnone⟩ := ih (md + 1) fun k hle hlt =>
          hdeclares k (by omega) (by omega)
        refine ⟨found, hscan, hsome, fun hfound k hle hlt => ?_⟩
        rcases Nat.eq_or_lt_of_le hle with rfl | hlt'
        · exact fun hk => hb (hhit.mpr hk)
        · exact hnone hfound k hlt' (by omega)

/-- `m` is found in the nearest class from `C` upwards that has a method to find. -/
def FirstHit (sys : TypeSystem) (calleeMD : MethodDefIndex) (name : String)
    (signature : Signature) (C : TypeDefIndex) (m : MethodDefIndex) : Prop :=
  ∃ Z, Ancestor sys.parent C Z ∧ Hit sys calleeMD name signature Z m ∧
    ∀ Y, Ancestor sys.parent C Y → Below sys Y Z → ∀ m', ¬ Hit sys calleeMD name signature Y m'

theorem searchClasses_spec (h : sys.Linked) (ht : MethodTables sys owner)
    (hO : Declares sys O calleeMD) (hcallee : methodDef sys calleeMD = some calleeMDR)
    (hsig : signatureOf sys calleeMD = some signature) :
    ∀ (fuel : Nat) (C : TypeDefIndex), sys.Valid C →
    (Library.lineage sys.parent fuel C).length < fuel →
    ∃ found, searchClasses sys calleeMD calleeMDR name fuel C = some found ∧
      (∀ m, found = some m → FirstHit sys calleeMD name signature C m) ∧
      (found = none → ∀ Z, Ancestor sys.parent C Z → ∀ m,
        ¬ Hit sys calleeMD name signature Z m) := by
  intro fuel
  induction fuel with
  | zero => exact fun C _ hfuel => absurd hfuel (Nat.not_lt_zero _)
  | succ fuel ih =>
    intro C hC hfuel
    obtain ⟨td, htd⟩ := id hC
    obtain ⟨found, hscan, hsome, hnone⟩ := scanMethods_spec (X := C) name ht hO hcallee
      hsig (td.vMethods_Num.toNat + td.iMethods_Num.toNat) td.methods_First
      fun k hle hlt => ⟨td, htd, rfl, hle, hlt⟩
    rw [searchClasses, htd]
    simp only [Option.bind_eq_bind, Option.bind_some]
    rw [hscan]
    simp only [Option.bind_some]
    cases found with
    | some m =>
      refine ⟨some m, rfl, fun m' hm' => ?_, by simp⟩
      obtain rfl := Option.some.inj hm'
      refine ⟨C, Relation.ReflTransGen.refl, hsome m rfl, fun Y hCY hYC => ?_⟩
      exact absurd (Relation.TransGen.trans_right hCY hYC) (h.acyclic C)
    | none =>
      have hhere : ∀ m, ¬ Hit sys calleeMD name signature C m := by
        rintro ⟨assm, k⟩ hhit
        obtain ⟨td', htd', hassm, hle, hlt⟩ := hhit.1
        obtain rfl := Option.some.inj (htd.symm.trans htd')
        simp only at hassm hle hlt
        subst hassm
        exact hnone rfl k hle hlt hhit
      rw [h.switchToParent_eq hC]
      simp only [Option.bind_some]
      cases hp : sys.parent C with
      | none =>
        refine ⟨none, rfl, by simp, fun _ Z hCZ m => ?_⟩
        rcases Relation.ReflTransGen.cases_head hCZ with rfl | ⟨P, hP, -⟩
        · exact hhere m
        · rw [hp] at hP
          cases hP
      | some P =>
        rw [Library.lineage_child hp] at hfuel
        obtain ⟨found, hsearch, hsome, hnone⟩ := ih P (h.valid_parent hC hp)
          (Nat.lt_of_succ_lt_succ hfuel)
        refine ⟨found, hsearch, fun m hm => ?_, fun hfound Z hCZ m => ?_⟩
        · obtain ⟨Z, hPZ, hhit, hfirst⟩ := hsome m hm
          refine ⟨Z, Relation.ReflTransGen.head hp hPZ, hhit, fun Y hCY hYZ => ?_⟩
          rcases Relation.ReflTransGen.cases_head hCY with rfl | ⟨Q, hQ, hQY⟩
          · exact hhere
          · rw [hp] at hQ
            obtain rfl := Option.some.inj hQ
            exact hfirst Y hQY hYZ
        · rcases Relation.ReflTransGen.cases_head hCZ with rfl | ⟨Q, hQ, hQZ⟩
          · exact hhere m
          · rw [hp] at hQ
            obtain rfl := Option.some.inj hQ
            exact hnone hfound Z hQZ m

end Search

/-! ### The slot of a method -/

/-- Of the slot that `M` occupies in its class: the method that it holds in `X`, and whether a
    virtual method of the name and signature in a class below takes it.  A new slot hides it. -/
inductive SlotHolds (sys : TypeSystem) (M : MethodDefIndex) :
    TypeDefIndex → MethodDefIndex → Bool → Prop
  | owner {O : TypeDefIndex} : Declares sys O M → SlotHolds sys M O M true
  | inherited {X P : TypeDefIndex} {m : MethodDefIndex} {reusable : Bool} :
      sys.parent X = some P → SlotHolds sys M P m reusable →
      (∀ m', Declares sys X m' → IsVirtual sys m' → ¬ SameMethod sys M m') →
      SlotHolds sys M X m reusable
  | override {X P : TypeDefIndex} {m m' : MethodDefIndex} : sys.parent X = some P →
      SlotHolds sys M P m true → Declares sys X m' → IsVirtual sys m' → SameMethod sys M m' →
      ¬ NewSlot sys m' → SlotHolds sys M X m' true
  | hidden {X P : TypeDefIndex} {m m' : MethodDefIndex} {reusable : Bool} :
      sys.parent X = some P → SlotHolds sys M P m reusable → Declares sys X m' →
      IsVirtual sys m' → SameMethod sys M m' → (NewSlot sys m' ∨ reusable = false) →
      SlotHolds sys M X m false

theorem ancestors_total (hX : Ancestor sys.parent C X) (hY : Ancestor sys.parent C Y) :
    X = Y ∨ Below sys X Y ∨ Below sys Y X := by
  have hunique : Relator.RightUnique fun a b => sys.parent a = some b := by
    intro a b c hab hac
    exact Option.some.inj (hab.symm.trans hac)
  rcases Relation.ReflTransGen.total_of_right_unique hunique hX hY with hXY | hYX
  · rcases Relation.reflTransGen_iff_eq_or_transGen.mp hXY with heq | hbelow
    · exact Or.inl heq.symm
    · exact Or.inr (Or.inl hbelow)
  · rcases Relation.reflTransGen_iff_eq_or_transGen.mp hYX with heq | hbelow
    · exact Or.inl heq
    · exact Or.inr (Or.inr hbelow)

section Slots

variable {b b' : Bool}

theorem SlotHolds.ancestor (ht : MethodTables sys owner) (hO : Declares sys O M)
    (hX : SlotHolds sys M X m b) : Ancestor sys.parent X O := by
  induction hX with
  | owner hO' =>
    rw [ht.declares_unique hO hO']
    exact Relation.ReflTransGen.refl
  | inherited hp _ _ ih | override hp _ _ _ _ _ ih | hidden hp _ _ _ _ _ ih =>
    exact Relation.ReflTransGen.head hp ih

theorem not_slotHolds_parent (h : sys.Linked) (ht : MethodTables sys owner)
    (hO : Declares sys O M) {P : TypeDefIndex} (hp : sys.parent O = some P) :
    ¬ SlotHolds sys M P m b :=
  fun hP => h.acyclic O (Relation.TransGen.head' hp (hP.ancestor ht hO))

theorem SlotHolds.unique (h : sys.Linked) (ht : MethodTables sys owner)
    (hX : SlotHolds sys M X m b) (hX' : SlotHolds sys M X m' b') : m = m' ∧ b = b' := by
  induction hX generalizing m' b' with
  | owner hO =>
    cases hX' with
    | owner _ => exact ⟨rfl, rfl⟩
    | inherited hp hP _ => exact absurd hP (not_slotHolds_parent h ht hO hp)
    | override hp hP _ _ _ _ => exact absurd hP (not_slotHolds_parent h ht hO hp)
    | hidden hp hP _ _ _ _ => exact absurd hP (not_slotHolds_parent h ht hO hp)
  | inherited hp hP hnone ih =>
    cases hX' with
    | owner hO => exact absurd hP (not_slotHolds_parent h ht hO hp)
    | inherited hp' hP' _ =>
      obtain rfl := Option.some.inj (hp.symm.trans hp')
      exact ih hP'
    | override _ _ hm hvirtual hsame _ => exact absurd hsame (hnone _ hm hvirtual)
    | hidden _ _ hm hvirtual hsame _ => exact absurd hsame (hnone _ hm hvirtual)
  | override hp hP hm hvirtual hsame hslot ih =>
    cases hX' with
    | owner hO => exact absurd hP (not_slotHolds_parent h ht hO hp)
    | inherited _ _ hnone => exact absurd hsame (hnone _ hm hvirtual)
    | override _ _ hm' _ hsame' _ => exact ⟨ht.unique _ _ _ hm hm' (hsame.symm.trans hsame'), rfl⟩
    | hidden hp' hP' hm' _ hsame' hnew =>
      obtain rfl := Option.some.inj (hp.symm.trans hp')
      obtain rfl := ht.unique _ _ _ hm hm' (hsame.symm.trans hsame')
      obtain ⟨-, hb⟩ := ih hP'
      exact absurd hb (by rcases hnew with hnew | hb' <;> simp_all)
  | hidden hp hP hm hvirtual hsame hnew ih =>
    cases hX' with
    | owner hO => exact absurd hP (not_slotHolds_parent h ht hO hp)
    | inherited _ _ hnone => exact absurd hsame (hnone _ hm hvirtual)
    | override hp' hP' hm' _ hsame' hslot =>
      obtain rfl := Option.some.inj (hp.symm.trans hp')
      obtain rfl := ht.unique _ _ _ hm hm' (hsame.symm.trans hsame')
      obtain ⟨-, hb⟩ := ih hP'
      exact absurd hb (by rcases hnew with hnew | hb' <;> simp_all)
    | hidden hp' hP' _ _ _ _ =>
      obtain rfl := Option.some.inj (hp.symm.trans hp')
      exact ⟨(ih hP').1, rfl⟩

theorem SlotHolds.origin (hX : SlotHolds sys M X m b) :
    ∃ W, Ancestor sys.parent X W ∧ Declares sys W m ∧ SlotHolds sys M W m true := by
  induction hX with
  | owner hO => exact ⟨_, Relation.ReflTransGen.refl, hO, SlotHolds.owner hO⟩
  | inherited hp _ _ ih | hidden hp _ _ _ _ _ ih =>
    obtain ⟨W, hPW, hW, hslot⟩ := ih
    exact ⟨W, Relation.ReflTransGen.head hp hPW, hW, hslot⟩
  | override hp hP hm hvirtual hsame hnew _ =>
    exact ⟨_, Relation.ReflTransGen.refl, hm, SlotHolds.override hp hP hm hvirtual hsame hnew⟩

/-- On the way from a class down the slot keeps what it holds, or takes a method of a class below
    that one. -/
theorem SlotHolds.kept (ht : MethodTables sys owner) (hO : Declares sys O M)
    (hC : SlotHolds sys M C m b) (hZ : Ancestor sys.parent C Z) (hZO : Ancestor sys.parent Z O)
    (h : sys.Linked) :
    ∃ m' b', SlotHolds sys M Z m' b' ∧ (m = m' ∨ ∃ W, Ancestor sys.parent C W ∧ Below sys W Z ∧
      Declares sys W m ∧ SlotHolds sys M W m true) := by
  induction hC with
  | owner hO' =>
    obtain rfl := ht.declares_unique hO hO'
    rcases Relation.reflTransGen_iff_eq_or_transGen.mp hZ with heq | hbelow
    · rw [heq]
      exact ⟨_, _, SlotHolds.owner hO, Or.inl rfl⟩
    · exact absurd (Relation.TransGen.trans_left hbelow hZO) (h.acyclic _)
  | inherited hp hP hnone ih =>
    rcases Relation.ReflTransGen.cases_head hZ with rfl | ⟨Q, hQ, hQZ⟩
    · exact ⟨_, _, SlotHolds.inherited hp hP hnone, Or.inl rfl⟩
    · obtain rfl := Option.some.inj (hp.symm.trans hQ)
      obtain ⟨m', b', hZ', hkept⟩ := ih hQZ
      refine ⟨m', b', hZ', hkept.imp_right ?_⟩
      rintro ⟨W, hPW, hrest⟩
      exact ⟨W, Relation.ReflTransGen.head hp hPW, hrest⟩
  | override hp hP hm hvirtual hsame hnew ih =>
    rcases Relation.ReflTransGen.cases_head hZ with rfl | ⟨Q, hQ, hQZ⟩
    · exact ⟨_, _, SlotHolds.override hp hP hm hvirtual hsame hnew, Or.inl rfl⟩
    · obtain rfl := Option.some.inj (hp.symm.trans hQ)
      obtain ⟨m', b', hZ', -⟩ := ih hQZ
      exact ⟨m', b', hZ', Or.inr ⟨_, Relation.ReflTransGen.refl, Relation.TransGen.head' hp hQZ, hm,
        SlotHolds.override hp hP hm hvirtual hsame hnew⟩⟩
  | hidden hp hP hm hvirtual hsame hnew ih =>
    rcases Relation.ReflTransGen.cases_head hZ with rfl | ⟨Q, hQ, hQZ⟩
    · exact ⟨_, _, SlotHolds.hidden hp hP hm hvirtual hsame hnew, Or.inl rfl⟩
    · obtain rfl := Option.some.inj (hp.symm.trans hQ)
      obtain ⟨m', b', hZ', hkept⟩ := ih hQZ
      refine ⟨m', b', hZ', hkept.imp_right ?_⟩
      rintro ⟨W, hPW, hrest⟩
      exact ⟨W, Relation.ReflTransGen.head hp hPW, hrest⟩

theorem MethodTables.sameMethod_self (ht : MethodTables sys owner) (hO : Declares sys O M) :
    SameMethod sys M M := by
  obtain ⟨md, signature, hmd, hsig, -⟩ := ht.wellFormed O M hO
  exact ⟨md.name, signature, ⟨⟨md, hmd, rfl⟩, hsig⟩, ⟨md, hmd, rfl⟩, hsig⟩

theorem SlotHolds.same (ht : MethodTables sys owner) (hX : SlotHolds sys M X m b) :
    SameMethod sys M m := by
  induction hX with
  | owner hO => exact ht.sameMethod_self hO
  | inherited _ _ _ ih | hidden _ _ _ _ _ _ ih => exact ih
  | override _ _ _ _ hsame _ _ => exact hsame

end Slots

/-! ### Methods that hide a slot -/

/-- `m`, a method with a body in a class below that of `M`, has the name and signature of `M`
    without taking its slot. -/
def Hides (sys : TypeSystem) (M : MethodDefIndex) (X : TypeDefIndex) (m : MethodDefIndex) : Prop :=
  (∃ O, Declares sys O M ∧ Below sys X O) ∧ Declares sys X m ∧ ¬ IsAbstract sys m ∧
    SameMethod sys M m ∧ ¬ SlotHolds sys M X m true

def Takes (sys : TypeSystem) (M : MethodDefIndex) (X : TypeDefIndex) (m : MethodDefIndex) : Prop :=
  Declares sys X m ∧ ¬ IsAbstract sys m ∧ SlotHolds sys M X m true

/-- Below each class that hides the slot of `M` another one takes it. -/
def NotHidden (sys : TypeSystem) (C : TypeDefIndex) (M : MethodDefIndex) : Prop :=
  ∀ X m, Ancestor sys.parent C X → Hides sys M X m →
    ∃ Y m', Ancestor sys.parent C Y ∧ Below sys Y X ∧ Takes sys M Y m'

section Hiding

variable {name : String} {signature : Signature} {b : Bool} {callee r : MethodDefIndex}

theorem hit_of_takes (ht : MethodTables sys owner) (hM : Matches sys name signature M)
    (hX : Takes sys M X m) : Hit sys callee name signature X m :=
  ⟨hX.1, Or.inr ⟨hX.2.1, matches_of_sameMethod (hX.2.2.same ht) hM⟩⟩

/-- What is found is what the slot of `M` holds exactly if no method hides it. -/
theorem firstHit_iff (h : sys.Linked) (ht : MethodTables sys owner) (hO : Declares sys O M)
    (hM : Matches sys name signature M)
    (hcallee : ∀ X, Ancestor sys.parent C X → Declares sys X callee → callee = M)
    (hC : SlotHolds sys M C m b) (hm : ¬ IsAbstract sys m)
    (hr : FirstHit sys callee name signature C r) : r = m ↔ NotHidden sys C M := by
  obtain ⟨Z, hCZ, hhit, hfirst⟩ := hr
  have hCO := hC.ancestor ht hO
  have hsameM : ∀ m', Matches sys name signature m' → SameMethod sys M m' :=
    fun m' hm' => ⟨name, signature, hM, hm'⟩
  obtain ⟨W, hCW, hW, hslotW⟩ := hC.origin
  have hhitW : Hit sys callee name signature W m := hit_of_takes ht hM ⟨hW, hm, hslotW⟩
  -- below `Z` nothing with a body is put into the slot
  have hbelow : ∀ m', SlotHolds sys M Z m' true → m = m' := by
    intro m' hZ
    obtain ⟨m₁, b₁, hZ₁, hkept⟩ := hC.kept ht hO hCZ (hZ.ancestor ht hO) h
    obtain ⟨rfl, -⟩ := hZ.unique h ht hZ₁
    rcases hkept with heq | ⟨V, hCV, hVZ, hV, hslotV⟩
    · exact heq
    · exact absurd (hit_of_takes ht hM ⟨hV, hm, hslotV⟩) (hfirst V hCV hVZ m)
  constructor
  · rintro rfl X m' hCX ⟨-, hX, hbody, hsame, hnot⟩
    obtain rfl := ht.declares_unique hhit.1 hW
    rcases ancestors_total hCX hCW with heq | hXZ | hZX
    · subst heq
      obtain rfl := ht.unique _ _ _ hX hW (hsame.symm.trans (hslotW.same ht))
      exact absurd hslotW hnot
    · exact absurd ⟨hX, Or.inr ⟨hbody, matches_of_sameMethod hsame hM⟩⟩ (hfirst X hCX hXZ m')
    · exact ⟨Z, r, hCW, hZX, hW, hm, hslotW⟩
  · intro hnot
    rcases ancestors_total hCZ hCO with heq | hZO | hOZ
    · subst heq
      have hrM : r = M := by
        rcases hhit.2 with heq | ⟨-, hmatch⟩
        · rw [heq]
          exact hcallee Z hCZ (heq ▸ hhit.1)
        · exact ht.unique _ _ _ hhit.1 hO (hsameM r hmatch).symm
      rw [hrM]
      exact (hbelow M (SlotHolds.owner hO)).symm
    · have hmatch : ¬ IsAbstract sys r ∧ Matches sys name signature r := by
        rcases hhit.2 with heq | hmatch
        · have hr := heq.trans (hcallee Z hCZ (heq ▸ hhit.1))
          rw [hr] at hhit
          rw [ht.declares_unique hhit.1 hO] at hZO
          exact absurd hZO (h.acyclic O)
        · exact hmatch
      by_cases hslot : SlotHolds sys M Z r true
      · exact (hbelow r hslot).symm
      · obtain ⟨Y, m', hCY, hYZ, htakes⟩ := hnot Z r hCZ
          ⟨⟨O, hO, hZO⟩, hhit.1, hmatch.1, hsameM r hmatch.2, hslot⟩
        exact absurd (hit_of_takes ht hM htakes) (hfirst Y hCY hYZ m')
    · exact absurd hhitW (hfirst W hCW
        (Relation.TransGen.trans_right (hslotW.ancestor ht hO) hOZ) m)

end Hiding

/-! ### The rules -/

def explicitText (sys : TypeSystem) (I : TypeDefIndex) (M : MethodDefIndex) : Option String := do
  let name ← buildTypeName sys (sys.types.length + 1) I
  let md ← methodDef sys M
  some (name ++ "." ++ md.name)

/-- `m` in `S` implements the method `M` of the interface `I` explicitly. -/
def Explicit (sys : TypeSystem) (I : TypeDefIndex) (M : MethodDefIndex) (S : TypeDefIndex)
    (m : MethodDefIndex) : Prop :=
  ∃ text signature, explicitText sys I M = some text ∧ signatureOf sys M = some signature ∧
    Declares sys S m ∧ Matches sys text signature m

/-- How a class maps the method `M` of the interface `I`: from the class upwards, in each class an
    explicit implementation before a virtual method of the name and signature -/
inductive Implements (sys : TypeSystem) (I : TypeDefIndex) (M : MethodDefIndex) :
    TypeDefIndex → MethodDefIndex → Prop
  | explicit {S : TypeDefIndex} {m : MethodDefIndex} : Explicit sys I M S m →
      IsVirtual sys m → Implements sys I M S m
  | implicit {S : TypeDefIndex} {m : MethodDefIndex} :
      (∀ m', Explicit sys I M S m' → ¬ IsVirtual sys m') → Declares sys S m → IsVirtual sys m →
      SameMethod sys M m → Implements sys I M S m
  | inherited {S P : TypeDefIndex} {m : MethodDefIndex} :
      (∀ m', Declares sys S m' → IsVirtual sys m' →
        ¬ Explicit sys I M S m' ∧ ¬ SameMethod sys M m') →
      sys.parent S = some P → Implements sys I M P m → Implements sys I M S m

/-- The implementation of `M` that an object of the class `C` has to run, and the method whose slot
    holds it: `M` itself, or what the most derived class with the interface maps `M` to -/
inductive Prescribed (sys : TypeSystem) (C : TypeDefIndex) (M : MethodDefIndex) :
    MethodDefIndex → MethodDefIndex → Prop
  | ofClass {O : TypeDefIndex} {m : MethodDefIndex} {b : Bool} : Declares sys O M →
      semanticsOf sys O ≠ some .interface → IsVirtual sys M → SlotHolds sys M C m b →
      Prescribed sys C M M m
  | ofInterface {I X : TypeDefIndex} {m m' : MethodDefIndex} {b : Bool} : Declares sys I M →
      semanticsOf sys I = some .interface → Ancestor sys.parent C X → Lists sys X I →
      (∀ Y, Ancestor sys.parent C Y → Below sys Y X → ¬ Lists sys Y I) →
      Implements sys I M X m' → SlotHolds sys m' C m b → Prescribed sys C M m' m

/-- Where the search finds the prescribed implementation: no method hides the slot.  For a method
    of an interface the name of an explicit implementation fits the buffer, and an implicit
    implementation is found if no class has an explicit one. -/
def DispatchAgrees (sys : TypeSystem) (C : TypeDefIndex) (M m' : MethodDefIndex) : Prop :=
  NotHidden sys C m' ∧ ∀ I, Declares sys I M → semanticsOf sys I = some .interface →
    (∃ text, explicitText sys I M = some text ∧ text.utf8ByteSize < maxStrLen) ∧
    (SameMethod sys M m' → ∀ X m, Ancestor sys.parent C X → Explicit sys I M X m →
      IsAbstract sys m)

def ClassHierarchy (sys : TypeSystem) (C : TypeDefIndex) : Prop :=
  sys.Valid C ∧ ∀ X, Ancestor sys.parent C X → semanticsOf sys X ≠ some .interface

variable {I : TypeDefIndex} {text : String}

theorem explicitText_ne {md : MethodDefRecord}
    (htext : explicitText sys I M = some text) (hmd : methodDef sys M = some md) :
    text ≠ md.name := by
  rw [explicitText, hmd] at htext
  obtain ⟨name, -, htext⟩ := Option.bind_eq_some_iff.mp htext
  rintro rfl
  have hlen := congrArg String.length (Option.some.inj htext)
  have hdot : ".".length = 1 := rfl
  simp only [String.length_append] at hlen
  omega

theorem explicitName_eq_some {md : MethodDefRecord}
    (hmd : methodDef sys M = some md) : explicitName sys I md.name = some text ↔
      explicitText sys I M = some text ∧ text.utf8ByteSize < maxStrLen := by
  rw [explicitName, explicitText, hmd]
  cases buildTypeName sys (sys.types.length + 1) I with
  | none => simp
  | some name =>
    simp only [Option.bind_eq_bind, Option.bind_some, Option.some.injEq]
    by_cases hfits : (name ++ "." ++ md.name).utf8ByteSize < maxStrLen
    · rw [if_pos hfits]
      constructor
      · intro heq
        rw [← Option.some.inj heq]
        exact ⟨rfl, hfits⟩
      · exact fun heq => congrArg some heq.1
    · rw [if_neg hfits]
      constructor
      · exact fun heq => by cases heq
      · rintro ⟨rfl, hlt⟩
        exact absurd hlt hfits

theorem Implements.origin {X : TypeDefIndex} (hX : Implements sys I M X m) :
    ∃ S, Declares sys S m ∧ (Explicit sys I M S m ∨ SameMethod sys M m) := by
  induction hX with
  | explicit hexplicit _ =>
    obtain ⟨text, signature, htext, hsig, hS, hmatch⟩ := hexplicit
    exact ⟨_, hS, Or.inl ⟨text, signature, htext, hsig, hS, hmatch⟩⟩
  | implicit _ hS _ hsame => exact ⟨_, hS, Or.inr hsame⟩
  | inherited _ _ _ ih => exact ih

section Rules

variable {callee r : MethodDefIndex} {md : MethodDefRecord} {name : String} {signature : Signature}

/-- What `FindVirtualMethodDef` finds by a name -/
theorem findByName_spec (h : sys.Linked) (ht : MethodTables sys owner)
    (hO : Declares sys O callee) (hmd : methodDef sys callee = some md)
    (hsig : signatureOf sys callee = some signature) (hC : sys.Valid C) (name : String) :
    ∃ found, findByName sys C callee name = some found ∧
      (∀ r, found = some r → FirstHit sys callee name signature C r) ∧
      (found = none → ∀ Z, Ancestor sys.parent C Z → ∀ m,
        ¬ Hit sys callee name signature Z m) := by
  rw [findByName, hmd]
  exact searchClasses_spec h ht hO hmd hsig _ C hC (h.length_lineage hC)

theorem firstHit_unique (ht : MethodTables sys owner)
    (hcallee : Matches sys name signature callee)
    (hr : FirstHit sys callee name signature C r) (hm : FirstHit sys callee name signature C m) :
    r = m := by
  obtain ⟨Z, hCZ, hhit, hfirst⟩ := hr
  obtain ⟨Z', hCZ', hhit', hfirst'⟩ := hm
  have hmatch : ∀ {Y k}, Hit sys callee name signature Y k → Matches sys name signature k := by
    rintro Y k ⟨-, rfl | ⟨-, hk⟩⟩
    exacts [hcallee, hk]
  rcases ancestors_total hCZ hCZ' with rfl | hlt | hlt
  · exact ht.unique Z _ _ hhit.1 hhit'.1 ⟨name, signature, hmatch hhit, hmatch hhit'⟩
  · exact absurd hhit (hfirst' Z hCZ hlt r)
  · exact absurd hhit' (hfirst Z' hCZ' hlt m)

theorem find_again (h : sys.Linked) (ht : MethodTables sys owner) (hC : ClassHierarchy sys C)
    (hr : FirstHit sys callee name signature C r) (hmatch : Matches sys name signature r) :
    findVirtualMethodDef sys owner C r = some (some r) := by
  obtain ⟨Z, hCZ, hhit, hfirst⟩ := hr
  obtain ⟨⟨mdr, hmdr, hname⟩, hsig⟩ := id hmatch
  have hfirst' : FirstHit sys r name signature C r := by
    refine ⟨Z, hCZ, ⟨hhit.1, Or.inl rfl⟩, fun Y hCY hYZ m' hhit' => ?_⟩
    rcases hhit'.2 with rfl | hbody
    · rw [ht.declares_unique hhit'.1 hhit.1] at hYZ
      exact h.acyclic Z hYZ
    · exact hfirst Y hCY hYZ m' ⟨hhit'.1, Or.inr hbody⟩
  obtain ⟨found, hfind, hsome, hnone⟩ := findByName_spec h ht hhit.1 hmdr hsig hC.1 name
  have hinst : (⟨r.assembly, owner r⟩ : TypeDefIndex) = Z := by
    obtain ⟨-, -, hassm, -⟩ := id hhit.1
    rw [ht.owned Z r hhit.1, hassm]
  obtain ⟨td, htd, -⟩ := id hhit.1
  have hclass : td.semantics ≠ .interface := by
    intro heq
    refine hC.2 Z hCZ ?_
    rw [semanticsOf, htd, Option.map_some, heq]
  rw [findVirtualMethodDef, hmdr]
  simp only [Option.bind_eq_bind, Option.bind_some]
  rw [hinst, htd]
  simp only [Option.bind_some]
  rw [if_neg hclass, hname, hfind]
  cases found with
  | none => exact absurd ⟨hhit.1, Or.inl rfl⟩ (hnone rfl Z hCZ r)
  | some r' => rw [firstHit_unique ht hmatch (hsome r' rfl) hfirst']

theorem findVirtualMethodDef_eq (ht : MethodTables sys owner) (hO : Declares sys O M)
    (hmd : methodDef sys M = some md) : findVirtualMethodDef sys owner C M =
      if semanticsOf sys O = some .interface then
        (explicitName sys O md.name).bind fun rgBuffer =>
          (findByName sys C M rgBuffer).bind fun found =>
            match found with
            | some idx => some (some idx)
            | none => findByName sys C M md.name
      else findByName sys C M md.name := by
  have hinst : (⟨M.assembly, owner M⟩ : TypeDefIndex) = O := by
    obtain ⟨-, -, hassm, -⟩ := id hO
    rw [ht.owned O M hO, hassm]
  obtain ⟨td, htd, -⟩ := id hO
  rw [findVirtualMethodDef, hmd]
  simp only [Option.bind_eq_bind, Option.bind_some]
  rw [hinst, semanticsOf, htd]
  simp only [Option.bind_some, Option.map_some]
  by_cases hface : td.semantics = .interface
  · rw [if_pos hface]
    exact (if_pos (congrArg some hface)).symm
  · rw [if_neg hface]
    exact (if_neg fun heq => hface (Option.some.inj heq)).symm

theorem find_class_method (h : sys.Linked) (ht : MethodTables sys owner)
    (hC : ClassHierarchy sys C) (hO : Declares sys O M)
    (hclass : semanticsOf sys O ≠ some .interface) {b : Bool} (hslot : SlotHolds sys M C m b)
    (hm : ¬ IsAbstract sys m) : ∃ r, findVirtualMethodDef sys owner C M = some (some r) ∧
      (r = m ↔ NotHidden sys C M) ∧ findVirtualMethodDef sys owner C r = some (some r) := by
  obtain ⟨md, signature, hmd, hsig, -⟩ := ht.wellFormed O M hO
  have hmatch : Matches sys md.name signature M := ⟨⟨md, hmd, rfl⟩, hsig⟩
  rw [findVirtualMethodDef_eq ht hO hmd, if_neg hclass]
  obtain ⟨found, hfind, hsome, hnone⟩ := findByName_spec h ht hO hmd hsig hC.1 md.name
  cases found with
  | none => exact absurd ⟨hO, Or.inl rfl⟩ (hnone rfl O (hslot.ancestor ht hO) M)
  | some r =>
    have hr := hsome r rfl
    refine ⟨r, hfind, firstHit_iff h ht hO hmatch (fun _ _ _ => rfl) hslot hm hr, ?_⟩
    refine find_again h ht hC hr ?_
    obtain ⟨Z, -, ⟨-, heq | ⟨-, hZ⟩⟩, -⟩ := hr
    exacts [heq ▸ hmatch, hZ]

theorem find_interface_name (h : sys.Linked) (ht : MethodTables sys owner)
    (hC : ClassHierarchy sys C) (hI : Declares sys I M)
    (hface : semanticsOf sys I = some .interface) (hr : FirstHit sys M name signature C r) :
    (∃ Z, Ancestor sys.parent C Z ∧ Declares sys Z r ∧ ¬ IsAbstract sys r) ∧
      Matches sys name signature r ∧ findVirtualMethodDef sys owner C r = some (some r) := by
  obtain ⟨Z, hCZ, hhit, hfirst⟩ := id hr
  rcases hhit.2 with heq | ⟨hbody, hmatch⟩
  · have hZ := hhit.1
    rw [heq] at hZ
    rw [ht.declares_unique hI hZ] at hface
    exact absurd hface (hC.2 Z hCZ)
  · exact ⟨⟨Z, hCZ, hhit.1, hbody⟩, hmatch, find_again h ht hC hr hmatch⟩

theorem find_interface_method (h : sys.Linked) (ht : MethodTables sys owner)
    (hC : ClassHierarchy sys C) {S : TypeDefIndex} (hI : Declares sys I M)
    (hface : semanticsOf sys I = some .interface) (hS : Declares sys S m')
    (himpl : Explicit sys I M S m' ∨ SameMethod sys M m') {b : Bool}
    (hslot : SlotHolds sys m' C m b) (hm : ¬ IsAbstract sys m)
    (htext : explicitText sys I M = some text) (hfits : text.utf8ByteSize < maxStrLen) :
    ∃ r, findVirtualMethodDef sys owner C M = some (some r) ∧
      (r = m ↔ NotHidden sys C m' ∧ (SameMethod sys M m' → ∀ X k, Ancestor sys.parent C X →
        Explicit sys I M X k → IsAbstract sys k)) ∧
      findVirtualMethodDef sys owner C r = some (some r) := by
  obtain ⟨md, signature, hmd, hsig, -⟩ := ht.wellFormed I M hI
  have hmatch : Matches sys md.name signature M := ⟨⟨md, hmd, rfl⟩, hsig⟩
  have hne := explicitText_ne htext hmd
  have hnotCallee : ∀ X, Ancestor sys.parent C X → Declares sys X M → M = m' := by
    intro X hCX hX
    rw [ht.declares_unique hI hX] at hface
    exact absurd hface (hC.2 X hCX)
  obtain ⟨W, hCW, hW, hslotW⟩ := hslot.origin
  have htakes : Takes sys m' W m := ⟨hW, hm, hslotW⟩
  obtain ⟨found, hfind, hsome, hnone⟩ := findByName_spec h ht hI hmd hsig hC.1 text
  rw [findVirtualMethodDef_eq ht hI hmd, if_pos hface,
    (explicitName_eq_some hmd).mpr ⟨htext, hfits⟩]
  simp only [Option.bind_some, hfind]
  have hexplicit : ∀ X k, Explicit sys I M X k → Declares sys X k ∧ Matches sys text signature k := by
    rintro X k ⟨text', signature', htext', hsig', hX, hk⟩
    obtain rfl := Option.some.inj (htext.symm.trans htext')
    obtain rfl := Option.some.inj (hsig.symm.trans hsig')
    exact ⟨hX, hk⟩
  cases found with
  | some r =>
    have hr := hsome r rfl
    obtain ⟨⟨Z, hCZ, hZ, hbody⟩, hrmatch, hagain⟩ := find_interface_name h ht hC hI hface hr
    refine ⟨r, rfl, ?_, hagain⟩
    rcases himpl with himpl | hsame
    · have hm' := (hexplicit S m' himpl).2
      rw [firstHit_iff h ht hS hm' hnotCallee hslot hm hr]
      refine ⟨fun hnot => ⟨hnot, fun hsame => ?_⟩, fun hnot => hnot.1⟩
      exact absurd ((matches_of_sameMethod hsame hmatch).unique hm').1 hne.symm
    · refine iff_of_false ?_ fun hagree => ?_
      · rintro rfl
        have hrM := matches_of_sameMethod (hsame.trans (hslot.same ht)) hmatch
        exact hne (hrmatch.unique hrM).1
      · exact hbody (hagree.2 hsame Z r hCZ ⟨text, signature, htext, hsig, hZ, hrmatch⟩)
  | none =>
    rcases himpl with himpl | hsame
    · exact absurd (hit_of_takes ht (hexplicit S m' himpl).2 htakes) (hnone rfl W hCW m)
    · have hm' := matches_of_sameMethod hsame hmatch
      obtain ⟨found', hfind', hsome', hnone'⟩ := findByName_spec h ht hI hmd hsig hC.1 md.name
      cases found' with
      | none => exact absurd (hit_of_takes ht hm' htakes) (hnone' rfl W hCW m)
      | some r =>
        have hr := hsome' r rfl
        obtain ⟨-, -, hagain⟩ := find_interface_name h ht hC hI hface hr
        refine ⟨r, hfind', ?_, hagain⟩
        rw [firstHit_iff h ht hS hm' hnotCallee hslot hm hr]
        refine ⟨fun hnot => ⟨hnot, fun _ X k hCX hk => ?_⟩, fun hnot => hnot.1⟩
        obtain ⟨hX, hkmatch⟩ := hexplicit X k hk
        by_contra hbody
        exact hnone rfl X hCX k ⟨hX, Or.inr ⟨hbody, hkmatch⟩⟩

end Rules

/-- A call reaches the prescribed implementation exactly where no method stands in the way, and
    what is found is found again. -/
theorem dispatch_follows_slots (h : sys.Linked) (ht : MethodTables sys owner)
    (hC : ClassHierarchy sys C) (hprescribed : Prescribed sys C M m' m)
    (hconcrete : ¬ IsAbstract sys m) :
    ((findVirtualMethodDef sys owner C M = some (some m) ∧
        findVirtualMethodDef sys owner C m = some (some m)) ↔ DispatchAgrees sys C M m') ∧
      ∀ r, findVirtualMethodDef sys owner C M = some (some r) →
        findVirtualMethodDef sys owner C r = some (some r) := by
  have hfound : ∀ {p : Prop} {r : MethodDefIndex},
      findVirtualMethodDef sys owner C M = some (some r) → (r = m ↔ p) →
      findVirtualMethodDef sys owner C r = some (some r) →
      ((findVirtualMethodDef sys owner C M = some (some m) ∧
        findVirtualMethodDef sys owner C m = some (some m)) ↔ p) ∧
      ∀ r, findVirtualMethodDef sys owner C M = some (some r) →
        findVirtualMethodDef sys owner C r = some (some r) := by
    intro p r hfind hiff hagain
    refine ⟨Iff.trans ⟨?_, ?_⟩ hiff, fun r' hr' => ?_⟩
    · rintro ⟨hm, -⟩
      exact Option.some.inj (Option.some.inj (hfind.symm.trans hm))
    · rintro rfl
      exact ⟨hfind, hagain⟩
    · obtain rfl := Option.some.inj (Option.some.inj (hfind.symm.trans hr'))
      exact hagain
  cases hprescribed with
  | ofClass hO hclass _ hslot =>
    obtain ⟨r, hfind, hiff, hagain⟩ := find_class_method h ht hC hO hclass hslot hconcrete
    refine hfound hfind (hiff.trans ⟨fun hnot => ⟨hnot, fun I hI hface => ?_⟩, fun hnot => hnot.1⟩)
      hagain
    rw [ht.declares_unique hI hO] at hface
    exact absurd hface hclass
  | @ofInterface I X _ _ _ hI hface _ _ _ himpl hslot =>
    obtain ⟨S, hS, himpl⟩ := himpl.origin
    by_cases hfits : ∃ text, explicitText sys I M = some text ∧ text.utf8ByteSize < maxStrLen
    · obtain ⟨text, htext, hlt⟩ := hfits
      obtain ⟨r, hfind, hiff, hagain⟩ := find_interface_method h ht hC hI hface hS himpl hslot
        hconcrete htext hlt
      refine hfound hfind (hiff.trans ⟨fun hagree => ⟨hagree.1, fun I' hI' _ => ?_⟩, fun hagree => ?_⟩)
        hagain
      · rw [ht.declares_unique hI' hI]
        exact ⟨⟨text, htext, hlt⟩, hagree.2⟩
      · exact ⟨hagree.1, (hagree.2 I hI hface).2⟩
    · obtain ⟨md, -, hmd, -⟩ := ht.wellFormed I M hI
      have hnone : findVirtualMethodDef sys owner C M = none := by
        rw [findVirtualMethodDef_eq ht hI hmd, if_pos hface]
        cases hname : explicitName sys I md.name with
        | none => rfl
        | some text => exact absurd ⟨text, (explicitName_eq_some hmd).mp hname⟩ hfits
      rw [hnone]
      refine ⟨iff_of_false (fun hall => by cases hall.1) fun hagree => ?_, fun r hr => by cases hr⟩
      exact hfits (hagree.2 I hI hface).1

/-! ### Two small hierarchies -/

/-- The virtual and instance methods of a class -/
def declared (sys : TypeSystem) (X : TypeDefIndex) : List MethodDefIndex :=
  match sys.typeDef X with
  | none => []
  | some td => (List.range' td.methods_First (td.vMethods_Num.toNat + td.iMethods_Num.toNat)).map
      fun k => ⟨X.assembly, k⟩

theorem declares_iff : Declares sys X m ↔ m ∈ declared sys X := by
  rw [declared]
  cases htd : sys.typeDef X with
  | none => simp [Declares, htd]
  | some td =>
    simp only [Declares, htd, Option.some.injEq, exists_eq_left', List.mem_map, List.mem_range'_1]
    constructor
    · rintro ⟨hassm, hle, hlt⟩
      exact ⟨m.method, ⟨hle, hlt⟩, by rw [← hassm]⟩
    · rintro ⟨k, hk, rfl⟩
      exact ⟨rfl, hk⟩

/-- Whether the tables are well formed -/
def checkMethodTables (sys : TypeSystem) (owner : MethodDefIndex → Nat) : Bool :=
  sys.types.all fun X => (declared sys X).all fun m =>
    ((methodDef sys m).any fun md => (signatureOf sys m).isSome &&
      decide (md.numArgs.toNat = md.sig.count + 1)) &&
    decide (owner m = X.type) &&
    (declared sys X).all fun m' => decide (m = m' ∨ signatureOf sys m ≠ signatureOf sys m' ∨
      (methodDef sys m).map (fun md => md.name) ≠ (methodDef sys m').map (fun md => md.name))

theorem methodTables_of_check (h : checkMethodTables sys owner = true) :
    MethodTables sys owner := by
  have hall : ∀ X m, Declares sys X m → _ := fun X m hX =>
    List.all_eq_true.mp (List.all_eq_true.mp h X (mem_types (hX.imp fun _ htd => htd.1))) m
      (declares_iff.mp hX)
  simp only [Bool.and_eq_true, decide_eq_true_eq] at hall
  refine ⟨fun X m hX => ?_, fun X m m' hX hX' hsame => ?_, fun X m hX => (hall X m hX).1.2⟩
  · obtain ⟨md, hmd, hrest⟩ := (Option.any_eq_true _ _).mp (hall X m hX).1.1
    obtain ⟨hsome, hnum⟩ := Bool.and_eq_true_iff.mp hrest
    obtain ⟨signature, hsig⟩ := Option.isSome_iff_exists.mp hsome
    exact ⟨md, signature, hmd, hsig, of_decide_eq_true hnum⟩
  · obtain ⟨name, signature, ⟨⟨md, hmd, hname⟩, hsig⟩, ⟨md', hmd', hname'⟩, hsig'⟩ := hsame
    have hdiffer := of_decide_eq_true
      (List.all_eq_true.mp (hall X m hX).2 m' (declares_iff.mp hX'))
    rw [hsig, hsig', hmd, hmd', Option.map_some, Option.map_some, hname, hname'] at hdiffer
    simpa using hdiffer

def plainMethod (newSlot : Bool) : MethodDefRecord where
  name := "Run"
  isVirtual := true
  newSlot := newSlot
  isAbstract := false
  numArgs := 1
  sig := { flags := 0x20, count := 0, items := [.void] }

/-- A class with a virtual method, and a class derived from it with a virtual method of the same
    name, in a new slot or not -/
def twoClasses (newSlot : Bool) : TypeSystem where
  assemblies :=
    [{ typeDef :=
        [{ plainType none .classType [] with vMethods_Num := 1 },
         { plainType (some (.typeDef 0)) .classType [] with methods_First := 1, vMethods_Num := 1 }]
       fieldDef := []
       methodDef := [plainMethod true, plainMethod newSlot]
       typeRef := []
       typeSpec := [] }]
  wellKnown := smallSystem.wellKnown

theorem twoClasses_linked (newSlot : Bool) : (twoClasses newSlot).Linked := by
  cases newSlot <;> exact linked_of_check (by decide)

theorem twoClasses_methodTables (newSlot : Bool) :
    MethodTables (twoClasses newSlot) MethodDefIndex.method := by
  cases newSlot <;> exact methodTables_of_check (by decide)

theorem twoClasses_ancestor {newSlot : Bool} (hX : Ancestor (twoClasses newSlot).parent ⟨0, 1⟩ X) :
    X = ⟨0, 1⟩ ∨ X = ⟨0, 0⟩ := by
  have hmem := ((twoClasses_linked newSlot).mem_lineage ⟨_, rfl⟩).mpr hX
  have hlineage : (twoClasses newSlot).lineage ⟨0, 1⟩ = [⟨0, 1⟩, ⟨0, 0⟩] := rfl
  rw [hlineage] at hmem
  simpa using hmem

theorem twoClasses_hierarchy (newSlot : Bool) : ClassHierarchy (twoClasses newSlot) ⟨0, 1⟩ := by
  refine ⟨⟨_, rfl⟩, fun X hX => ?_⟩
  rcases twoClasses_ancestor hX with rfl | rfl
  · exact fun heq => by cases heq
  · exact fun heq => by cases heq

theorem twoClasses_declares {newSlot : Bool} {k : Nat} (hX : Declares (twoClasses newSlot) ⟨0, k⟩ m) :
    m = ⟨0, k⟩ := by
  have howner := (twoClasses_methodTables newSlot).owned _ m hX
  obtain ⟨-, -, hassm, -⟩ := hX
  obtain ⟨assm, method⟩ := m
  simp only at hassm howner
  rw [hassm, howner]

theorem twoClasses_base (newSlot : Bool) : Declares (twoClasses newSlot) ⟨0, 0⟩ ⟨0, 0⟩ :=
  declares_iff.mpr (by cases newSlot <;> decide)

theorem twoClasses_derived (newSlot : Bool) : Declares (twoClasses newSlot) ⟨0, 1⟩ ⟨0, 1⟩ :=
  declares_iff.mpr (by cases newSlot <;> decide)

theorem twoClasses_same (newSlot : Bool) : SameMethod (twoClasses newSlot) ⟨0, 0⟩ ⟨0, 1⟩ :=
  ⟨"Run", { flags := 0x20, elements := [⟨.void, false, 0, ⟨0, 0⟩⟩] },
    ⟨⟨_, rfl, rfl⟩, by cases newSlot <;> rfl⟩, ⟨⟨_, rfl, rfl⟩, by cases newSlot <;> rfl⟩⟩

/-- An override takes the slot, and is what a call of the base method finds. -/
theorem dispatch_follows_slots_override :
    findVirtualMethodDef (twoClasses false) MethodDefIndex.method ⟨0, 1⟩ ⟨0, 0⟩ =
      some (some ⟨0, 1⟩) ∧
    findVirtualMethodDef (twoClasses false) MethodDefIndex.method ⟨0, 1⟩ ⟨0, 1⟩ =
      some (some ⟨0, 1⟩) := by
  have hslot : SlotHolds (twoClasses false) ⟨0, 0⟩ ⟨0, 1⟩ ⟨0, 1⟩ true :=
    SlotHolds.override rfl (SlotHolds.owner (twoClasses_base false)) (twoClasses_derived false)
      ⟨_, rfl, rfl⟩ (twoClasses_same false) (by rintro ⟨_, ⟨⟩, ⟨⟩⟩)
  have hprescribed : Prescribed (twoClasses false) ⟨0, 1⟩ ⟨0, 0⟩ ⟨0, 0⟩ ⟨0, 1⟩ :=
    Prescribed.ofClass (twoClasses_base false) (fun heq => by cases heq) ⟨_, rfl, rfl⟩ hslot
  have hconcrete : ¬ IsAbstract (twoClasses false) ⟨0, 1⟩ := by rintro ⟨_, ⟨⟩, ⟨⟩⟩
  refine (dispatch_follows_slots (twoClasses_linked false) (twoClasses_methodTables false)
    (twoClasses_hierarchy false) hprescribed hconcrete).1.mpr ⟨fun X m hX hides => ?_, ?_⟩
  · obtain ⟨⟨O, hO, hbelow⟩, hm, -, -, hnot⟩ := hides
    rcases twoClasses_ancestor hX with rfl | rfl
    · rw [twoClasses_declares hm] at hnot
      exact absurd hslot hnot
    · rw [(twoClasses_methodTables false).declares_unique hO (twoClasses_base false)] at hbelow
      exact absurd hbelow ((twoClasses_linked false).acyclic _)
  · intro I hI hface
    rw [(twoClasses_methodTables false).declares_unique hI (twoClasses_base false)] at hface
    cases hface

/-- A method in a new slot is found where the base method is prescribed. -/
theorem new_slot_is_found :
    (twoClasses true).Linked ∧ MethodTables (twoClasses true) MethodDefIndex.method ∧
    ClassHierarchy (twoClasses true) ⟨0, 1⟩ ∧
    Prescribed (twoClasses true) ⟨0, 1⟩ ⟨0, 0⟩ ⟨0, 0⟩ ⟨0, 0⟩ ∧
    ¬ IsAbstract (twoClasses true) ⟨0, 0⟩ ∧
    findVirtualMethodDef (twoClasses true) MethodDefIndex.method ⟨0, 1⟩ ⟨0, 0⟩ =
      some (some ⟨0, 1⟩) := by
  have hslot : SlotHolds (twoClasses true) ⟨0, 0⟩ ⟨0, 1⟩ ⟨0, 0⟩ false :=
    SlotHolds.hidden rfl (SlotHolds.owner (twoClasses_base true)) (twoClasses_derived true)
      ⟨_, rfl, rfl⟩ (twoClasses_same true) (Or.inl ⟨_, rfl, rfl⟩)
  refine ⟨twoClasses_linked true, twoClasses_methodTables true, twoClasses_hierarchy true,
    Prescribed.ofClass (twoClasses_base true) (fun heq => by cases heq) ⟨_, rfl, rfl⟩ hslot, ?_, rfl⟩
  rintro ⟨_, ⟨⟩, ⟨⟩⟩

end TinyClr.VirtualDispatch
