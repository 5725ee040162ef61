import TinyClr.Core.FieldLayoutSpec

/-!
# New objects

`NewObject` walks from the last slot of an object to the first, and from the last field of its
class to the first one of the root class.  What is left to initialise is `Cursor.remaining`, a
front part of `fieldsOf`, so that each slot meets the field that linking gave its offset.
-/

namespace TinyClr.FieldLayout

open TinyClr.Library TypeSystem

variable {sys : TypeSystem} {cr : CrossReferences} {cur cur' : Cursor}

/-! ### Default values -/

def fieldType (sys : TypeSystem) (f : FieldDefIndex) : Option Element := do
  let a ← sys.assemblies[f.assembly]?
  let fd ← a.fieldDef[f.field]?
  let (res, _) ← sys.advance f.assembly fd.sig
  res.toOption

mutual

inductive IsDefault (sys : TypeSystem) : Element → Block → Prop
  | array {e : Element} : e.levels > 0 → IsDefault sys e .null
  | enum {e : Element} {td : TypeDefRecord} : e.levels = 0 → e.dt = .valuetype →
      sys.typeDef e.cls = some td → td.semantics = .enum →
      IsDefault sys e (.data td.dataType)
  | value {e : Element} {td : TypeDefRecord} {block : Block} : e.levels = 0 →
      e.dt = .valuetype → sys.typeDef e.cls = some td → td.semantics ≠ .enum →
      IsNew sys e.cls block → IsDefault sys e block
  | reference {e : Element} : e.levels = 0 → e.dt ≠ .valuetype → reference e.dt = true →
      IsDefault sys e .null
  | plain {e : Element} : e.levels = 0 → reference e.dt = false → IsDefault sys e (.data e.dt)

/-- A new instance of a type: an object has a header and one slot for each field, with the default
    value of its type. -/
inductive IsNew (sys : TypeSystem) : TypeDefIndex → Block → Prop
  | plain {cls : TypeDefIndex} {td : TypeDefRecord} : sys.typeDef cls = some td →
      reference td.dataType = false → IsNew sys cls (.data td.dataType)
  | string {cls : TypeDefIndex} {td : TypeDefRecord} : sys.typeDef cls = some td →
      td.dataType = .string → IsNew sys cls .null
  | weakclass {cls : TypeDefIndex} {td : TypeDefRecord} : sys.typeDef cls = some td →
      td.dataType = .weakclass →
      IsNew sys cls (.weakReference (cls = sys.wellKnown.extendedWeakReference))
  | object {cls : TypeDefIndex} {td : TypeDefRecord} {slots : List Block} :
      sys.typeDef cls = some td → td.dataType = .classType ∨ td.dataType = .valuetype →
      slots.length = (fieldsOf sys cls).length + 1 → slots[0]? = some (.header cls) →
      (∀ f ∈ fieldsOf sys cls, ∃ e, fieldType sys f = some e) →
      (∀ k f e v, (fieldsOf sys cls)[k]? = some f → fieldType sys f = some e →
        slots[k + 1]? = some v → IsDefault sys e v) →
      IsNew sys cls (.object slots)

end

variable {heap heap' : Heap}
  {block : Block}

/-- `InitializeReference` stores the default value of the field's type. -/
theorem initializeReference_spec
    {newObject : Heap → TypeDefIndex → Option (HResultOr Block × Heap)}
    (hnew : ∀ heap cls block heap', newObject heap cls = some (.ok block, heap') →
      IsNew sys cls block)
    {f : FieldDefIndex} {a : Assembly} {fd : FieldDefRecord}
    (ha : sys.assemblies[f.assembly]? = some a) (hfd : a.fieldDef[f.field]? = some fd)
    {heap heap' : Heap} {block : Block}
    (h : initializeReference sys newObject fd f.assembly heap = some (.ok block, heap')) :
    ∃ e, fieldType sys f = some e ∧ IsDefault sys e block := by
  rw [initializeReference] at h
  rcases hadvance : sys.advance f.assembly fd.sig with _ | ⟨_ | e, sig⟩
  · rw [hadvance] at h
    cases h
  · rw [hadvance] at h
    cases h
  · rw [hadvance] at h
    simp only [Option.bind_eq_bind, Option.bind_some] at h
    refine ⟨e, ?_, ?_⟩
    · rw [fieldType, ha]
      simp only [Option.bind_eq_bind, Option.bind_some, hfd, hadvance]
      rfl
    · by_cases hlevels : e.levels > 0
      · rw [if_pos hlevels] at h
        cases h
        exact .array hlevels
      · rw [if_neg hlevels] at h
        have hzero := Nat.eq_zero_of_not_pos hlevels
        by_cases hvalue : e.dt = .valuetype
        · simp only [hvalue] at h
          cases htd : sys.typeDef e.cls with
          | none => simp [htd] at h
          | some td =>
            simp only [htd, Option.bind_some] at h
            by_cases henum : td.semantics = .enum
            · rw [if_pos henum] at h
              cases h
              exact .enum hzero hvalue htd henum
            · rw [if_neg henum] at h
              exact .value hzero hvalue htd henum (hnew _ _ _ _ h)
        · split at h
          · contradiction
          · cases href : reference e.dt with
            | true =>
              rw [if_pos href] at h
              cases h
              exact .reference hzero hvalue href
            | false =>
              rw [if_neg (by simp [href])] at h
              cases h
              exact .plain hzero href

/-! ### The walk over the fields -/

def Cursor.remaining (sys : TypeSystem) (cur : Cursor) : List FieldDefIndex :=
  inheritedFields sys cur.instSub ++ (ownFields sys cur.instSub).take cur.clsFields

/-- The cursor is in a class, and its target is behind the fields still to visit there. -/
structure Cursor.Good (sys : TypeSystem) (cur : Cursor) : Prop where
  valid : sys.Valid cur.instSub
  le : cur.clsFields ≤ (ownFields sys cur.instSub).length
  target : ∀ td, sys.typeDef cur.instSub = some td → ∀ f, cur.target = some f →
    f = ⟨cur.instSub.assembly, td.iFields_First + cur.clsFields⟩

theorem Cursor.good_start {idx : TypeDefIndex} {td : TypeDefRecord}
    (htd : sys.typeDef idx = some td) :
    Cursor.Good sys { instSub := idx, clsFields := td.iFields_Num.toNat, target := none } :=
  ⟨⟨td, htd⟩, Nat.le_of_eq (length_ownFields htd).symm, fun _ _ _ hf => by cases hf⟩

theorem Cursor.remaining_start (h : sys.Linked) {idx : TypeDefIndex} {td : TypeDefRecord}
    (htd : sys.typeDef idx = some td) :
    Cursor.remaining sys { instSub := idx, clsFields := td.iFields_Num.toNat, target := none } =
      fieldsOf sys idx := by
  rw [Cursor.remaining, fieldsOf_eq h ⟨td, htd⟩]
  simp only
  rw [← length_ownFields htd, List.take_length]

/-- While fields are left, the walk finds a class that has some of them. -/
theorem skipClasses_spec (h : sys.Linked) : ∀ (fuel : Nat) (cur : Cursor), cur.Good sys →
    cur.remaining sys ≠ [] →
    (Library.lineage sys.parent fuel cur.instSub).length < fuel →
    ∃ cur', skipClasses sys fuel cur = some (true, cur') ∧ cur'.Good sys ∧
      cur'.remaining sys = cur.remaining sys ∧ 0 < cur'.clsFields := by
  intro fuel
  induction fuel with
  | zero => exact fun cur _ _ hfuel => absurd hfuel (Nat.not_lt_zero _)
  | succ fuel ih =>
    intro cur hgood hleft hfuel
    rw [skipClasses]
    by_cases hfields : cur.clsFields = 0
    · rw [if_pos hfields, h.switchToParent_eq hgood.valid]
      simp only [Option.bind_eq_bind, Option.bind_some]
      have hremaining : cur.remaining sys = inheritedFields sys cur.instSub := by
        rw [Cursor.remaining, hfields, List.take_zero, List.append_nil]
      cases hp : sys.parent cur.instSub with
      | none =>
        rw [hremaining, inheritedFields, hp] at hleft
        exact absurd rfl hleft
      | some p =>
        obtain ⟨td, htd⟩ := h.valid_parent hgood.valid hp
        rw [Library.lineage_child hp] at hfuel
        have hinherited : inheritedFields sys cur.instSub = fieldsOf sys p := by
          rw [inheritedFields, hp]
        have hstart := Cursor.remaining_start h htd
        rw [hremaining, hinherited, ← hstart] at hleft
        obtain ⟨cur', hskip, hgood', hremaining', hpos⟩ := ih _ (Cursor.good_start htd) hleft
          (Nat.lt_of_succ_lt_succ hfuel)
        simp only [htd, Option.bind_some]
        exact ⟨cur', hskip, hgood', by rw [hremaining', hstart, hremaining, hinherited], hpos⟩
    · rw [if_neg hfields]
      exact ⟨cur, rfl, hgood, rfl, Nat.pos_of_ne_zero hfields⟩

theorem Cursor.Good.last (hgood : cur.Good sys) (hpos : 0 < cur.clsFields) {td : TypeDefRecord}
    (htd : sys.typeDef cur.instSub = some td) :
    (⟨cur.instSub.assembly, td.iFields_First + (cur.clsFields - 1)⟩ : FieldDefIndex) ∈
        ownFields sys cur.instSub ∧
      cur.remaining sys =
        Cursor.remaining sys { cur with
          clsFields := cur.clsFields - 1
          target := some ⟨cur.instSub.assembly, td.iFields_First + (cur.clsFields - 1)⟩ } ++
        [⟨cur.instSub.assembly, td.iFields_First + (cur.clsFields - 1)⟩] := by
  have hle := hgood.le
  rw [length_ownFields htd] at hle
  refine ⟨(mem_ownFields htd).mpr ⟨rfl, Nat.le_add_right _ _, by simp only; omega⟩, ?_⟩
  have hlt : cur.clsFields - 1 < (ownFields sys cur.instSub).length := by
    rw [length_ownFields htd]
    omega
  have htake := List.take_succ_eq_append_getElem hlt
  rw [Nat.sub_add_cancel hpos] at htake
  rw [Cursor.remaining, Cursor.remaining, htake, List.append_assoc]
  congr 3
  simp [ownFields_eq htd]

/-- The slots 1, …, `k` get the default values of the fields that are left, each once. -/
theorem initializeFields_spec (h : sys.Linked) (hfields : FieldTables sys)
    {newObject : Heap → TypeDefIndex → Option (HResultOr Block × Heap)}
    (hnew : ∀ heap cls block heap', newObject heap cls = some (.ok block, heap') →
      IsNew sys cls block) : ∀ (k : Nat) (cur : Cursor) (slots slots' : List Block)
    (done done' : List (Nat × FieldDefIndex)) (heap heap' : Heap), cur.Good sys →
    (cur.remaining sys).length = k → k < slots.length →
    initializeFields sys newObject k cur slots done heap = some (.ok (slots', done'), heap') →
    done' = (List.range' 1 k).zip (cur.remaining sys) ++ done ∧
      slots'.length = slots.length ∧ (∀ j, j = 0 ∨ k < j → slots'[j]? = slots[j]?) ∧
      ∀ j f, (cur.remaining sys)[j]? = some f →
        ∃ e v, fieldType sys f = some e ∧ slots'[j + 1]? = some v ∧ IsDefault sys e v := by
  intro k
  induction k with
  | zero =>
    intro cur slots slots' done done' heap heap' _ hlen _ hrun
    rw [initializeFields] at hrun
    simp only [Option.some.injEq, Prod.mk.injEq, Except.ok.injEq] at hrun
    obtain ⟨⟨rfl, rfl⟩, -⟩ := hrun
    rw [List.length_eq_zero_iff] at hlen
    rw [hlen]
    exact ⟨rfl, rfl, fun _ _ => rfl, fun j f hf => by cases hf⟩
  | succ k ih =>
    intro cur slots slots' done done' heap heap' hgood hlen hslots hrun
    obtain ⟨cur₁, hskip, hgood₁, hremaining, hpos⟩ := skipClasses_spec h sys.walkLimit cur hgood
      (fun hnil => by rw [hnil] at hlen; cases hlen) (h.length_lineage hgood.valid)
    obtain ⟨td, htd⟩ := hgood₁.valid
    obtain ⟨hown, hlast⟩ := hgood₁.last hpos htd
    obtain ⟨a, ha, hlt⟩ := hfields.inside _ _ (List.mem_append_left _ hown)
    have hsize := hfields.size a (List.mem_of_getElem? ha)
    have htarget : cur₁.target.getD
        ⟨cur₁.instSub.assembly, uint16 (td.iFields_First + cur₁.clsFields : Nat)⟩ =
        ⟨cur₁.instSub.assembly, td.iFields_First + cur₁.clsFields⟩ := by
      cases hcase : cur₁.target with
      | none =>
        simp only at hlt
        rw [Option.getD_none, uint16_eq_toNat (Int.natCast_nonneg _) (by omega), Int.toNat_natCast]
      | some f => exact hgood₁.target td htd f hcase
    have hfield : td.iFields_First + cur₁.clsFields - 1 = td.iFields_First + (cur₁.clsFields - 1) :=
      Nat.add_sub_assoc hpos _
    rw [initializeFields, hskip] at hrun
    simp only [Option.bind_eq_bind, Option.bind_some, if_true, htd, htarget, hfield] at hrun
    rw [ha] at hrun
    simp only [Option.bind_some] at hrun
    rw [List.getElem?_eq_getElem hlt] at hrun
    simp only [Option.bind_some] at hrun
    rcases hinit : initializeReference sys newObject _ cur₁.instSub.assembly heap with
      _ | ⟨_ | block, heap₁⟩
    · rw [hinit] at hrun
      cases hrun
    · rw [hinit] at hrun
      cases hrun
    · rw [hinit] at hrun
      simp only [Option.bind_some] at hrun
      obtain ⟨e, he, hdefault⟩ := initializeReference_spec hnew ha (List.getElem?_eq_getElem hlt)
        hinit
      have hgood₂ : Cursor.Good sys { cur₁ with
          clsFields := cur₁.clsFields - 1
          target := some ⟨cur₁.instSub.assembly, td.iFields_First + (cur₁.clsFields - 1)⟩ } := by
        refine ⟨hgood₁.valid, Nat.le_trans (Nat.sub_le _ _) hgood₁.le, fun td' htd' f hf => ?_⟩
        obtain rfl := Option.some.inj (htd.symm.trans htd')
        exact (Option.some.inj hf).symm
      rw [← hremaining, hlast, List.length_append, List.length_singleton] at hlen
      have hlen₂ := Nat.succ.inj hlen
      obtain ⟨hdone, hlength, hkeep, hslot⟩ := ih _ _ slots' _ done' heap₁ heap' hgood₂ hlen₂
        (by rw [List.length_set]; omega) hrun
      rw [← hremaining, hlast]
      refine ⟨?_, by rw [hlength, List.length_set], fun j hj => ?_, fun j f hf => ?_⟩
      · rw [hdone, List.range'_1_concat, List.zip_append (by rw [List.length_range', hlen₂]),
          List.append_assoc, Nat.add_comm 1 k]
        rfl
      · rw [hkeep j (by omega), List.getElem?_set_ne (by omega)]
      · rcases Nat.lt_or_ge j k with hj | hj
        · rw [List.getElem?_append_left (by omega)] at hf
          exact hslot j f hf
        · rw [List.getElem?_append_right (by omega), hlen₂, List.getElem?_singleton] at hf
          split_ifs at hf with hzero
          obtain rfl : j = k := by omega
          obtain rfl := Option.some.inj hf
          exact ⟨e, block, he, by rw [hkeep (j + 1) (by omega), List.getElem?_set_self hslots],
            hdefault⟩

/-! ### Objects -/

/-- No type has more instance fields, with those of its ancestors, than an offset can count. -/
def FieldsFit (sys : TypeSystem) : Prop :=
  ∀ idx, sys.Valid idx → (fieldsOf sys idx).length < 2 ^ 16

theorem newClassOrValueType_ok
    {newObject : Heap → TypeDefIndex → Option (HResultOr Block × Heap)} {heap heap' : Heap}
    {inst : TypeDefIndex} {td : TypeDefRecord} {block : Block}
    (h : newClassOrValueType sys cr newObject heap inst td = some (.ok block, heap')) :
    ∃ heap₁ heap₂ slots done, initializeFields sys newObject (cr.totalFields inst)
        { instSub := inst, clsFields := td.iFields_Num.toNat, target := none }
        (.header inst :: List.replicate (cr.totalFields inst) .clear) [] heap₁ =
          some (.ok (slots, done), heap₂) ∧ block = .object slots := by
  rw [newClassOrValueType] at h
  by_cases hsize : cr.totalFields inst + 1 > HB_MaxSize
  · rw [if_pos hsize] at h
    cases h
  rw [if_neg hsize] at h
  rcases hextract : heap.extract with ⟨_ | _, heap₁⟩ <;> rw [hextract] at h
  · cases h
  · simp only [Nat.add_sub_cancel, Option.bind_eq_bind] at h
    rcases hrun : initializeFields sys newObject (cr.totalFields inst)
        { instSub := inst, clsFields := td.iFields_Num.toNat, target := none }
        (.header inst :: List.replicate (cr.totalFields inst) .clear) [] heap₁ with
      _ | ⟨_ | ⟨slots, done⟩, heap₂⟩
    · rw [hrun] at h
      cases h
    · rw [hrun] at h
      cases h
    · rw [hrun] at h
      refine ⟨heap₁, heap₂, slots, done, hrun, ?_⟩
      simp only [Option.bind_some] at h
      split_ifs at h
      · rcases hextract : heap₂.extract with ⟨_ | _, heap₃⟩ <;> rw [hextract] at h
        · cases h
        · cases h
          rfl
      · cases h
        rfl

/-- A new object has its header and, at the offset of each field, the default value of the field's
    type. -/
theorem newClassOrValueType_spec (h : sys.Linked) (hfields : FieldTables sys)
    (hcr : Laid sys cr) {newObject : Heap → TypeDefIndex → Option (HResultOr Block × Heap)}
    (hnew : ∀ heap cls block heap', newObject heap cls = some (.ok block, heap') →
      IsNew sys cls block) {heap heap' : Heap} {inst : TypeDefIndex} {td : TypeDefRecord}
    {block : Block} (htd : sys.typeDef inst = some td)
    (hsmall : (fieldsOf sys inst).length < 2 ^ 16)
    (hrun : newClassOrValueType sys cr newObject heap inst td = some (.ok block, heap')) :
    ∃ heap₁ heap₂ slots, block = .object slots ∧
      initializeFields sys newObject (cr.totalFields inst)
        { instSub := inst, clsFields := td.iFields_Num.toNat, target := none }
        (.header inst :: List.replicate (cr.totalFields inst) .clear) [] heap₁ =
          some (.ok (slots, (List.range' 1 (cr.totalFields inst)).zip (fieldsOf sys inst)), heap₂) ∧
      slots.length = cr.totalFields inst + 1 ∧ slots[0]? = some (.header inst) ∧
      ∀ k f, (fieldsOf sys inst)[k]? = some f →
        ∃ e v, fieldType sys f = some e ∧ slots[k + 1]? = some v ∧ IsDefault sys e v := by
  obtain ⟨heap₁, heap₂, slots, done, hinit, rfl⟩ := newClassOrValueType_ok hrun
  have htotal := totalFields_eq hcr ⟨td, htd⟩ hsmall
  have hstart := Cursor.remaining_start h htd
  obtain ⟨hdone, hlength, hkeep, hslot⟩ := initializeFields_spec h hfields hnew _ _ _ slots _ done
    heap₁ heap₂ (Cursor.good_start htd) (by rw [hstart, htotal]) (by simp) hinit
  rw [hstart] at hdone hslot
  rw [List.append_nil] at hdone
  rw [hdone] at hinit
  refine ⟨heap₁, heap₂, slots, rfl, hinit, ?_, ?_, hslot⟩
  · rw [hlength, List.length_cons, List.length_replicate]
  · rw [hkeep 0 (Or.inl rfl)]
    rfl

theorem newObject_spec (h : sys.Linked) (hfields : FieldTables sys) (hcr : Laid sys cr)
    (hsmall : FieldsFit sys) : ∀ (depth : Nat) (heap : Heap) (inst : TypeDefIndex) (block : Block)
    (heap' : Heap), newObject sys cr depth heap inst = some (.ok block, heap') →
    IsNew sys inst block := by
  intro depth
  induction depth with
  | zero => exact fun heap inst block heap' hrun => by cases hrun
  | succ depth ih =>
    intro heap inst block heap' hrun
    rw [newObject] at hrun
    cases htd : sys.typeDef inst with
    | none => simp [htd] at hrun
    | some td =>
      simp only [htd, Option.bind_eq_bind, Option.bind_some] at hrun
      by_cases harray : inst = sys.wellKnown.array
      · rw [if_pos harray] at hrun
        cases hrun
      rw [if_neg harray] at hrun
      by_cases href : reference td.dataType = false
      · rw [if_pos href] at hrun
        cases hrun
        exact .plain htd href
      · rw [if_neg href] at hrun
        have hobject : td.dataType = .classType ∨ td.dataType = .valuetype →
            newClassOrValueType sys cr (newObject sys cr depth) heap inst td =
              some (.ok block, heap') → IsNew sys inst block := by
          intro hdt hrun
          obtain ⟨-, -, slots, rfl, -, hlength, hheader, hslot⟩ := newClassOrValueType_spec h hfields
            hcr ih htd (hsmall inst ⟨td, htd⟩) hrun
          refine .object htd hdt ?_ hheader (fun f hf => ?_) fun k f e v hf he hv => ?_
          · rw [hlength, totalFields_eq hcr ⟨td, htd⟩ (hsmall inst ⟨td, htd⟩)]
          · obtain ⟨k, hk⟩ := List.getElem?_of_mem hf
            obtain ⟨e, -, he, -⟩ := hslot k f hk
            exact ⟨e, he⟩
          · obtain ⟨e', v', he', hv', hdefault⟩ := hslot k f hf
            obtain rfl := Option.some.inj (he.symm.trans he')
            obtain rfl := Option.some.inj (hv.symm.trans hv')
            exact hdefault
        cases hdt : td.dataType <;> simp only [hdt] at hrun href hobject
        case string => cases hrun; exact .string htd hdt
        case weakclass =>
          rcases hextract : heap.extract with ⟨_ | _, heap₁⟩ <;> rw [hextract] at hrun
          · cases hrun
          · cases hrun
            exact .weakclass htd hdt
        case classType => exact hobject (Or.inl trivial) hrun
        case valuetype => exact hobject (Or.inr trivial) hrun
        all_goals cases hrun

/-! ### Linking and creation agree -/

/-- In whatever order the assemblies are linked: the fields of a type have the offsets from 1 to
    its total, in one order for all types derived from it; the static fields of an assembly are
    numbered from 0; and a new object has exactly these slots behind its header, the one at the
    offset of a field initialised once and with the default value of that field's type. -/
theorem link_and_create_agree (h : sys.Linked) (hfields : FieldTables sys) (hsmall : FieldsFit sys)
    {order : List Nat} (horder : ∀ assm, assm ∈ order ↔ assm < sys.assemblies.length)
    (start : CrossReferences) :
    ∃ cr, resolveLinkAll sys order start = some cr ∧
      (∀ idx, sys.Valid idx →
        (fieldsOf sys idx).map cr.offset = List.range' 1 (cr.totalFields idx)) ∧
      (∀ assm, (staticFieldsOf sys assm).map cr.offset = List.range (iStaticFields sys assm)) ∧
      ∀ depth heap inst block heap' td, sys.typeDef inst = some td →
        td.dataType = .classType ∨ td.dataType = .valuetype →
        newObject sys cr (depth + 1) heap inst = some (.ok block, heap') →
        ∃ heap₁ heap₂ slots, block = .object slots ∧
          initializeFields sys (newObject sys cr depth) (cr.totalFields inst)
            { instSub := inst, clsFields := td.iFields_Num.toNat, target := none }
            (.header inst :: List.replicate (cr.totalFields inst) .clear) [] heap₁ =
              some (.ok (slots, (List.range' 1 (cr.totalFields inst)).zip (fieldsOf sys inst)),
                heap₂) ∧
          slots.length = cr.totalFields inst + 1 ∧ slots[0]? = some (.header inst) ∧
          ∀ f ∈ fieldsOf sys inst, ∃ e v, fieldType sys f = some e ∧
            slots[cr.offset f]? = some v ∧ IsDefault sys e v := by
  obtain ⟨cr, hlink, hcr⟩ := laid_of_resolveLinkAll h hfields horder start
  have hoffsets : ∀ idx, sys.Valid idx →
      (fieldsOf sys idx).map cr.offset = List.range' 1 (cr.totalFields idx) := fun idx hidx => by
    rw [map_offset_fieldsOf h hcr idx hidx (hsmall idx hidx),
      totalFields_eq hcr hidx (hsmall idx hidx)]
  refine ⟨cr, hlink, hoffsets, fun assm => ?_, ?_⟩
  · rw [staticFieldsOf_eq, map_offset_staticsBefore hfields hcr _ (Nat.le_refl _),
      ← staticFieldsOf_eq, length_staticFieldsOf, List.range_eq_range']
  · intro depth heap inst block heap' td htd hdt hrun
    have hbody : newClassOrValueType sys cr (newObject sys cr depth) heap inst td =
        some (.ok block, heap') := by
      rw [newObject, htd] at hrun
      simp only [Option.bind_eq_bind, Option.bind_some] at hrun
      by_cases harray : inst = sys.wellKnown.array
      · rw [if_pos harray] at hrun
        cases hrun
      rw [if_neg harray] at hrun
      rcases hdt with hdt | hdt <;> rw [hdt] at hrun <;> exact hrun
    obtain ⟨heap₁, heap₂, slots, hblock, hinit, hlength, hheader, hslot⟩ :=
      newClassOrValueType_spec h hfields hcr
        (newObject_spec h hfields hcr hsmall depth) htd (hsmall inst ⟨td, htd⟩) hbody
    refine ⟨heap₁, heap₂, slots, hblock, hinit, hlength, hheader, fun f hf => ?_⟩
    obtain ⟨k, hk⟩ := List.getElem?_of_mem hf
    obtain ⟨e, v, he, hv, hdefault⟩ := hslot k f hk
    have hoffset : cr.offset f = k + 1 := by
      have hget := congrArg (·[k]?) (hoffsets inst ⟨td, htd⟩)
      simp only [List.getElem?_map, hk, Option.map_some] at hget
      obtain ⟨hlt, hvalue⟩ := List.getElem?_eq_some_iff.mp hget.symm
      rw [← hvalue, List.getElem_range']
      omega
    exact ⟨e, v, he, by rw [hoffset]; exact hv, hdefault⟩

/-- A class of 255 fields, the `n`-th of its assembly -/
def wideClass (extendsIdx : Option Token) (n : Nat) : TypeDefRecord where
  name := "C"
  nameSpace := ""
  extendsIdx := extendsIdx
  enclosingType := none
  interfaces := []
  methods_First := 0
  vMethods_Num := 0
  iMethods_Num := 0
  sMethods_Num := 0
  dataType := .classType
  sFields_First := 0
  iFields_First := 255 * n
  sFields_Num := 0
  iFields_Num := 255
  semantics := .classType
  hasFinalizer := false

/-- `m` such classes in one assembly and `n` in another, each derived from the one before -/
def wideSystem (m n : Nat) : TypeSystem where
  assemblies :=
    [{ typeDef := (List.range m).map fun t =>
         wideClass (if t = 0 then none else some (.typeDef (t - 1))) t
       fieldDef := List.replicate (255 * m) { sig := [.builtIn .i4] }
       methodDef := []
       typeRef := []
       typeSpec := [] },
     { typeDef := (List.range n).map fun t =>
         wideClass (some (if t = 0 then .typeRef 0 else .typeDef (t - 1))) t
       fieldDef := List.replicate (255 * n) { sig := [.builtIn .i4] }
       methodDef := []
       typeRef := [⟨0, m - 1⟩]
       typeSpec := [] }]
  wellKnown :=
    { array := ⟨2, 0⟩
      object := ⟨2, 0⟩
      iList := ⟨2, 0⟩
      iCloneable := ⟨2, 0⟩
      void := ⟨2, 0⟩
      delegate := ⟨2, 0⟩
      multicastDelegate := ⟨2, 0⟩
      weakReference := ⟨2, 0⟩
      extendedWeakReference := ⟨2, 0⟩
      assembly := ⟨2, 0⟩
      type := ⟨2, 0⟩
      constructorInfo := ⟨2, 0⟩
      methodInfo := ⟨2, 0⟩
      fieldInfo := ⟨2, 0⟩
      builtIn := fun _ => some ⟨2, 0⟩ }

section WideSystem

variable {m n assm t : Nat} {td : TypeDefRecord}

theorem getElem?_map_range {α : Type*} {f : Nat → α} {x : α} :
    ((List.range n).map f)[t]? = some x ↔ t < n ∧ f t = x := by
  rw [List.getElem?_eq_some_iff]
  simp

theorem wideSystem_typeDef : (wideSystem m n).typeDef ⟨assm, t⟩ = some td ↔
    (assm = 0 ∧ t < m ∧ wideClass (if t = 0 then none else some (.typeDef (t - 1))) t = td) ∨
      (assm = 1 ∧ t < n ∧
        wideClass (some (if t = 0 then .typeRef 0 else .typeDef (t - 1))) t = td) := by
  match assm with
  | 0 =>
    have htable : (wideSystem m n).typeDef ⟨0, t⟩ = ((List.range m).map fun t =>
        wideClass (if t = 0 then none else some (.typeDef (t - 1))) t)[t]? := rfl
    rw [htable, getElem?_map_range]
    simp
  | 1 =>
    have htable : (wideSystem m n).typeDef ⟨1, t⟩ = ((List.range n).map fun t =>
        wideClass (some (if t = 0 then .typeRef 0 else .typeDef (t - 1))) t)[t]? := rfl
    rw [htable, getElem?_map_range]
    simp
  | assm + 2 =>
    have htable : (wideSystem m n).typeDef ⟨assm + 2, t⟩ = none := rfl
    rw [htable]
    simp

theorem wideSystem_valid :
    (wideSystem m n).Valid ⟨assm, t⟩ ↔ (assm = 0 ∧ t < m) ∨ (assm = 1 ∧ t < n) := by
  simp only [Valid, wideSystem_typeDef, exists_or, exists_and_left, exists_eq', and_true]

theorem wideSystem_switchToParent (h : (wideSystem m n).Valid ⟨assm, t⟩) :
    (wideSystem m n).switchToParent ⟨assm, t⟩ =
      some (if t = 0 then if assm = 0 then none else some ⟨0, m - 1⟩ else some ⟨assm, t - 1⟩) := by
  rcases wideSystem_valid.mp h with ⟨rfl, ht⟩ | ⟨rfl, ht⟩
  · rw [switchToParent, wideSystem_typeDef.mpr (Or.inl ⟨rfl, ht, rfl⟩)]
    by_cases hzero : t = 0
    · simp [hzero, wideClass]
    · simp [hzero, wideClass, resolveToken]
  · rw [switchToParent, wideSystem_typeDef.mpr (Or.inr ⟨rfl, ht, rfl⟩)]
    by_cases hzero : t = 0
    · subst hzero
      rfl
    · simp [hzero, wideClass, resolveToken]

theorem wideSystem_linked (hm : 0 < m) : (wideSystem m n).Linked := by
  refine linked_of_rank (fun idx => idx.assembly * m + idx.type) fun ⟨assm, t⟩ h => ?_
  refine ⟨_, wideSystem_switchToParent h, fun q hq => ?_⟩
  by_cases hzero : t = 0
  · rcases wideSystem_valid.mp h with ⟨rfl, ht⟩ | ⟨rfl, ht⟩
    · rw [if_pos hzero, if_pos rfl] at hq
      cases hq
    · rw [if_pos hzero, if_neg (by decide)] at hq
      obtain rfl := Option.some.inj hq
      exact ⟨wideSystem_valid.mpr (Or.inl ⟨rfl, by omega⟩), by simp only; omega⟩
  · rw [if_neg hzero] at hq
    obtain rfl := Option.some.inj hq
    refine ⟨wideSystem_valid.mpr ?_, by simp only; omega⟩
    have hvalid := wideSystem_valid.mp h
    omega

theorem wideSystem_ownFields {f : FieldDefIndex} :
    f ∈ ownFields (wideSystem m n) ⟨assm, t⟩ ↔
      ((assm = 0 ∧ t < m) ∨ (assm = 1 ∧ t < n)) ∧ f.assembly = assm ∧ f.field / 255 = t := by
  by_cases h : (wideSystem m n).Valid ⟨assm, t⟩
  · obtain ⟨td, htd⟩ := h
    rw [mem_ownFields htd]
    rcases wideSystem_typeDef.mp htd with ⟨rfl, ht, rfl⟩ | ⟨rfl, ht, rfl⟩ <;>
      simp only [wideClass, show (255 : UInt8).toNat = 255 from rfl, ht, true_and, and_self,
        true_or, or_true] <;> omega
  · have hnone : (wideSystem m n).typeDef ⟨assm, t⟩ = none := by
      rw [Valid] at h
      exact Option.eq_none_iff_forall_ne_some.mpr fun td htd => h ⟨td, htd⟩
    rw [wideSystem_valid] at h
    simp [ownFields, hnone, h]

theorem wideSystem_fieldTables (hm : 255 * m ≤ 0xFFFF) (hn : 255 * n ≤ 0xFFFF) :
    FieldTables (wideSystem m n) := by
  have hstatic : ∀ idx, staticFields (wideSystem m n) idx = [] := by
    rintro ⟨assm, t⟩
    cases htd : (wideSystem m n).typeDef ⟨assm, t⟩ with
    | none => rw [staticFields, htd]
    | some td =>
      rw [staticFields_eq htd]
      rcases wideSystem_typeDef.mp htd with ⟨-, -, rfl⟩ | ⟨-, -, rfl⟩ <;> rfl
  refine ⟨fun a ha => ?_, fun idx f hf => ?_,
    fun f => (⟨f.assembly, f.field / 255⟩, false), fun idx f hf => ?_, fun idx f hf => ?_⟩
  · rcases List.mem_pair.mp ha with rfl | rfl
    · rw [List.length_replicate]
      exact hm
    · rw [List.length_replicate]
      exact hn
  · obtain ⟨assm, t⟩ := idx
    rw [hstatic, List.append_nil] at hf
    obtain ⟨h, hassm, hfield⟩ := wideSystem_ownFields.mp hf
    rw [hassm]
    rcases h with ⟨rfl, ht⟩ | ⟨rfl, ht⟩
    · exact ⟨_, rfl, by rw [List.length_replicate]; omega⟩
    · exact ⟨_, rfl, by rw [List.length_replicate]; omega⟩
  · obtain ⟨assm, t⟩ := idx
    obtain ⟨-, rfl, rfl⟩ := wideSystem_ownFields.mp hf
    rfl
  · rw [hstatic] at hf
    cases hf

theorem wideSystem_root (hidx : (wideSystem m n).Valid ⟨assm, t⟩)
    (hp : (wideSystem m n).parent ⟨assm, t⟩ = none) : assm = 0 ∧ t = 0 := by
  rw [parent, wideSystem_switchToParent hidx, Option.join_some] at hp
  by_cases hzero : t = 0
  · by_cases hassm : assm = 0
    · exact ⟨hassm, hzero⟩
    · rw [if_pos hzero, if_neg hassm] at hp
      cases hp
  · rw [if_neg hzero] at hp
    cases hp

theorem wideSystem_length_fieldsOf (hm : 0 < m) :
    ∀ idx, (wideSystem m n).Valid idx →
      (fieldsOf (wideSystem m n) idx).length = 255 * (idx.assembly * m + idx.type + 1) := by
  have hown : ∀ idx, (wideSystem m n).Valid idx →
      (ownFields (wideSystem m n) idx).length = 255 := by
    rintro ⟨assm, t⟩ ⟨td, htd⟩
    rw [length_ownFields htd]
    rcases wideSystem_typeDef.mp htd with ⟨-, -, rfl⟩ | ⟨-, -, rfl⟩ <;> rfl
  have h : (wideSystem m n).Linked := wideSystem_linked hm
  refine h.induction (fun ⟨assm, t⟩ hidx hp => ?_) (fun ⟨assm, t⟩ p hidx hp ih => ?_)
  · rw [fieldsOf_root hp, hown _ hidx]
    obtain ⟨rfl, rfl⟩ := wideSystem_root hidx hp
    simp
  · rw [fieldsOf_child h hidx hp, List.length_append, hown _ hidx, ih]
    rw [parent, wideSystem_switchToParent hidx, Option.join_some] at hp
    rcases wideSystem_valid.mp hidx with ⟨rfl, ht⟩ | ⟨rfl, ht⟩ <;> split_ifs at hp with hzero <;>
      obtain rfl := Option.some.inj hp <;> simp only <;> omega

theorem wideSystem_mem_fieldsOf (hm : 0 < m) :
    ∀ idx, (wideSystem m n).Valid idx → ⟨0, 0⟩ ∈ fieldsOf (wideSystem m n) idx := by
  have h : (wideSystem m n).Linked := wideSystem_linked hm
  refine h.induction (fun ⟨assm, t⟩ hidx hp => ?_) (fun ⟨assm, t⟩ p hidx hp ih => ?_)
  · obtain ⟨rfl, rfl⟩ := wideSystem_root hidx hp
    rw [fieldsOf_root hp]
    exact wideSystem_ownFields.mpr ⟨Or.inl ⟨rfl, hm⟩, rfl, rfl⟩
  · rw [fieldsOf_child h hidx hp]
    exact List.mem_append_left _ ih

end WideSystem

def unlinked : CrossReferences where
  totalFields := fun _ => 0
  hasFinalizer := fun _ => false
  offset := fun _ => 0
  owner := fun _ => 0

/-- A class with an integer and a string, and one derived from it with a byte and a static field -/
def derivedClasses : TypeSystem where
  assemblies :=
    [{ typeDef := [{ wideClass none 0 with iFields_Num := 2 }]
       fieldDef := [{ sig := [.builtIn .i4] }, { sig := [.builtIn .string] }]
       methodDef := []
       typeRef := []
       typeSpec := [] },
     { typeDef := [{ wideClass (some (.typeRef 0)) 0 with
         iFields_Num := 1, sFields_First := 1, sFields_Num := 1 }]
       fieldDef := [{ sig := [.builtIn .u1] }, { sig := [.builtIn .i4] }]
       methodDef := []
       typeRef := [⟨0, 0⟩]
       typeSpec := [] }]
  wellKnown := (wideSystem 1 1).wellKnown

theorem derivedClasses_fieldTables : FieldTables derivedClasses := by
  have htypes : ∀ idx, ∀ f ∈ ownFields derivedClasses idx ++ staticFields derivedClasses idx,
      idx ∈ derivedClasses.types := by
    intro idx f hf
    cases htd : derivedClasses.typeDef idx with
    | none => simp [ownFields, staticFields, htd] at hf
    | some td => exact mem_types ⟨td, htd⟩
  have hfields : ∀ idx ∈ derivedClasses.types,
      (∀ f ∈ ownFields derivedClasses idx,
        f ∈ [⟨0, 0⟩, ⟨0, 1⟩, ⟨1, 0⟩] ∧ idx = ⟨f.assembly, 0⟩) ∧
      ∀ f ∈ staticFields derivedClasses idx, f = ⟨1, 1⟩ ∧ idx = ⟨1, 0⟩ := by decide
  refine ⟨by simp [derivedClasses], fun idx f hf => ?_,
    fun f => (⟨f.assembly, 0⟩, decide (f = ⟨1, 1⟩)), fun idx f hf => ?_, fun idx f hf => ?_⟩
  · obtain ⟨hown, hstatic⟩ := hfields idx (htypes idx f hf)
    have hmem : f ∈ [⟨0, 0⟩, ⟨0, 1⟩, ⟨1, 0⟩] ∨ f = ⟨1, 1⟩ :=
      (List.mem_append.mp hf).imp (fun hf => (hown f hf).1) fun hf => (hstatic f hf).1
    simp only [List.mem_cons, List.not_mem_nil, or_false] at hmem
    rcases hmem with (rfl | rfl | rfl) | rfl <;> exact ⟨_, rfl, by decide⟩
  · obtain ⟨hmem, rfl⟩ := (hfields idx (htypes idx f (List.mem_append_left _ hf))).1 f hf
    simp only [List.mem_cons, List.not_mem_nil, or_false] at hmem
    rcases hmem with rfl | rfl | rfl <;> rfl
  · obtain ⟨rfl, rfl⟩ := (hfields idx (htypes idx f (List.mem_append_right _ hf))).2 f hf
    rfl

/-- An object has a header and the default values of the three fields in their order. -/
theorem link_and_create_agree_derived :
    ∃ cr slots, resolveLinkAll derivedClasses [0, 1] unlinked = some cr ∧
      newObject derivedClasses cr 1 [true] ⟨1, 0⟩ = some (.ok (.object slots), []) ∧
      slots = [.header ⟨1, 0⟩, .data .i4, .null, .data .u1] ∧
      (fieldsOf derivedClasses ⟨1, 0⟩).map cr.offset = [1, 2, 3] ∧
      ∀ f ∈ fieldsOf derivedClasses ⟨1, 0⟩, ∃ e v, fieldType derivedClasses f = some e ∧
        slots[cr.offset f]? = some v ∧ IsDefault derivedClasses e v := by
  have hsmall : FieldsFit derivedClasses := fun idx hidx =>
    (show ∀ idx ∈ derivedClasses.types, (fieldsOf derivedClasses idx).length < 2 ^ 16 by decide) idx
      (mem_types hidx)
  obtain ⟨cr, hlink, hoffsets, -, hobjects⟩ := link_and_create_agree
    (linked_of_check (by decide)) derivedClasses_fieldTables hsmall
    (show ∀ assm, assm ∈ [0, 1] ↔ assm < 2 by simp; omega) unlinked
  have hcreate : (resolveLinkAll derivedClasses [0, 1] unlinked).bind (fun cr =>
      (newObject derivedClasses cr 1 [true] ⟨1, 0⟩).map fun r => (cr.totalFields ⟨1, 0⟩, r)) =
        some (3, .ok (.object [.header ⟨1, 0⟩, .data .i4, .null, .data .u1]), []) := rfl
  rw [hlink, Option.bind_some] at hcreate
  obtain ⟨r, hnew, hr⟩ := Option.map_eq_some_iff.mp hcreate
  obtain ⟨htotal, rfl⟩ := Prod.mk.inj hr
  obtain ⟨-, -, slots, hslots, -, -, -, hdefaults⟩ :=
    hobjects 0 [true] ⟨1, 0⟩ _ _ _ rfl (Or.inl rfl) hnew
  obtain rfl := Block.object.inj hslots
  refine ⟨cr, _, hlink, hnew, rfl, ?_, hdefaults⟩
  rw [hoffsets ⟨1, 0⟩ ⟨_, rfl⟩, htotal]
  rfl

/-- In a hierarchy of 258 classes with 255 fields each the total wraps, and two fields of the last
    class have one offset. -/
theorem offsets_collide :
    ∃ cr, resolveLinkAll (wideSystem 200 58) [0, 1] unlinked = some cr ∧
      ∃ f ∈ fieldsOf (wideSystem 200 58) ⟨1, 57⟩, ∃ g ∈ fieldsOf (wideSystem 200 58) ⟨1, 57⟩,
        f ≠ g ∧ cr.offset f = cr.offset g := by
  have hlinked : (wideSystem 200 58).Linked := wideSystem_linked (by decide)
  have hroot : (wideSystem 200 58).Valid ⟨0, 0⟩ := wideSystem_valid.mpr (Or.inl ⟨rfl, by decide⟩)
  have hlast : (wideSystem 200 58).Valid ⟨1, 57⟩ := wideSystem_valid.mpr (Or.inr ⟨rfl, by decide⟩)
  obtain ⟨cr, hlink, hcr⟩ := laid_of_resolveLinkAll hlinked
    (wideSystem_fieldTables (by decide) (by decide))
    (show ∀ assm, assm ∈ [0, 1] ↔ assm < 2 by simp; omega) unlinked
  have hg : ⟨1, 14536⟩ ∈ ownFields (wideSystem 200 58) ⟨1, 57⟩ :=
    wideSystem_ownFields.mpr ⟨Or.inr ⟨rfl, by decide⟩, rfl, rfl⟩
  refine ⟨cr, hlink, ⟨0, 0⟩, wideSystem_mem_fieldsOf (by decide) _ hlast, ⟨1, 14536⟩, ?_,
    by decide, ?_⟩
  · rw [fieldsOf_eq hlinked hlast]
    exact List.mem_append_right _ hg
  · rw [(hcr 0).own_offset 0 (valid_iff.mp hroot) _
        (wideSystem_typeDef.mpr (Or.inl ⟨rfl, by decide, rfl⟩)) ⟨0, 0⟩
        (wideSystem_ownFields.mpr ⟨Or.inl ⟨rfl, by decide⟩, rfl, rfl⟩),
      (hcr 1).own_offset 57 (valid_iff.mp hlast) _
        (wideSystem_typeDef.mpr (Or.inr ⟨rfl, by decide, rfl⟩)) ⟨1, 14536⟩ hg,
      wideSystem_length_fieldsOf (by decide) _ hroot,
      wideSystem_length_fieldsOf (by decide) _ hlast]
    rfl

end TinyClr.FieldLayout
