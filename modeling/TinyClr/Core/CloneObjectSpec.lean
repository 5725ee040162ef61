import TinyClr.Core.CloneObject

/-!
# A copy of a value type is equal to it

`NewObject` puts a value type and all that it embeds behind what is in use, `newObject_spec`.
`CopyValueType` then writes there only, and leaves a copy, `copyValueType_spec`, that `ObjectsEqual`
does not tell from the original, `objectsEqual_of_mirror`.
-/

namespace TinyClr.Equality

open TinyClr.Library Heap

variable {types : Nat → TypeInfo} {mem : Memory} {block block' : Nat → HeapBlock}

/-! ### Heap blocks -/

variable {ptr : Nat}

theorem dereference_setObjectReference {hb : HeapBlock} (h : ptr < 2 ^ 32) :
    (hb.setObjectReference ptr).dereference = ptr := by
  have hdata := hb.data.toNat_lt
  rw [HeapBlock.dereference, HeapBlock.word, HeapBlock.setObjectReference]
  simp only [Nat.toUInt64_eq, UInt64.toNat_ofNat']
  omega

theorem Store.set_block_self (s : Store) (ptr : Nat) (hb : HeapBlock) :
    (s.set ptr hb).block ptr = hb := Function.update_self _ _ _

theorem Store.set_block_of_ne (s : Store) {x : Nat} (hb : HeapBlock) (h : x ≠ ptr) :
    (s.set ptr hb).block x = s.block x := Function.update_of_ne h _ _

@[simp] theorem Store.set_next (s : Store) (ptr : Nat) (hb : HeapBlock) :
    (s.set ptr hb).next = s.next := rfl

@[simp] theorem Store.set_limit (s : Store) (ptr : Nat) (hb : HeapBlock) :
    (s.set ptr hb).limit = s.limit := rfl

/-! ### New objects, originals and copies -/

structure IsHeader (types : Nat → TypeInfo) (hb : HeapBlock) (cls : Nat) : Prop where
  dataType : hb.dataType = .valuetype
  objectCls : hb.objectCls = cls
  dataSize : hb.id.dataSize = (types cls).fields.length + 1
  fits : (types cls).fields.length + 1 ≤ HB_MaxSize

def IsEmpty (hb : HeapBlock) : Prop := hb.dataType = .object → hb.dereference = 0

/-- A new object at `obj`, with everything it embeds in front of `hi`: what field `k` embeds lies
    between `cut (k + 1)` and `cut k`. -/
def Fresh (types : Nat → TypeInfo) (block : Nat → HeapBlock) : Nat → Nat → Nat → Nat → Prop
  | 0, _, _, _ => False
  | depth + 1, cls, obj, hi =>
      IsHeader types (block obj) cls ∧ (block obj).boxed = false ∧ ∃ cut : Nat → Nat,
        cut (types cls).fields.length = obj + (types cls).fields.length + 1 ∧
        (∀ k < (types cls).fields.length, cut (k + 1) ≤ cut k) ∧ cut 0 = hi ∧
        ∀ (k : Nat) (field : FieldType), (types cls).fields[k]? = some field →
          match field with
          | .plain _ => IsEmpty (block (obj + k + 1))
          | .embedded cls' => (block (obj + k + 1)).dataType = .object ∧
              (block (obj + k + 1)).dereference = cut (k + 1) ∧
              Fresh types block depth cls' (cut (k + 1)) (cut k)

/-- A field of a data type that can be copied: it refers to no value type that is not boxed. -/
structure IsPlain (block : Nat → HeapBlock) (fixed : Nat → Prop) (ptr : Nat) : Prop where
  dataType : (block ptr).dataType = .object ∨ reference (block ptr).dataType = false
  target : (block ptr).dataType = .object → (block ptr).dereference ≠ 0 →
    fixed (block ptr).dereference
  not_value : isAValueType block ptr = false

/-- A value type as its type says, in memory that stays as it is -/
inductive Typed (types : Nat → TypeInfo) (block : Nat → HeapBlock) (fixed : Nat → Prop) :
    Nat → Nat → Prop
  | mk {cls a : Nat} : IsHeader types (block a) cls → a ≠ 0 →
      (∀ k ≤ (types cls).fields.length, fixed (a + k)) →
      (∀ k dt, (types cls).fields[k]? = some (.plain dt) → IsPlain block fixed (a + k + 1)) →
      (∀ k cls', (types cls).fields[k]? = some (.embedded cls') →
        (block (a + k + 1)).dataType = .object ∧
        (block (block (a + k + 1)).dereference).boxed = false) →
      (∀ k cls', (types cls).fields[k]? = some (.embedded cls') →
        Typed types block fixed cls' (block (a + k + 1)).dereference) →
      Typed types block fixed cls a

def Mirror (types : Nat → TypeInfo) (block : Nat → HeapBlock) : Nat → Nat → Nat → Nat → Nat → Prop
  | 0, _, _, _, _ => False
  | depth + 1, cls, obj, hi, a =>
      IsHeader types (block obj) cls ∧ IsHeader types (block a) cls ∧ ∃ cut : Nat → Nat,
        cut (types cls).fields.length = obj + (types cls).fields.length + 1 ∧
        (∀ k < (types cls).fields.length, cut (k + 1) ≤ cut k) ∧ cut 0 = hi ∧
        ∀ (k : Nat) (field : FieldType), (types cls).fields[k]? = some field →
          match field with
          | .plain _ => block (obj + k + 1) = block (a + k + 1) ∧
              ((block (a + k + 1)).dataType = .object ∨
                reference (block (a + k + 1)).dataType = false)
          | .embedded cls' => (block (obj + k + 1)).dataType = .object ∧
              (block (a + k + 1)).dataType = .object ∧
              (block (obj + k + 1)).dereference = cut (k + 1) ∧ cut (k + 1) ≠ 0 ∧
              (block (a + k + 1)).dereference ≠ 0 ∧
              Mirror types block depth cls' (cut (k + 1)) (cut k) (block (a + k + 1)).dereference

variable {cut : Nat → Nat}

theorem cut_le {n : Nat} (hcut : ∀ k < n, cut (k + 1) ≤ cut k) :
    ∀ {j k : Nat}, j ≤ k → k ≤ n → cut k ≤ cut j := by
  intro j k hjk hkn
  induction k with
  | zero =>
    obtain rfl := Nat.eq_zero_of_le_zero hjk
    exact Nat.le_refl _
  | succ k ih =>
    rcases Nat.eq_or_lt_of_le hjk with rfl | hlt
    · exact Nat.le_refl _
    · exact Nat.le_trans (hcut k (by omega)) (ih (by omega) (by omega))

theorem Fresh.congr : ∀ {depth cls obj hi : Nat}, Fresh types block depth cls obj hi →
    (∀ x, obj ≤ x → x < hi → block' x = block x) → Fresh types block' depth cls obj hi := by
  intro depth
  induction depth with
  | zero => exact fun h _ => h.elim
  | succ depth ih =>
    rintro cls obj hi ⟨hheader, hboxed, cut, hlast, hcut, hfirst, hfields⟩ hsame
    have hbound : ∀ k ≤ (types cls).fields.length, obj + (types cls).fields.length + 1 ≤ cut k ∧
        cut k ≤ hi := fun k hk => ⟨hlast ▸ cut_le hcut hk (Nat.le_refl _),
      hfirst ▸ cut_le hcut (Nat.zero_le k) hk⟩
    have hobj : block' obj = block obj :=
      hsame obj (Nat.le_refl _) (by have := hbound 0 (Nat.zero_le _); omega)
    refine ⟨hobj ▸ hheader, hobj ▸ hboxed, cut, hlast, hcut, hfirst, fun k field hk => ?_⟩
    obtain ⟨hlt, -⟩ := List.getElem?_eq_some_iff.mp hk
    have hslot : block' (obj + k + 1) = block (obj + k + 1) :=
      hsame _ (by omega) (by have := hbound 0 (Nat.zero_le _); omega)
    have hfield := hfields k field hk
    cases field with
    | plain dt => exact hslot ▸ hfield
    | embedded cls' =>
      simp only [hslot]
      refine ⟨hfield.1, hfield.2.1, ih hfield.2.2 fun x hlow hhigh => hsame x ?_ ?_⟩
      · have := hbound (k + 1) hlt
        omega
      · have := hbound k (Nat.le_of_lt hlt)
        omega

variable {fixed : Nat → Prop}

theorem Mirror.congr : ∀ {depth cls obj hi a : Nat},
    Mirror types block depth cls obj hi a → Typed types block fixed cls a →
    (∀ x, obj ≤ x → x < hi → block' x = block x) → (∀ x, fixed x → block' x = block x) →
    Mirror types block' depth cls obj hi a := by
  intro depth
  induction depth with
  | zero => exact fun h _ _ _ => h.elim
  | succ depth ih =>
    rintro cls obj hi a ⟨hheader, hheader', cut, hlast, hcut, hfirst, hfields⟩ htyped hsame hfixed
    obtain ⟨-, -, hplace, -, -, hembedded⟩ := htyped
    have hbound : ∀ k ≤ (types cls).fields.length, obj + (types cls).fields.length + 1 ≤ cut k ∧
        cut k ≤ hi := fun k hk => ⟨hlast ▸ cut_le hcut hk (Nat.le_refl _),
      hfirst ▸ cut_le hcut (Nat.zero_le k) hk⟩
    have hobj : block' obj = block obj :=
      hsame obj (Nat.le_refl _) (by have := hbound 0 (Nat.zero_le _); omega)
    have ha : block' a = block a := hfixed a (hplace 0 (Nat.zero_le _))
    refine ⟨hobj ▸ hheader, ha ▸ hheader', cut, hlast, hcut, hfirst, fun k field hk => ?_⟩
    obtain ⟨hlt, -⟩ := List.getElem?_eq_some_iff.mp hk
    have hslot : block' (obj + k + 1) = block (obj + k + 1) :=
      hsame _ (by omega) (by have := hbound 0 (Nat.zero_le _); omega)
    have hslot' : block' (a + k + 1) = block (a + k + 1) := hfixed _ (hplace (k + 1) hlt)
    have hfield := hfields k field hk
    cases field with
    | plain dt =>
      simp only [hslot, hslot']
      exact hfield
    | embedded cls' =>
      simp only [hslot, hslot']
      obtain ⟨hobject, hobject', hptr, hnull, hnull', hmirror⟩ := hfield
      refine ⟨hobject, hobject', hptr, hnull, hnull', ih hmirror (hembedded k cls' hk)
        (fun x hlow hhigh => hsame x ?_ ?_) hfixed⟩
      · have := hbound (k + 1) hlt
        omega
      · have := hbound k (Nat.le_of_lt hlt)
        omega

theorem IsPlain.congr (h : IsPlain block fixed ptr)
    (hptr : fixed ptr) (hfixed : ∀ x, fixed x → block' x = block x) : IsPlain block' fixed ptr := by
  have hsame := hfixed ptr hptr
  refine ⟨hsame ▸ h.dataType, hsame ▸ h.target, ?_⟩
  have hvalue := h.not_value
  rw [isAValueType, isAReferenceOfValueType] at hvalue ⊢
  rw [hsame]
  by_cases hnull : (block ptr).dataType = .object ∧ (block ptr).dereference ≠ 0
  · rw [hfixed _ (h.target hnull.1 hnull.2)]
    exact hvalue
  · rcases not_and_or.mp hnull with hne | hne
    · simp [hne]
    · simp [not_not.mp hne]

variable {cls a : Nat}

theorem Typed.congr (h : Typed types block fixed cls a)
    (hfixed : ∀ x, fixed x → block' x = block x) : Typed types block' fixed cls a := by
  induction h with
  | @mk cls a hheader hne hplace hplain hobject _ ih =>
    have hslot : ∀ k field, (types cls).fields[k]? = some field →
        block' (a + k + 1) = block (a + k + 1) := by
      intro k field hk
      obtain ⟨hlt, -⟩ := List.getElem?_eq_some_iff.mp hk
      exact hfixed _ (hplace (k + 1) hlt)
    have htarget : ∀ k cls', (types cls).fields[k]? = some (.embedded cls') →
        Typed types block' fixed cls' (block (a + k + 1)).dereference := ih
    refine .mk (hfixed a (hplace 0 (Nat.zero_le _)) ▸ hheader) hne hplace
      (fun k dt hk => (hplain k dt hk).congr ?_ hfixed) (fun k cls' hk => ?_) fun k cls' hk => ?_
    · obtain ⟨hlt, -⟩ := List.getElem?_eq_some_iff.mp hk
      exact hplace (k + 1) hlt
    · rw [hslot k _ hk]
      obtain ⟨hdt, hboxed⟩ := hobject k cls' hk
      refine ⟨hdt, ?_⟩
      obtain ⟨-, -, hplace', -, -, -⟩ := htarget k cls' hk
      have hsame := hfixed _ (hplace' 0 (Nat.zero_le _))
      rw [Nat.add_zero] at hsame
      rw [hsame]
      exact hboxed
    · rw [hslot k _ hk]
      exact htarget k cls' hk

/-! ### New objects -/

def EmbedsValues (types : Nat → TypeInfo) : Prop :=
  ∀ (cls k cls' : Nat), (types cls).fields[k]? = some (.embedded cls') →
    (types cls').dataType = .valuetype ∧ cls' < 2 ^ 32

/-- What `NewObject` and the loop over the fields leave as it was -/
structure Store.Extends (s s' : Store) : Prop where
  next : s.next ≤ s'.next
  limit : s'.limit = s.limit

variable {s s' : Store}

theorem Store.Extends.trans {s'' : Store} (h : s.Extends s') (h' : s'.Extends s'') :
    s.Extends s'' :=
  ⟨Nat.le_trans h.next h'.next, h'.limit.trans h.limit⟩

/-- What `NewObject` does for a value type: the object is the next one, and the slot refers to it. -/
structure IsNew (types : Nat → TypeInfo) (depth cls slot : Nat) (s s' : Store) : Prop where
  extend : s.Extends s'
  kept : ∀ x < s.next, x ≠ slot → s'.block x = s.block x
  dataType : (s'.block slot).dataType = .object
  dereference : (s'.block slot).dereference = s.next
  fresh : Fresh types s'.block depth cls s.next s'.next

def FreshField (types : Nat → TypeInfo) (block : Nat → HeapBlock) (depth obj : Nat)
    (cut : Nat → Nat) (k : Nat) : FieldType → Prop
  | .plain _ => IsEmpty (block (obj + k + 1))
  | .embedded cls' => (block (obj + k + 1)).dataType = .object ∧
      (block (obj + k + 1)).dereference = cut (k + 1) ∧
      Fresh types block depth cls' (cut (k + 1)) (cut k)

variable {depth obj k : Nat} {field : FieldType}

theorem FreshField.congr
    (h : FreshField types block depth obj cut k field)
    (hslot : block' (obj + k + 1) = block (obj + k + 1))
    (hsame : ∀ x, cut (k + 1) ≤ x → x < cut k → block' x = block x) :
    FreshField types block' depth obj cut k field := by
  cases field with
  | plain dt =>
    rw [FreshField] at h ⊢
    exact hslot ▸ h
  | embedded cls' =>
    rw [FreshField] at h ⊢
    rw [hslot]
    exact ⟨h.1, h.2.1, h.2.2.congr hsame⟩

/-- The loop over the fields, once `NewObject` does what it should for those that embed an object -/
theorem initializeFields_spec (hvalues : EmbedsValues types)
    (hnew : ∀ {s s' : Store} {slot cls : Nat}, slot < s.next → s.limit ≤ 2 ^ 32 →
      (types cls).dataType = .valuetype → cls < 2 ^ 32 →
      newObject types depth s slot cls = some (.ok, s') → IsNew types depth cls slot s s') :
    ∀ {n : Nat} {s s' : Store}, n ≤ (types cls).fields.length →
      obj + (types cls).fields.length < s.next → s.limit ≤ 2 ^ 32 →
      initializeFields (newObject types depth) (types cls).fields obj n s = some (.ok, s') →
      s.Extends s' ∧ (∀ x < s.next, ¬ (obj + 1 ≤ x ∧ x ≤ obj + n) → s'.block x = s.block x) ∧
        ∃ cut : Nat → Nat, cut n = s.next ∧ (∀ k < n, cut (k + 1) ≤ cut k) ∧ cut 0 = s'.next ∧
          ∀ k < n, ∀ field, (types cls).fields[k]? = some field →
            FreshField types s'.block depth obj cut k field := by
  intro n
  induction n with
  | zero =>
    intro s s' _ _ _ h
    obtain rfl : s = s' := (Prod.mk.inj (Option.some.inj h)).2
    refine ⟨⟨Nat.le_refl _, rfl⟩, fun _ _ _ => rfl, fun _ => s.next, rfl, ?_, rfl, ?_⟩
    · intro k hk
      omega
    · intro k hk
      omega
  | succ n ih =>
    intro s s' hn hobj hlimit h
    rw [initializeFields] at h
    obtain ⟨field, hfield, h⟩ := Option.bind_eq_some_iff.mp h
    obtain ⟨⟨res, s₁⟩, hone, h⟩ := Option.bind_eq_some_iff.mp h
    cases res with
    | failed code =>
      simp only [Option.some.injEq, Prod.mk.injEq, reduceCtorEq, false_and] at h
    | ok =>
      simp only at h
      have hstep : s.Extends s₁ ∧ (∀ x < s.next, x ≠ obj + n + 1 → s₁.block x = s.block x) ∧
          ∀ cut : Nat → Nat, cut (n + 1) = s.next → cut n = s₁.next →
            FreshField types s₁.block depth obj cut n field := by
        cases field with
        | plain dt =>
          rw [initializeReference] at hone
          obtain rfl : _ = s₁ := (Prod.mk.inj (Option.some.inj hone)).2
          refine ⟨⟨Nat.le_refl _, rfl⟩, fun x _ hx => s.set_block_of_ne _ hx, fun cut _ _ => ?_⟩
          rw [FreshField, IsEmpty, s.set_block_self]
          exact fun _ => rfl
        | embedded cls' =>
          rw [initializeReference] at hone
          obtain ⟨htype, hcls⟩ := hvalues cls n cls' hfield
          have hspec := hnew (by omega) hlimit htype hcls hone
          refine ⟨hspec.extend, hspec.kept, fun cut hcut hcut' => ?_⟩
          rw [FreshField, hcut, hcut']
          exact ⟨hspec.dataType, hspec.dereference, hspec.fresh⟩
      obtain ⟨hextend, hkept, hfresh⟩ := hstep
      have hnext := hextend.next
      obtain ⟨hextend', hkept', cut, hlast, hcut, hfirst, hfields⟩ :=
        ih (by omega) (by omega) (hextend.limit ▸ hlimit) h
      have hother : ∀ k ≤ n, Function.update cut (n + 1) s.next k = cut k :=
        fun k hk => Function.update_of_ne (by omega) _ _
      have hself : Function.update cut (n + 1) s.next (n + 1) = s.next := Function.update_self _ _ _
      refine ⟨hextend.trans hextend', fun x hx hout => ?_, Function.update cut (n + 1) s.next, hself,
        fun k hk => ?_, (hother 0 (Nat.zero_le _)).trans hfirst, fun k hk field' hfield' => ?_⟩
      · rw [hkept' x (by omega) (by omega)]
        exact hkept x hx (by omega)
      · rcases Nat.eq_or_lt_of_le (Nat.le_of_lt_succ hk) with rfl | hlt
        · rw [hself, hother k (Nat.le_refl _), hlast]
          exact hnext
        · rw [hother (k + 1) hlt, hother k (Nat.le_of_lt hlt)]
          exact hcut k hlt
      · rcases Nat.eq_or_lt_of_le (Nat.le_of_lt_succ hk) with rfl | hlt
        · obtain rfl : field = field' := Option.some.inj (hfield.symm.trans hfield')
          refine (hfresh _ hself ((hother k (Nat.le_refl _)).trans hlast)).congr
            (hkept' _ (by omega) (by omega)) fun x hlow hhigh => hkept' x ?_ ?_
          · rw [hother k (Nat.le_refl _), hlast] at hhigh
            exact hhigh
          · rw [hself] at hlow
            omega
        · have hold := hfields k hlt field' hfield'
          cases field' with
          | plain dt => exact hold
          | embedded cls' =>
            rw [FreshField] at hold ⊢
            rw [hother (k + 1) hlt, hother k (Nat.le_of_lt hlt)]
            exact hold

theorem allocate_block_of_ne (s : Store) {dt : DataType} {totFields x : Nat}
    (h : x < s.next) : (s.allocate dt cls totFields).block x = s.block x := by
  rw [Store.allocate]
  simp only
  rw [if_neg (by omega), if_neg (by omega)]

theorem isHeader_new (hcls : cls < 2 ^ 32)
    (hsize : (types cls).fields.length + 1 ≤ HB_MaxSize) :
    IsHeader types ⟨rawId .valuetype {} ((types cls).fields.length + 1), cls.toUInt64⟩ cls := by
  refine ⟨rfl, ?_, rawId_dataSize hsize, hsize⟩
  rw [HeapBlock.objectCls, HeapBlock.word, Nat.toUInt64_eq, UInt64.toNat_ofNat']
  omega

/-- `NewObject` of a value type that comes back -/
theorem newObject_spec (hvalues : EmbedsValues types) : ∀ {depth : Nat} {s s' : Store}
    {slot cls : Nat}, slot < s.next → s.limit ≤ 2 ^ 32 → (types cls).dataType = .valuetype →
    cls < 2 ^ 32 → newObject types depth s slot cls = some (.ok, s') →
    IsNew types depth cls slot s s' := by
  intro depth
  induction depth with
  | zero =>
    intro s s' slot cls _ _ _ _ h
    cases h
  | succ depth ih =>
    intro s s' slot cls hslot hlimit htype hcls h
    rw [newObject] at h
    simp only [htype, show reference .valuetype = true from rfl, Bool.true_eq_false, if_false] at h
    generalize hs₁ : s.set slot ((s.block slot).setObjectReference 0) = s₁ at h
    have hnext : s₁.next = s.next := hs₁ ▸ rfl
    have hlim : s₁.limit = s.limit := hs₁ ▸ rfl
    by_cases hfull : (types cls).fields.length + 1 > HB_MaxSize ∨
        s₁.next + ((types cls).fields.length + 1) > s₁.limit
    · rw [if_pos hfull] at h
      simp only [Option.some.injEq, Prod.mk.injEq, reduceCtorEq, false_and] at h
    · rw [if_neg hfull, Nat.add_sub_cancel, hnext] at h
      obtain ⟨hsize, hroom⟩ := not_or.mp hfull
      generalize hs₂ : (s₁.allocate .valuetype cls ((types cls).fields.length + 1)).set slot
        (((s₁.allocate .valuetype cls ((types cls).fields.length + 1)).block slot).setObjectReference
          s.next) = s₂ at h
      have hnext₂ : s₂.next = s.next + ((types cls).fields.length + 1) := by
        rw [← hs₂, ← hnext]
        rfl
      have hlim₂ : s₂.limit = s.limit := hs₂ ▸ hlim
      have hheader : s₂.block s.next =
          ⟨rawId .valuetype {} ((types cls).fields.length + 1), cls.toUInt64⟩ := by
        rw [← hs₂, Store.set_block_of_ne _ _ (by omega), ← hnext]
        exact if_pos rfl
      have hkept₂ : ∀ x < s.next, x ≠ slot → s₂.block x = s.block x := by
        intro x hx hne
        rw [← hs₂, Store.set_block_of_ne _ _ hne, allocate_block_of_ne _ (hnext ▸ hx), ← hs₁,
          Store.set_block_of_ne _ _ hne]
      have hslot₂ : (s₂.block slot).dataType = .object ∧ (s₂.block slot).dereference = s.next := by
        rw [← hs₂, Store.set_block_self]
        exact ⟨rfl, dereference_setObjectReference (by omega)⟩
      obtain ⟨hextend, hkept, cut, hlast, hcut, hfirst, hfields⟩ :=
        initializeFields_spec hvalues ih (Nat.le_refl _) (by omega) (hlim₂ ▸ hlimit) h
      have hafter : s'.block slot = s₂.block slot := hkept slot (by omega) (by omega)
      have hhead : s'.block s.next = s₂.block s.next := hkept _ (by omega) (by omega)
      refine ⟨⟨?_, hextend.limit.trans hlim₂⟩, fun x hx hne => ?_, hafter ▸ hslot₂.1,
        hafter ▸ hslot₂.2, ?_⟩
      · have hle := hextend.next
        omega
      · rw [hkept x (by omega) (by omega)]
        exact hkept₂ x hx hne
      · refine ⟨?_, ?_, cut, hlast.trans hnext₂, hcut, hfirst, fun k field hk => ?_⟩
        · rw [hhead, hheader]
          exact isHeader_new hcls (by omega)
        · rw [hhead, hheader]
          rfl
        · obtain ⟨hlt, -⟩ := List.getElem?_eq_some_iff.mp hk
          have hfield := hfields k hlt field hk
          cases field with
          | plain dt => exact hfield
          | embedded cls' => exact hfield

/-! ### Copies -/

def MirrorField (types : Nat → TypeInfo) (block : Nat → HeapBlock) (depth obj : Nat)
    (cut : Nat → Nat) (a k : Nat) : FieldType → Prop
  | .plain _ => block (obj + k + 1) = block (a + k + 1) ∧
      ((block (a + k + 1)).dataType = .object ∨ reference (block (a + k + 1)).dataType = false)
  | .embedded cls' => (block (obj + k + 1)).dataType = .object ∧
      (block (a + k + 1)).dataType = .object ∧
      (block (obj + k + 1)).dereference = cut (k + 1) ∧ cut (k + 1) ≠ 0 ∧
      (block (a + k + 1)).dereference ≠ 0 ∧
      Mirror types block depth cls' (cut (k + 1)) (cut k) (block (a + k + 1)).dereference

theorem isAValueType_eq_false (h : IsEmpty (block ptr)) :
    isAValueType block ptr = false := by
  rw [isAValueType, isAReferenceOfValueType]
  by_cases hdt : (block ptr).dataType = .object
  · simp [h hdt]
  · simp [hdt]

theorem isAValueType_eq_true (hdt : (block ptr).dataType = .object)
    (hptr : (block ptr).dereference ≠ 0) (h : IsHeader types (block (block ptr).dereference) cls)
    (hboxed : (block (block ptr).dereference).boxed = false) : isAValueType block ptr = true := by
  rw [isAValueType, isAReferenceOfValueType]
  simp [hdt, hptr, h.dataType, hboxed]

theorem reassign_plain {copy : Store → Nat → Nat → Option (HResult × Store)}
    {this value : Nat} (hthis : isAValueType s.block this = false)
    (hvalue : isAValueType s.block value = false) :
    reassign copy s this value = some (.ok, s.set this (s.block value)) := by
  rw [reassign, hthis, hvalue]
  simp

theorem reassign_embedded {copy : Store → Nat → Nat → Option (HResult × Store)}
    {this value : Nat} (hthis : isAValueType s.block this = true)
    (hvalue : isAValueType s.block value = true) :
    reassign copy s this value = copy s (s.block this).dereference (s.block value).dereference := by
  rw [reassign, hthis, hvalue]
  simp

/-- What `CopyValueType` does: it writes where the new object is, which then is a copy. -/
structure IsCopy (types : Nat → TypeInfo) (depth cls dest hi src : Nat) (s s' : Store) : Prop where
  kept : ∀ x, ¬ (dest ≤ x ∧ x < hi) → s'.block x = s.block x
  mirror : Mirror types s'.block depth cls dest hi src

/-- One field is copied. -/
theorem reassign_spec
    (hcopy : ∀ {s : Store} {cls dest hi src : Nat}, Fresh types s.block depth cls dest hi →
      Typed types s.block fixed cls src → dest ≠ 0 → (∀ x, fixed x → x < dest) →
      ∃ s', copyValueType types depth s dest src = some (.ok, s') ∧
        IsCopy types depth cls dest hi src s s')
    (hk : (types cls).fields[k]? = some field)
    (hfresh : FreshField types s.block depth obj cut k field)
    (htyped : Typed types s.block fixed cls a) (hbelow : ∀ x, fixed x → x < obj)
    (hcut : obj + (types cls).fields.length + 1 ≤ cut (k + 1)) :
    ∃ s', reassign (copyValueType types depth) s (obj + k + 1) (a + k + 1) = some (.ok, s') ∧
      (∀ x, x ≠ obj + k + 1 → ¬ (cut (k + 1) ≤ x ∧ x < cut k) → s'.block x = s.block x) ∧
      MirrorField types s'.block depth obj cut a k field := by
  obtain ⟨hlt, -⟩ := List.getElem?_eq_some_iff.mp hk
  obtain ⟨hheader, hne, hplace, hplain, hobject, hembedded⟩ := htyped
  cases field with
  | plain dt =>
    have hsource := hplain k dt hk
    refine ⟨_, reassign_plain (isAValueType_eq_false hfresh) hsource.not_value, fun x hx _ =>
      s.set_block_of_ne _ hx, ?_⟩
    have hvalue := hbelow _ (hplace (k + 1) hlt)
    rw [MirrorField, s.set_block_self, s.set_block_of_ne _ (by omega)]
    exact ⟨rfl, hsource.dataType⟩
  | embedded cls' =>
    rw [FreshField] at hfresh
    obtain ⟨hdt, hptr, hnew⟩ := hfresh
    obtain ⟨hdt', hboxed'⟩ := hobject k cls' hk
    have hsub := hembedded k cls' hk
    have hsource : (s.block (a + k + 1)).dereference ≠ 0 ∧
        IsHeader types (s.block (s.block (a + k + 1)).dereference) cls' := by
      obtain ⟨hheader', hne', -⟩ := hsub
      exact ⟨hne', hheader'⟩
    have htarget : IsHeader types (s.block (cut (k + 1))) cls' ∧
        (s.block (cut (k + 1))).boxed = false := by
      cases depth with
      | zero => exact hnew.elim
      | succ depth => exact ⟨hnew.1, hnew.2.1⟩
    have hnull : cut (k + 1) ≠ 0 := by omega
    obtain ⟨s', hrun, hkept, hmirror⟩ := hcopy hnew hsub hnull fun x hx => by
      have hlow := hbelow x hx
      omega
    refine ⟨s', ?_, fun x _ hx => hkept x hx, ?_⟩
    · rw [reassign_embedded (isAValueType_eq_true hdt (hptr ▸ hnull) (hptr ▸ htarget.1)
        (hptr ▸ htarget.2)) (isAValueType_eq_true hdt' hsource.1 hsource.2 hboxed'), hptr]
      exact hrun
    · have hvalue := hbelow _ (hplace (k + 1) hlt)
      rw [MirrorField, hkept (obj + k + 1) (by omega), hkept (a + k + 1) (by omega)]
      exact ⟨hdt, hdt', hptr, hnull, hsource.1, hmirror⟩

theorem MirrorField.congr
    (h : MirrorField types block depth obj cut a k field)
    (hk : (types cls).fields[k]? = some field) (htyped : Typed types block fixed cls a)
    (hslot : block' (obj + k + 1) = block (obj + k + 1))
    (hsame : ∀ x, cut (k + 1) ≤ x → x < cut k → block' x = block x)
    (hfixed : ∀ x, fixed x → block' x = block x) :
    MirrorField types block' depth obj cut a k field := by
  obtain ⟨hlt, -⟩ := List.getElem?_eq_some_iff.mp hk
  obtain ⟨-, -, hplace, -, -, hembedded⟩ := htyped
  have hslot' : block' (a + k + 1) = block (a + k + 1) := hfixed _ (hplace (k + 1) hlt)
  cases field with
  | plain dt =>
    rw [MirrorField] at h ⊢
    rw [hslot, hslot']
    exact h
  | embedded cls' =>
    rw [MirrorField] at h ⊢
    rw [hslot, hslot']
    obtain ⟨hdt, hdt', hptr, hnull, hnull', hmirror⟩ := h
    exact ⟨hdt, hdt', hptr, hnull, hnull', hmirror.congr (hembedded k cls' hk) hsame hfixed⟩

/-- The fields from `j` on are copied. -/
theorem copyFields_spec
    (hcopy : ∀ {s : Store} {cls dest hi src : Nat}, Fresh types s.block depth cls dest hi →
      Typed types s.block fixed cls src → dest ≠ 0 → (∀ x, fixed x → x < dest) →
      ∃ s', copyValueType types depth s dest src = some (.ok, s') ∧
        IsCopy types depth cls dest hi src s s')
    (hbelow : ∀ x, fixed x → x < obj)
    (hlast : cut (types cls).fields.length = obj + (types cls).fields.length + 1)
    (hcut : ∀ k < (types cls).fields.length, cut (k + 1) ≤ cut k) :
    ∀ {n j : Nat} {s : Store}, j + n = (types cls).fields.length →
      Typed types s.block fixed cls a →
      (∀ k, j ≤ k → ∀ field, (types cls).fields[k]? = some field →
        FreshField types s.block depth obj cut k field) →
      ∃ s', copyFields (copyValueType types depth) n s (obj + j) (a + j) = some (.ok, s') ∧
        (∀ x, ¬ (obj + j + 1 ≤ x ∧ x < cut j) → s'.block x = s.block x) ∧
        ∀ k, j ≤ k → ∀ field, (types cls).fields[k]? = some field →
          MirrorField types s'.block depth obj cut a k field := by
  have hmono : ∀ {j k : Nat}, j ≤ k → k ≤ (types cls).fields.length → cut k ≤ cut j := cut_le hcut
  have hlow : ∀ {k : Nat}, k ≤ (types cls).fields.length →
      obj + (types cls).fields.length + 1 ≤ cut k := fun hk => hlast ▸ hmono hk (Nat.le_refl _)
  intro n
  induction n with
  | zero =>
    intro j s hj htyped hfresh
    refine ⟨s, rfl, fun _ _ => rfl, fun k hjk field hk => ?_⟩
    obtain ⟨hlt, -⟩ := List.getElem?_eq_some_iff.mp hk
    omega
  | succ n ih =>
    intro j s hj htyped hfresh
    have hlt : j < (types cls).fields.length := by omega
    have hfield : (types cls).fields[j]? = some (types cls).fields[j] := List.getElem?_eq_getElem hlt
    obtain ⟨s₁, hone, hkept, hmirror⟩ := reassign_spec hcopy hfield
      (hfresh j (Nat.le_refl j) _ hfield) htyped hbelow (hlow hlt)
    have hstep : cut (j + 1) ≤ cut j := hmono (Nat.le_succ j) hlt
    have hend : obj + (types cls).fields.length + 1 ≤ cut (j + 1) := hlow hlt
    have hfixed₁ : ∀ x, fixed x → s₁.block x = s.block x := by
      intro x hx
      have hobj := hbelow x hx
      exact hkept x (by omega) (by omega)
    have htyped₁ := htyped.congr hfixed₁
    obtain ⟨s', hrest, hkept', hmirror'⟩ := ih (j := j + 1) (by omega) htyped₁ fun k hjk field hk => by
      obtain ⟨hltk, -⟩ := List.getElem?_eq_some_iff.mp hk
      refine (hfresh k (by omega) field hk).congr (hkept _ (by omega) (by omega))
        fun x hfrom hto => hkept x ?_ ?_
      · have hfirst : obj + (types cls).fields.length + 1 ≤ cut (k + 1) := hlow hltk
        omega
      · have hle : cut k ≤ cut (j + 1) := hmono hjk (Nat.le_of_lt hltk)
        omega
    refine ⟨s', ?_, fun x hx => ?_, fun k hjk field hk => ?_⟩
    · rw [copyFields, hone]
      exact hrest
    · rw [hkept' x (by omega)]
      exact hkept x (by omega) (by omega)
    · rcases Nat.eq_or_lt_of_le hjk with rfl | hltk
      · obtain rfl : (types cls).fields[j] = field := Option.some.inj (hfield.symm.trans hk)
        refine hmirror.congr hk htyped₁ (hkept' (obj + j + 1) (by omega)) (fun x hfrom _ => hkept' x (by omega))
          fun x hx => hkept' x ?_
        have hobj := hbelow x hx
        omega
      · exact hmirror' k hltk field hk

theorem IsHeader.box {hb : HeapBlock} (h : IsHeader types hb cls) :
    IsHeader types hb.box cls := ⟨h.dataType, h.objectCls, h.dataSize, h.fits⟩

/-- `CopyValueType` to a new object -/
theorem copyValueType_spec : ∀ {depth : Nat} {s : Store}
    {cls dest hi src : Nat}, Fresh types s.block depth cls dest hi →
    Typed types s.block fixed cls src → dest ≠ 0 → (∀ x, fixed x → x < dest) →
    ∃ s', copyValueType types depth s dest src = some (.ok, s') ∧
      IsCopy types depth cls dest hi src s s' := by
  intro depth
  induction depth with
  | zero => exact fun h _ _ _ => h.elim
  | succ depth ih =>
    intro s cls dest hi src hfresh htyped hnull hbelow
    obtain ⟨hheader, -, cut, hlast, hcut, hfirst, hfields⟩ := hfresh
    obtain ⟨hheader', hnull', hplace, -⟩ := id htyped
    have hsrc : src < dest := hbelow src (hplace 0 (Nat.zero_le _))
    have hend : dest + (types cls).fields.length + 1 ≤ hi :=
      hfirst ▸ hlast ▸ cut_le hcut (Nat.zero_le _) (Nat.le_refl _)
    generalize hs₁ : (if (s.block src).boxed then s.set dest (s.block dest).box else s) = s₁
    have hkept₁ : ∀ x, x ≠ dest → s₁.block x = s.block x := by
      intro x hx
      rw [← hs₁]
      split_ifs with hboxed
      · exact s.set_block_of_ne _ hx
      · rfl
    have hheader₁ : IsHeader types (s₁.block dest) cls := by
      rw [← hs₁]
      split_ifs with hboxed
      · rw [s.set_block_self]
        exact hheader.box
      · exact hheader
    have htyped₁ : Typed types s₁.block fixed cls src :=
      htyped.congr fun x hx => hkept₁ x (Nat.ne_of_lt (hbelow x hx))
    obtain ⟨s', hrun, hkept, hmirror⟩ := copyFields_spec (n := (types cls).fields.length) (j := 0)
      ih hbelow hlast hcut (Nat.zero_add _) htyped₁ fun k _ field hk => by
        obtain ⟨hlt, -⟩ := List.getElem?_eq_some_iff.mp hk
        refine FreshField.congr ?_ (hkept₁ _ (by omega)) fun x hfrom _ => hkept₁ x ?_
        · have hfield := hfields k field hk
          cases field with
          | plain dt => exact hfield
          | embedded cls' => exact hfield
        · have hle : cut (types cls).fields.length ≤ cut (k + 1) :=
            cut_le hcut hlt (Nat.le_refl _)
          omega
    refine ⟨s', ?_, fun x hx => ?_, ?_⟩
    · rw [copyValueType, if_neg (by omega), if_neg (by omega), if_pos (by
        rw [hheader'.objectCls, hheader.objectCls]), hheader'.objectCls]
      simp only
      rw [hs₁]
      exact hrun
    · rw [hkept x (by omega)]
      exact hkept₁ x (by omega)
    · refine ⟨?_, ?_, cut, hlast, hcut, hfirst, fun k field hk => ?_⟩
      · rw [hkept dest (by omega)]
        exact hheader₁
      · rw [hkept src (by omega), hkept₁ src (by omega)]
        exact hheader'
      · have hfield := hmirror k (Nat.zero_le k) field hk
        cases field with
        | plain dt => exact hfield
        | embedded cls' => exact hfield

/-! ### A copy is equal -/

/-- Two blocks that are the same hold equal values, unless they are of a type that has none. -/
theorem objectsEqual_of_eq {b fuel : Nat} (h : mem.block a = mem.block b)
    (hdt : (mem.block b).dataType = .object ∨ reference (mem.block b).dataType = false) :
    objectsEqual mem (fuel + 1) a b = some true := by
  refine objectsEqual_true_iff.mpr ?_
  by_cases hab : a = b
  · exact Or.inl hab
  refine Or.inr ⟨hab, by rw [h], ?_⟩
  rw [h]
  rcases hdt with hobject | href
  · exact Or.inr (Or.inl ⟨hobject, Or.inl rfl⟩)
  · refine Or.inr (Or.inr ⟨fun hv => ?_, fun ho => ?_, ?_⟩)
    · rw [hv] at href
      cases href
    · rw [ho] at href
      cases href
    · rw [atomsEqual, h]
      cases hcase : (mem.block b).dataType with
      | szarray =>
        rw [hcase] at href
        cases href
      | _ =>
        first
        | exact beq_self_eq_true _
        | exact absurd href (by rw [hcase]; decide)

theorem objectsEqual_of_mirror : ∀ {depth cls obj hi a : Nat},
    Mirror types mem.block depth cls obj hi a → objectsEqual mem (2 * depth + 1) obj a = some true := by
  intro depth
  induction depth with
  | zero => exact fun h => h.elim
  | succ depth ih =>
    rintro cls obj hi a ⟨hheader, hheader', cut, -, -, -, hfields⟩
    refine objectsEqual_true_iff.mpr ?_
    by_cases hab : obj = a
    · exact Or.inl hab
    refine Or.inr ⟨hab, hheader.dataType.trans hheader'.dataType.symm,
      Or.inl ⟨hheader.dataType, hheader.objectCls.trans hheader'.objectCls.symm, ?_⟩⟩
    have hnum : numFields (mem.block obj) = (types cls).fields.length := by
      have hfits := hheader.fits
      rw [HB_MaxSize] at hfits
      rw [numFields, hheader.dataSize, uint32_eq_toNat (by omega) (by omega)]
      omega
    refine equalFields_true_iff.mpr fun k hlow hhigh => ?_
    obtain ⟨k, rfl⟩ : ∃ k', k = k' + 1 := ⟨k - 1, by omega⟩
    have hlt : k < (types cls).fields.length := by omega
    have hk : (types cls).fields[k]? = some (types cls).fields[k] := List.getElem?_eq_getElem hlt
    have hfield := hfields k _ hk
    rw [← Nat.add_assoc, ← Nat.add_assoc]
    cases hcase : (types cls).fields[k] with
    | plain dt =>
      rw [hcase] at hfield
      exact objectsEqual_of_eq hfield.1 hfield.2
    | embedded cls' =>
      rw [hcase] at hfield
      obtain ⟨hdt, hdt', hptr, hnull, hnull', hmirror⟩ := hfield
      refine objectsEqual_true_iff.mpr ?_
      by_cases hsame : obj + k + 1 = a + k + 1
      · exact Or.inl hsame
      refine Or.inr ⟨hsame, hdt.trans hdt'.symm, Or.inr (Or.inl ⟨hdt, ?_⟩)⟩
      by_cases htarget : (mem.block (obj + k + 1)).dereference = (mem.block (a + k + 1)).dereference
      · exact Or.inl htarget
      · refine Or.inr ⟨htarget, hptr ▸ hnull, hnull', ?_⟩
        rw [hptr]
        exact ih hmirror

/-! ### `CloneObject` -/

/-- A slot or an object that `CloneObject` copies.  A value type with fields lies in memory that
    neither the new object nor the slot for it is in; a number, a date or a time span is reached not
    by way of the slot. -/
inductive IsValue (types : Nat → TypeInfo) (depth : Nat) (s : Store) (slot source obj : Nat) :
    Prop where
  | fields : resolve s.block depth source = some (.ok obj) →
      (types (s.block obj).objectCls).dataType = .valuetype ∨
        reference (types (s.block obj).objectCls).dataType = false →
      Typed types s.block (fun x => x < s.next ∧ x ≠ slot) (s.block obj).objectCls obj →
      IsValue types depth s slot source obj
  | optimized : resolve s.block depth source = some (.ok obj) →
      optimizedValueType (s.block obj).dataType = true →
      (source ≠ slot → obj ≠ slot ∧
        resolve (s.set slot ⟨rawId .void {} 1, 0⟩).block depth source = some (.ok obj)) →
      IsValue types depth s slot source obj

def LeadsToSame (mem : Memory) (slot obj : Nat) : Prop :=
  ∃ depth copy, resolve mem.block depth slot = some (.ok copy) ∧ Same mem copy obj

variable {slot : Nat}

theorem copyValueType_primitive
    (hprimitive : reference (types cls).dataType = false) (hobj : obj ≠ 0)
    (hnew : newObject types depth s slot cls = some (.ok, s')) :
    copyValueType types depth s' (s'.block slot).dereference obj = none := by
  cases depth with
  | zero => rfl
  | succ depth =>
    rw [newObject] at hnew
    simp only [hprimitive, if_true, Option.some.injEq, Prod.mk.injEq, true_and] at hnew
    have hnull : (s'.block slot).dereference = 0 := by
      rw [← hnew, Store.set_block_self]
      have hzero : ((s.block slot).setObjectReference 0).dereference = 0 :=
        dereference_setObjectReference (by decide)
      rw [Store.set_block_self]
      exact hzero
    rw [copyValueType, hnull, if_neg hobj.symm, if_pos (.inl rfl)]

variable {source : Nat}

theorem cloneObject_fields (hvalues : EmbedsValues types)
    (hslot : slot < s.next) (hlimit : s.limit ≤ 2 ^ 32)
    (hresolve : resolve s.block depth source = some (.ok obj))
    (htype : (types (s.block obj).objectCls).dataType = .valuetype ∨
      reference (types (s.block obj).objectCls).dataType = false)
    (htyped : Typed types s.block (fun x => x < s.next ∧ x ≠ slot) (s.block obj).objectCls obj)
    (hrun : cloneObject types depth s slot source = some (.ok, s')) (hmem : mem.block = s'.block) :
    LeadsToSame mem slot obj := by
  obtain ⟨hheader, hnull, hplace, -⟩ := id htyped
  have hcls : (s.block obj).objectCls < 2 ^ 32 := Nat.mod_lt _ (by decide)
  rw [cloneObject, hresolve] at hrun
  simp only [Option.bind_eq_bind, Option.bind_some, hheader.dataType] at hrun
  obtain ⟨⟨res, s₁⟩, hnew, hcopy⟩ := Option.bind_eq_some_iff.mp hrun
  cases res with
  | failed code =>
    simp only [Option.some.injEq, Prod.mk.injEq, reduceCtorEq, false_and] at hcopy
  | ok =>
    simp only at hcopy
    rcases htype with htype | hprimitive
    · have hspec := newObject_spec hvalues hslot hlimit htype hcls hnew
      obtain ⟨s₂, hrun₂, hkept, hmirror⟩ := copyValueType_spec hspec.fresh
        (htyped.congr fun x hx => hspec.kept x hx.1 hx.2) (by omega) fun x hx => hx.1
      rw [hspec.dereference, hrun₂] at hcopy
      obtain rfl : s₂ = s' := (Prod.mk.inj (Option.some.inj hcopy)).2
      have hslot' : mem.block slot = s₁.block slot := by
        rw [hmem, hkept slot (by omega)]
      have hcopied : (mem.block s.next).dataType = .valuetype := by
        rw [hmem]
        cases depth with
        | zero => exact hmirror.elim
        | succ depth => exact hmirror.1.dataType
      rw [← hmem] at hmirror
      refine ⟨2, s.next, ?_, _, objectsEqual_of_mirror hmirror⟩
      rw [resolve, hslot', if_pos (.inr hspec.dataType), hspec.dereference, if_neg (by omega), resolve,
        hcopied]
      rfl
    · rw [copyValueType_primitive hprimitive hnull hnew] at hcopy
      cases hcopy

theorem resolve_apart (hslot : (block slot).dataType = .void)
    (hsame : ∀ x ≠ slot, block' x = block x) (hobj : obj ≠ slot) : ∀ {depth a : Nat},
    resolve block depth a = some (.ok obj) → resolve block' depth a = some (.ok obj) := by
  intro depth
  induction depth with
  | zero =>
    intro a h
    cases h
  | succ depth ih =>
    intro a h
    rw [resolve] at h ⊢
    rcases eq_or_ne a slot with rfl | hne
    · rw [if_neg (by simp [hslot])] at h
      simp only [Option.some.injEq, Except.ok.injEq] at h
      exact absurd h.symm hobj
    · rw [hsame a hne]
      split_ifs at h ⊢ with href hnull
      · cases h
      · exact ih h
      · exact h

theorem reference_of_optimized {dt : DataType} (h : optimizedValueType dt = true) :
    reference dt = false := by
  cases dt <;> first
  | rfl
  | cases h

theorem cloneObject_ok_optimized
    (hresolve : resolve s.block depth source = some (.ok obj))
    (hdt : optimizedValueType (s.block obj).dataType = true)
    (hrun : cloneObject types depth s slot source = some (.ok, s')) :
    s' = s.set slot (s.block source) := by
  rw [cloneObject, hresolve] at hrun
  simp only [Option.bind_eq_bind, Option.bind_some] at hrun
  cases hcase : (s.block obj).dataType
  all_goals
    rw [hcase] at hdt hrun
    first
    | exact (Prod.mk.inj (Option.some.inj hrun)).2.symm
    | cases hdt

theorem cloneObject_optimized
    (hresolve : resolve s.block depth source = some (.ok obj))
    (hdt : optimizedValueType (s.block obj).dataType = true)
    (hapart : source ≠ slot → obj ≠ slot ∧
      resolve (s.set slot ⟨rawId .void {} 1, 0⟩).block depth source = some (.ok obj))
    (hrun : cloneObject types depth s slot source = some (.ok, s')) (hmem : mem.block = s'.block) :
    LeadsToSame mem slot obj := by
  rw [cloneObject_ok_optimized hresolve hdt hrun] at hmem
  by_cases hself : source = slot
  · refine ⟨depth, obj, ?_, 1, objectsEqual_self⟩
    rw [hmem, Store.set, ← hself, Function.update_eq_self]
    exact hresolve
  obtain ⟨hobj, hresolve⟩ := hapart hself
  have hslot : mem.block slot = s.block source := by rw [hmem, Store.set_block_self]
  have hsource : mem.block source = s.block source := by rw [hmem, Store.set_block_of_ne _ _ hself]
  cases depth with
  | zero => cases hresolve
  | succ depth =>
    have hkept : resolve mem.block (depth + 1) source = some (.ok obj) :=
      resolve_apart (by rw [Store.set_block_self]; rfl)
        (fun x hx => by rw [hmem, Store.set_block_of_ne _ _ hx, Store.set_block_of_ne _ _ hx]) hobj
        hresolve
    rw [resolve, hsource] at hkept
    split_ifs at hkept with href hnull
    · cases hkept
    · refine ⟨depth + 1, obj, ?_, 1, objectsEqual_self⟩
      rw [resolve, hslot, if_pos href, if_neg hnull]
      exact hkept
    · simp only [Option.some.injEq, Except.ok.injEq] at hkept
      refine ⟨1, slot, ?_, 1, objectsEqual_of_eq ?_ (.inr (reference_of_optimized ?_))⟩
      · rw [resolve, hslot, if_neg href]
      · rw [hslot, ← hkept, hsource]
      · rw [← hkept, hsource, hkept]
        exact hdt

theorem cloneObject_equal (hvalues : EmbedsValues types)
    (hslot : slot < s.next) (hlimit : s.limit ≤ 2 ^ 32)
    (hvalue : IsValue types depth s slot source obj)
    (hrun : cloneObject types depth s slot source = some (.ok, s')) (hmem : mem.block = s'.block) :
    LeadsToSame mem slot obj := by
  cases hvalue with
  | fields hresolve htype htyped =>
    exact cloneObject_fields hvalues hslot hlimit hresolve htype htyped hrun hmem
  | optimized hresolve hdt hapart => exact cloneObject_optimized hresolve hdt hapart hrun hmem

end TinyClr.Equality
