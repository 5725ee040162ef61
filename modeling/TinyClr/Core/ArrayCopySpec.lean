import TinyClr.Core.ArrayCopy
import TinyClr.Core.ArrayCreation
import TinyClr.Core.TypeCastSpec

/-!
# What a copy between arrays leaves behind

The elements that have been copied hold what the source held before the copy, also when source and
target overlap; all others stay as they are.
-/

namespace TinyClr.ArrayCopy

open TinyClr.Library TypeDescriptor ExecutionEngine

variable {F : Type} {sys : TypeSystem}

/-! ### Bytes -/

theorem bytesOf_numberOf (bytes : List UInt8) : bytesOf bytes.length (numberOf bytes) = bytes := by
  induction bytes with
  | nil => rfl
  | cons b bytes ih =>
    have hlow : UInt8.ofNat (b.toNat + 256 * numberOf bytes) = b := by
      refine UInt8.toNat_inj.mp ?_
      rw [UInt8.toNat_ofNat']
      have hb := b.toNat_lt
      omega
    have hhigh : (b.toNat + 256 * numberOf bytes) / 256 = numberOf bytes := by
      have hb := b.toNat_lt
      omega
    rw [numberOf, List.length_cons, bytesOf, hlow, hhigh, ih]

@[simp] theorem length_bytesOf (n num : Nat) : (bytesOf n num).length = n := by
  induction n generalizing num with
  | zero => rfl
  | succ n ih => rw [bytesOf, List.length_cons, ih]

/-! ### Arrays -/

def KindValid (sys : TypeSystem) : ObjectKind → Prop
  | kind => ∃ r, initializeFromObject sys kind = some r ∧
      ∀ desc, r = .ok desc → sys.Valid desc.handlerCls ∧ sys.Valid desc.type

def BlockValid (sys : TypeSystem) : Block F → Prop
  | .value dt _ => KindValid sys (.data dt)
  | .null => True
  | .object obj => KindValid sys obj.kind
  | .struct _ cls _ => KindValid sys (.instance cls)

def CellValid (sys : TypeSystem) (a : HeapArray F) : Cell F → Prop
  | .bytes bytes => a.fReference = false ∧ bytes.length = a.sizeOfElement
  | .block block => a.fReference = true ∧ BlockValid sys block

/-- An array of the type system, laid out as `CreateInstance` does; `m_numOfElements` is in the
    range of an `int`. -/
structure ArrayValid (sys : TypeSystem) (a : HeapArray F) : Prop where
  numOfElements_lt : a.numOfElements < 2 ^ 31
  levels_pos : 0 < a.levels
  type_valid : sys.Valid a.type
  layout : ∃ td, sys.typeDef (if a.levels = 1 then a.type else sys.wellKnown.array) = some td
    ∧ a.typeOfElement = td.dataType
    ∧ a.sizeOfElement = (ArrayCreation.sizeInBytes td.dataType).toNat
    ∧ a.fReference = !td.dataType.numeric
  number : a.fReference = false → KindValid sys (.data a.typeOfElement)
  cells : ∀ i < a.numOfElements, CellValid sys a (a.elements i)

variable {a b : HeapArray F}

theorem ArrayValid.same {a b : HeapArray F} (ha : ArrayValid sys a) (hb : ArrayValid sys b)
    (h : sameHeader a b = true) :
    a.fReference = b.fReference ∧ a.sizeOfElement = b.sizeOfElement := by
  obtain ⟨hlevels, htype⟩ : a.levels = b.levels ∧ a.type = b.type := by
    simpa [sameHeader] using h
  obtain ⟨td, htd, -, hsize, hreference⟩ := ha.layout
  obtain ⟨td', htd', -, hsize', hreference'⟩ := hb.layout
  rw [hlevels, htype] at htd
  cases htd.symm.trans htd'
  exact ⟨hreference.trans hreference'.symm, hsize.trans hsize'.symm⟩

def loaded (a : HeapArray F) : Cell F → Block F
  | .bytes bytes => .value a.typeOfElement (numberOf bytes)
  | .block block => block

/-- An element of the target holds a heap block: as it is, or with the fields of a value type, or as
    bytes, out of its box where there is one. -/
inductive Holds (size : Nat) : Block F → Cell F → Prop where
  | same (block : Block F) : Holds size block (.block block)
  | fields (b b' : Bool) (cls : TypeDefIndex) (fields : F) :
      Holds size (.struct b cls fields) (.block (.struct b' cls fields))
  | unboxedFields (ptr : Nat) (cls : TypeDefIndex) (fields : F) :
      Holds size (.object ⟨ptr, .instance cls, .fields fields⟩) (.block (.struct true cls fields))
  | number (dt : DataType) (num : Nat) : Holds size (.value dt num) (.bytes (bytesOf size num))
  | unboxed (ptr : Nat) (kind : ObjectKind) (dt : DataType) (num : Nat) :
      Holds size (.object ⟨ptr, kind, .value dt num⟩) (.bytes (bytesOf size num))

variable {cell : Cell F}

theorem CellValid.holds (h : CellValid sys a cell) :
    Holds a.sizeOfElement (loaded a cell) cell := by
  cases cell with
  | bytes bytes =>
    have hnumber : Holds a.sizeOfElement (Block.value (F := F) a.typeOfElement (numberOf bytes))
        (.bytes (bytesOf a.sizeOfElement (numberOf bytes))) := .number _ _
    have hself : bytesOf a.sizeOfElement (numberOf bytes) = bytes := by
      rw [← h.2, bytesOf_numberOf]
    rwa [hself] at hnumber
  | block block => exact .same block

/-! ### The elements -/

variable {block : Block F}

theorem reassign_holds (size : Nat) {this value : Block F} (h : reassign this value = .ok block) :
    Holds size value (.block block) := by
  rw [reassign.eq_def] at h
  dsimp only at h
  split at h
  · cases h
  split at h
  · rename_i cls _
    rcases value with ⟨dt, num⟩ | _ | ⟨ptr, kind, boxed⟩ | ⟨b, cls', fields⟩
    · cases h
    · cases h
    · rw [copyValueType.eq_def] at h
      split at h
      · cases ‹Block.object _ = _›
      · split at h
        · rename_i heq hcls
          cases heq
          cases h
          subst hcls
          exact .unboxedFields _ _ _
        · cases h
      · cases h
    · rw [copyValueType] at h
      split at h
      · cases h
        subst_vars
        exact .fields _ _ _ _
      · cases h
  · cases h
    exact .same _

theorem reassign_valid {this value : Block F} (h : reassign this value = .ok block)
    (hthis : BlockValid sys this) (hvalue : BlockValid sys value) : BlockValid sys block := by
  rw [reassign.eq_def] at h
  dsimp only at h
  split at h
  · cases h
  split at h
  · rw [copyValueType.eq_def] at h
    split at h
    · split at h
      · cases h
        exact hthis
      · cases h
    · split at h
      · cases h
        exact hthis
      · cases h
    · cases h
  · cases h
    exact hvalue

/-! ### The bodies of the loops -/

/-- A body makes an element of the target that holds the element of the source, or fails. -/
def BodyHolds (sys : TypeSystem) (a b : HeapArray F)
    (body : Nat → Cell F → Cell F → Option (HResultOr (Cell F))) : Prop :=
  ∀ i src dst, CellValid sys a src → CellValid sys b dst → ∃ r, body i src dst = some r ∧
    ∀ cell, r = .ok cell → Holds b.sizeOfElement (loaded a src) cell ∧ CellValid sys b cell

theorem copyBlock_holds (ha : a.fReference = true) (hb : b.fReference = true) :
    BodyHolds sys a b fun _ => copyBlock := by
  intro i src dst hsrc hdst
  obtain ⟨bytes⟩ | ⟨value⟩ := src
  · exact absurd (hsrc.1.symm.trans ha) (by simp)
  obtain ⟨bytes⟩ | ⟨this⟩ := dst
  · exact absurd (hdst.1.symm.trans hb) (by simp)
  rcases hr : reassign this value with code | block
  · exact ⟨.error code, by simp only [copyBlock, hr], fun _ h => by cases h⟩
  · refine ⟨.ok (.block block), by simp only [copyBlock, hr], fun cell h => ?_⟩
    cases h
    exact ⟨reassign_holds _ hr, hb, reassign_valid hr hdst.2 hsrc.2⟩

structure ElementType (sys : TypeSystem) (desc : TypeDescriptor) : Prop where
  described : ∃ n t, desc = describe sys n t ∧ sys.Valid t

theorem elementType_spec (h : ArrayValid sys a) :
    ∃ desc, elementType sys a = some (.ok desc) ∧ ElementType sys desc := by
  obtain ⟨m, hm⟩ := Nat.exists_eq_succ_of_ne_zero (Nat.pos_iff_ne_zero.mp h.levels_pos)
  refine ⟨describe sys m a.type, ?_, ⟨m, a.type, rfl, h.type_valid⟩⟩
  have hget := getElementType_eq (h := sys.wellKnown.array) (m := m) h.type_valid
  rw [elementType, initializeFromObject, initializeFromType_eq h.type_valid, hm]
  simp only [Option.bind_eq_bind, Option.bind_some, convertToArray, Nat.succ_eq_add_one, hget,
    describe]

theorem initializeFromBlock_spec (h : BlockValid sys block) :
    ∃ r, initializeFromBlock sys block = some r ∧
      ∀ desc, r = .ok desc → sys.Valid desc.handlerCls ∧ sys.Valid desc.type := by
  rcases block with ⟨dt, num⟩ | _ | obj | ⟨b, cls, fields⟩
  · exact h
  · exact ⟨.error .nullReference, rfl, fun _ h => by cases h⟩
  · exact h
  · exact h

variable {desc : TypeDescriptor}

/-- The test of an element has an answer. -/
theorem checkCast_spec (hlinked : sys.Linked) (hlists : Interfaces sys)
    (hdesc : ElementType sys desc) (code : Failure) (h : BlockValid sys block) :
    ∃ r, checkCast sys desc code block = some r := by
  obtain ⟨n, t, rfl, ht⟩ := hdesc.described
  obtain ⟨r, hr, hvalid⟩ := initializeFromBlock_spec h
  rw [checkCast.eq_def]
  split
  · exact ⟨_, rfl⟩
  · rw [hr]
    rcases r with code' | descSrc
    · exact ⟨_, rfl⟩
    · obtain ⟨hcls, htype⟩ := hvalid descSrc rfl
      obtain ⟨b, hb, -⟩ := isInstanceOf_spec hlinked hlists descSrc hcls htype n ht
      simp only [Option.bind_eq_bind, Option.bind_some, hb]
      cases b
      · exact ⟨_, rfl⟩
      · exact ⟨_, rfl⟩

theorem copyReference_holds (hlinked : sys.Linked) (hlists : Interfaces sys)
    (hdesc : ElementType sys desc) (ha : a.fReference = true)
    (hb : b.fReference = true) : BodyHolds sys a b fun _ => copyReference sys desc := by
  intro i src dst hsrc hdst
  obtain ⟨r, hr, hholds⟩ := copyBlock_holds ha hb i src dst hsrc hdst
  obtain ⟨bytes⟩ | ⟨value⟩ := src
  · exact absurd (hsrc.1.symm.trans ha) (by simp)
  obtain ⟨c, hc⟩ := checkCast_spec hlinked hlists hdesc .invalidCast hsrc.2
  rcases c with code | _
  · exact ⟨.error code, by simp [copyReference, hc], fun _ h => by cases h⟩
  · exact ⟨r, by simpa [copyReference, hc] using hr, hholds⟩

variable {elem : Block F}

theorem storeNumber_holds (ha : a.fReference = false)
    (h : storeNumber a elem = .ok cell) :
    Holds a.sizeOfElement elem cell ∧ CellValid sys a cell := by
  rw [storeNumber] at h
  rcases elem with ⟨dt, num⟩ | _ | ⟨ptr, kind, _ | ⟨dt, num⟩ | fields⟩ | ⟨b, cls, fields⟩
  · simp only [fixBoxingReference] at h
    split at h
    · cases h
    · cases h
      exact ⟨.number _ _, ha, length_bytesOf _ _⟩
  · cases h
  · cases h
  · simp only [fixBoxingReference] at h
    split at h
    · cases h
    · cases h
      exact ⟨.unboxed _ _ _ _, ha, length_bytesOf _ _⟩
  · cases h
  · cases h

theorem checkStored_spec (hlinked : sys.Linked) (hlists : Interfaces sys)
    (ha : ArrayValid sys a) (helem : BlockValid sys elem) :
    ∃ r, checkStored sys a elem = some r := by
  obtain ⟨desc, hdesc, helement⟩ := elementType_spec ha
  obtain ⟨c, hc⟩ := checkCast_spec hlinked hlists helement .wrongType helem
  rcases elem with ⟨dt, num⟩ | _ | obj | ⟨b, cls, fields⟩
  · exact ⟨_, rfl⟩
  · exact ⟨_, rfl⟩
  · exact ⟨c, by simpa [checkStored, hdesc] using hc⟩
  · exact ⟨c, by simpa [checkStored, hdesc] using hc⟩

theorem storeToReference_holds (hlinked : sys.Linked) (hlists : Interfaces sys)
    (ha : ArrayValid sys a) (helem : BlockValid sys elem)
    (hcell : CellValid sys a cell) : ∃ r, storeToReference sys a elem cell = some r ∧
      ∀ cell', r = .ok cell' → Holds a.sizeOfElement elem cell' ∧ CellValid sys a cell' := by
  by_cases hreference : a.fReference = false
  · exact ⟨storeNumber a elem, by rw [storeToReference.eq_def, if_pos hreference],
      fun cell' h => storeNumber_holds hreference h⟩
  obtain ⟨bytes⟩ | ⟨obj⟩ := cell
  · exact absurd hcell.1 hreference
  obtain ⟨tested, htested⟩ := checkStored_spec hlinked hlists ha helem
  rw [storeToReference.eq_def, if_neg hreference]
  simp only [Option.bind_eq_bind, htested, Option.bind_some]
  rcases tested with code | _
  · exact ⟨_, rfl, fun _ h => by cases h⟩
  rcases hr : reassign obj elem with code | block
  · exact ⟨.error code, rfl, fun _ h => by cases h⟩
  · refine ⟨.ok (.block block), rfl, fun cell' h => ?_⟩
    cases h
    exact ⟨reassign_holds _ hr, hcell.1, reassign_valid hr hcell.2 helem⟩

theorem loaded_valid (ha : ArrayValid sys a)
    (hcell : CellValid sys a cell) : BlockValid sys (loaded a cell) := by
  cases cell with
  | bytes bytes => exact ha.number hcell.1
  | block block => exact hcell.2

theorem loadFromReference_spec (memory : Bool)
    (hcell : CellValid sys a cell) : ∃ r, loadFromReference a memory cell = some r ∧
      ∀ elem, r = .ok elem → elem = loaded a cell := by
  obtain ⟨bytes⟩ | ⟨block⟩ := cell
  · refine ⟨.ok (.value a.typeOfElement (numberOf bytes)), ?_, fun _ h => by cases h; rfl⟩
    rw [loadFromReference, if_neg (by simp [hcell.1])]
  · rw [loadFromReference.eq_def]
    dsimp only
    rw [if_pos hcell.1]
    split
    · cases memory
      · exact ⟨_, rfl, fun _ h => by cases h⟩
      · exact ⟨_, rfl, fun _ h => by cases h; rfl⟩
    · exact ⟨_, rfl, fun _ h => by cases h; rfl⟩

theorem copyConverted_holds (hlinked : sys.Linked) (hlists : Interfaces sys)
    (hdesc : ElementType sys desc) (ha : ArrayValid sys a)
    (hb : ArrayValid sys b) (memory : Nat → Bool) :
    BodyHolds sys a b fun i => copyConverted sys a b desc (memory i) := by
  intro i src dst hsrc hdst
  obtain ⟨r, hr, hload⟩ := loadFromReference_spec (memory i) hsrc
  rcases r with code | elem
  · exact ⟨.error code, by simp [copyConverted, hr], fun _ h => by cases h⟩
  have helem := hload elem rfl
  have hvalid := loaded_valid ha hsrc
  rw [← helem] at hvalid
  obtain ⟨c, hc⟩ := checkCast_spec hlinked hlists hdesc .invalidCast hvalid
  rcases c with code | _
  · exact ⟨.error code, by simp [copyConverted, hr, hc], fun _ h => by cases h⟩
  obtain ⟨r', hr', hholds⟩ := storeToReference_holds hlinked hlists hb hvalid hdst
  refine ⟨r', by simp [copyConverted, hr, hc, hr'], fun cell h => ?_⟩
  rw [← helem]
  exact hholds cell h

/-! ### The loop -/

/-- The elements that `done` counts have been copied, and everything else is as it was. -/
structure Progress (sys : TypeSystem) (mem mem' : Memory F) (src s dst d : Nat) (done : Nat → Prop) :
    Prop where
  others : ∀ p, p ≠ dst → mem' p = mem p
  header : mem' dst = { mem dst with elements := (mem' dst).elements }
  kept : ∀ x, (∀ k, done k → x ≠ d + k) → (mem' dst).elements x = (mem dst).elements x
  copied : ∀ k, done k → Holds (mem dst).sizeOfElement
    (loaded (mem src) ((mem src).elements (s + k))) ((mem' dst).elements (d + k))
  valid : ∀ x < (mem dst).numOfElements, CellValid sys (mem dst) ((mem' dst).elements x)

/-- The order in which the elements are copied: from the last one on when a range moves up inside an
    array -/
def place (back : Bool) (n i : Nat) : Nat := if back then n - 1 - i else i

/-- The first `m` elements in that order -/
def Before (back : Bool) (n m k : Nat) : Prop := ∃ i < m, i < n ∧ k = place back n i

theorem place_lt {back : Bool} {n i : Nat} (hi : i < n) : place back n i < n := by
  cases back
  · exact hi
  · simp only [place, if_true]
    omega

theorem before_zero (back : Bool) (n k : Nat) : ¬Before back n 0 k := by
  rintro ⟨i, hi, -⟩
  omega

variable {k : Nat}

theorem before_succ {back : Bool} {n i : Nat} (hi : i < n) :
    Before back n (i + 1) k ↔ Before back n i k ∨ k = place back n i := by
  constructor
  · rintro ⟨j, hj, hjn, rfl⟩
    rcases Nat.lt_succ_iff_lt_or_eq.mp hj with hlt | rfl
    · exact .inl ⟨j, hlt, hjn, rfl⟩
    · exact .inr rfl
  · rintro (⟨j, hj, hjn, rfl⟩ | rfl)
    · exact ⟨j, by omega, hjn, rfl⟩
    · exact ⟨i, by omega, hi, rfl⟩

theorem before_all {back : Bool} {n : Nat} (hk : k < n) : Before back n n k := by
  cases back
  · exact ⟨k, hk, hk, rfl⟩
  · refine ⟨n - 1 - k, by omega, by omega, ?_⟩
    simp only [place, if_true]
    omega

section Loop

variable {body : Nat → Cell F → Cell F → Option (HResultOr (Cell F))} {mem : Memory F}
  {src s dst d n : Nat} {back : Bool}

variable {mem' : Memory F}

theorem source_kept {i : Nat}
    (hfree : ∀ j < i, src = dst → s + place back n i ≠ d + place back n j)
    (h : Progress sys mem mem' src s dst d (Before back n i)) :
    (mem' src).elements (s + place back n i) = (mem src).elements (s + place back n i) := by
  by_cases heq : src = dst
  · subst heq
    refine h.kept _ fun k hk => ?_
    obtain ⟨j, hj, -, rfl⟩ := hk
    exact hfree j hj rfl
  · rw [h.others src heq]

theorem get_eq {p x : Nat} {i : Int} (hx : i = x)
    (hlt : x < (mem' p).numOfElements) : get mem' p i = some ((mem' p).elements x) := by
  subst hx
  rw [get, if_pos (by omega), Int.toNat_natCast]

theorem Progress.step {i : Nat} (hi : i < n)
    (h : Progress sys mem mem' src s dst d (Before back n i))
    (hcell : Holds (mem dst).sizeOfElement
      (loaded (mem src) ((mem src).elements (s + place back n i))) cell)
    (hvalid : CellValid sys (mem dst) cell) :
    Progress sys mem (set mem' dst (d + place back n i) cell) src s dst d (Before back n (i + 1)) where
  others := fun p hp => (Function.update_of_ne hp _ _).trans (h.others p hp)
  header := by
    rw [set, Function.update_self]
    conv_lhs => rw [h.header]
  kept := fun x hx => by
    have hne : x ≠ d + place back n i := hx _ ((before_succ hi).mpr (.inr rfl))
    rw [set, Function.update_self]
    refine (Function.update_of_ne hne _ _).trans (h.kept x fun k hk => ?_)
    exact hx k ((before_succ hi).mpr (.inl hk))
  copied := fun k hk => by
    rw [set, Function.update_self]
    by_cases hk' : k = place back n i
    · subst hk'
      simp only [Function.update_self]
      exact hcell
    · have hne : d + k ≠ d + place back n i := by omega
      simp only [Function.update_of_ne hne]
      rcases (before_succ hi).mp hk with hk | hk
      · exact h.copied k hk
      · exact absurd hk hk'
  valid := fun x hx => by
    rw [set, Function.update_self]
    by_cases hx' : x = d + place back n i
    · subst hx'
      simp only [Function.update_self]
      exact hvalid
    · simp only [Function.update_of_ne hx']
      exact h.valid x hx

theorem copyLoop_spec (hbody : BodyHolds sys (mem src) (mem dst) body)
    (hsrc : ArrayValid sys (mem src)) (hs : s + n ≤ (mem src).numOfElements)
    (hd : d + n ≤ (mem dst).numOfElements)
    (hfree : ∀ i < n, ∀ j < i, src = dst → s + place back n i ≠ d + place back n j) {incr : Int}
    (hincr : incr = if back then -1 else 1) :
    ∀ (left i : Nat) (ptrSrc ptrDst : Int) (mem' : Memory F), i + left = n →
      (0 < left → ptrSrc = (s + place back n i : Nat)) →
      (0 < left → ptrDst = (d + place back n i : Nat)) →
      Progress sys mem mem' src s dst d (Before back n i) →
      ∃ hr mem'' m, copyLoop body src dst incr left i ptrSrc ptrDst mem' = some (hr, mem'') ∧
        m ≤ n ∧ (hr = .ok ↔ m = n) ∧ Progress sys mem mem'' src s dst d (Before back n m) := by
  intro left
  induction left with
  | zero =>
    intro i ptrSrc ptrDst mem' hn _ _ hprogress
    exact ⟨.ok, mem', i, rfl, by omega, ⟨fun _ => by omega, fun _ => rfl⟩, hprogress⟩
  | succ left ih =>
    intro i ptrSrc ptrDst mem' hn hptrSrc hptrDst hprogress
    have hi : i < n := by omega
    have hplace : place back n i < n := place_lt hi
    have hheader (p : Nat) : (mem' p).numOfElements = (mem p).numOfElements := by
      by_cases hp : p = dst
      · rw [hp, hprogress.header]
      · rw [hprogress.others p hp]
    have hgetSrc : get mem' src ptrSrc = some ((mem src).elements (s + place back n i)) := by
      rw [get_eq (hptrSrc (Nat.succ_pos left)) (by rw [hheader]; omega),
        source_kept (hfree i hi) hprogress]
    have hgetDst : get mem' dst ptrDst = some ((mem' dst).elements (d + place back n i)) :=
      get_eq (hptrDst (Nat.succ_pos left)) (by rw [hheader]; omega)
    obtain ⟨r, hr, hholds⟩ := hbody i _ _ (hsrc.cells (s + place back n i) (by omega))
      (hprogress.valid (d + place back n i) (by omega))
    rw [copyLoop, hgetSrc, hgetDst]
    simp only [Option.bind_eq_bind, Option.bind_some, hr]
    rcases r with code | cell
    · exact ⟨.failed code, mem', i, rfl, by omega, by simp; omega, hprogress⟩
    obtain ⟨hcell, hcellValid⟩ := hholds cell rfl
    have hnext : 0 < left → (place back n i : Int) + incr = (place back n (i + 1) : Nat) := by
      intro hleft
      cases back
      · simp only [place, hincr, Bool.false_eq_true, if_false]
        omega
      · simp only [place, hincr, if_true]
        omega
    refine ih (i + 1) _ _ _ (by omega) (fun hleft => ?_) (fun hleft => ?_) ?_
    · have := hnext hleft
      have := hptrSrc (Nat.succ_pos left)
      omega
    · have := hnext hleft
      have := hptrDst (Nat.succ_pos left)
      omega
    · rw [hptrDst (Nat.succ_pos left), Int.toNat_natCast]
      exact hprogress.step hi hcell hcellValid

end Loop

/-! ### `Copy` -/

def InRange (mem : Memory F) (src : Nat) (indexSrc : Int) (dst : Nat) (indexDst length : Int) : Prop :=
  0 ≤ length ∧ 0 ≤ indexSrc ∧ 0 ≤ indexDst ∧ indexSrc + length ≤ (mem src).numOfElements ∧
    indexDst + length ≤ (mem dst).numOfElements

def movesUp (mem : Memory F) (src : Nat) (indexSrc : Int) (dst : Nat) (indexDst : Int) : Bool :=
  src == dst && (mem src).fReference && decide (indexSrc < indexDst)

theorem progress_none {mem : Memory F} {src s dst d : Nat} {done : Nat → Prop}
    (hdst : ArrayValid sys (mem dst)) (hdone : ∀ k, ¬done k) :
    Progress sys mem mem src s dst d done where
  others := fun _ _ => rfl
  header := rfl
  kept := fun _ _ => rfl
  copied := fun k hk => absurd hk (hdone k)
  valid := hdst.cells

theorem before_iff {back : Bool} {n : Nat} : Before back n n k ↔ k < n := by
  refine ⟨?_, before_all⟩
  rintro ⟨i, -, hi, rfl⟩
  exact place_lt hi

theorem place_false (n i : Nat) : place false n i = i := rfl

theorem place_true (n i : Nat) : place true n i = n - 1 - i := rfl

section Ranges

variable {mem : Memory F} {src dst s d n : Nat} (hsrc : ArrayValid sys (mem src))
  (hdst : ArrayValid sys (mem dst)) (hs : s + n ≤ (mem src).numOfElements)
  (hd : d + n ≤ (mem dst).numOfElements)

include hsrc hdst hs hd

omit hsrc hs in
theorem progress_self {back : Bool} (hself : src = dst ∧ s = d) :
    Progress sys mem mem src s dst d (Before back n n) := by
  obtain ⟨rfl, rfl⟩ := hself
  refine ⟨fun _ _ => rfl, rfl, fun _ _ => rfl, fun k hk => ?_, hdst.cells⟩
  exact (hdst.cells (s + k) (by have := before_iff.mp hk; omega)).holds

theorem progress_memmove {back : Bool} (hsame : sameHeader (mem src) (mem dst) = true)
    (hbytes : (mem src).fReference = false) : ∃ mem', memmove mem src s dst d n = some mem' ∧
      Progress sys mem mem' src s dst d (Before back n n) := by
  obtain ⟨hreference, hsize⟩ := hsrc.same hdst hsame
  have hvalid : ∀ i < n, CellValid sys (mem dst) ((mem src).elements (s + i)) := by
    intro i hi
    have hcell := hsrc.cells (s + i) (by omega)
    rcases hc : (mem src).elements (s + i) with bytes | block
    · rw [hc] at hcell
      exact ⟨hreference.symm.trans hbytes, hcell.2.trans hsize⟩
    · rw [hc] at hcell
      exact absurd (hcell.1.symm.trans hbytes) (by simp)
  refine ⟨_, by rw [memmove, if_pos ⟨hs, hd⟩], ?_, ?_, ?_, ?_, ?_⟩
  · exact fun p hp => Function.update_of_ne hp _ _
  · rw [Function.update_self]
  · intro x hx
    rw [Function.update_self]
    dsimp only
    refine overlay_outside ?_
    by_contra hin
    exact hx (x - d) (before_iff.mpr (by omega)) (by omega)
  · intro k hk
    have hkn := before_iff.mp hk
    rw [Function.update_self]
    dsimp only
    rw [overlay_inside (by omega) (by omega), Nat.add_sub_cancel_left, ← hsize]
    exact (hsrc.cells (s + k) (by omega)).holds
  · intro x hx
    rw [Function.update_self]
    dsimp only
    by_cases hin : d ≤ x ∧ x < d + n
    · rw [overlay_inside hin.1 hin.2]
      exact hvalid (x - d) (by omega)
    · rw [overlay_outside (by omega)]
      exact hdst.cells x hx

theorem copyLoop_start {body : Nat → Cell F → Cell F → Option (HResultOr (Cell F))} (hn : 0 < n)
    (hbody : BodyHolds sys (mem src) (mem dst) body) (back : Bool)
    (hfree : src = dst → if back then s < d else d < s) :
    ∃ hr mem' m, copyLoop body src dst (if back then -1 else 1) n 0
        (if back then (s : Int) + (n - 1) else s) (if back then (d : Int) + (n - 1) else d) mem
        = some (hr, mem') ∧
      m ≤ n ∧ (hr = .ok ↔ m = n) ∧ Progress sys mem mem' src s dst d (Before back n m) := by
  refine copyLoop_spec hbody hsrc hs hd ?_ rfl n 0 _ _ mem (Nat.zero_add n) (fun _ => ?_)
    (fun _ => ?_) (progress_none hdst (before_zero back n))
  · intro i hi j hj heq
    have horder := hfree heq
    cases back
    · simp only [Bool.false_eq_true, if_false] at horder
      rw [place_false, place_false]
      omega
    · simp only [if_true] at horder
      rw [place_true, place_true]
      omega
  · cases back
    · rfl
    · rw [place_true, if_pos rfl]
      omega
  · cases back
    · rfl
    · rw [place_true, if_pos rfl]
      omega

theorem copy_inRange (hlinked : sys.Linked) (hlists : Interfaces sys) (memory : Nat → Bool)
    (hn : 0 < n) : ∃ hr mem' m,
      (if src = dst ∧ (s : Int) = d then some (.ok, mem)
        else if sameHeader (mem src) (mem dst) then
          if (mem src).fReference = false then do
            let mem ← memmove mem src s dst d n
            some (.ok, mem)
          else if src = dst ∧ (s : Int) < d then
            copyLoop (fun _ => copyBlock) src dst (-1) n 0 (s + ((n : Int) - 1)) (d + ((n : Int) - 1)) mem
          else copyLoop (fun _ => copyBlock) src dst 1 n 0 s d mem
        else do
          match ← elementType sys (mem dst) with
          | .error code => some (.failed code, mem)
          | .ok descDst =>
              let body :=
                if (mem src).fReference && (mem dst).fReference then
                  fun _ => copyReference sys descDst
                else fun i => copyConverted sys (mem src) (mem dst) descDst (memory i)
              copyLoop body src dst 1 n 0 s d mem) = some (hr, mem') ∧
      m ≤ n ∧ (hr = .ok ↔ m = n) ∧
      Progress sys mem mem' src s dst d (Before (movesUp mem src s dst d) n m) := by
  by_cases hself : src = dst ∧ (s : Int) = d
  · rw [if_pos hself]
    exact ⟨.ok, mem, n, rfl, Nat.le_refl n, by simp,
      progress_self hdst hd ⟨hself.1, by omega⟩⟩
  rw [if_neg hself]
  by_cases hsame : sameHeader (mem src) (mem dst) = true
  · rw [if_pos hsame]
    by_cases hbytes : (mem src).fReference = false
    · obtain ⟨mem', hmem', hprogress⟩ := progress_memmove hsrc hdst hs hd hsame hbytes
      refine ⟨.ok, mem', n, ?_, Nat.le_refl n, by simp, hprogress⟩
      rw [if_pos hbytes, hmem']
      rfl
    have hreference : (mem src).fReference = true := by simpa using hbytes
    have hbody : BodyHolds sys (mem src) (mem dst) fun _ => copyBlock :=
      copyBlock_holds hreference ((hsrc.same hdst hsame).1.symm.trans hreference)
    rw [if_neg hbytes]
    by_cases hup : src = dst ∧ (s : Int) < d
    · have hback : movesUp mem src s dst d = true := by
        rw [movesUp, hreference, beq_iff_eq.mpr hup.1, decide_eq_true hup.2]
        rfl
      have hloop := copyLoop_start hsrc hdst hs hd hn hbody true fun _ => by
        simpa using hup.2
      rw [if_pos hup, hback]
      exact hloop
    · have hback : movesUp mem src s dst d = false := by
        simp only [movesUp, hreference, Bool.and_true, Bool.and_eq_false_iff, beq_eq_false_iff_ne,
          decide_eq_false_iff_not]
        tauto
      have hloop := copyLoop_start hsrc hdst hs hd hn hbody false fun heq => by
        simp only [Bool.false_eq_true, if_false]
        have h₁ : ¬((s : Int) = d) := fun h => hself ⟨heq, h⟩
        have h₂ : ¬((s : Int) < d) := fun h => hup ⟨heq, h⟩
        omega
      rw [if_neg hup, hback]
      exact hloop
  · have hne : src ≠ dst := by
      rintro rfl
      exact hsame (by simp [sameHeader])
    have hback : movesUp mem src s dst d = false := by simp [movesUp, hne]
    obtain ⟨desc, hdesc, helement⟩ := elementType_spec hdst
    rw [if_neg hsame, hdesc, hback]
    simp only [Option.bind_eq_bind, Option.bind_some]
    have hbody : BodyHolds sys (mem src) (mem dst)
        (if (mem src).fReference && (mem dst).fReference then fun _ => copyReference sys desc
          else fun i => copyConverted sys (mem src) (mem dst) desc (memory i)) := by
      by_cases hboth : ((mem src).fReference && (mem dst).fReference) = true
      · rw [if_pos hboth]
        obtain ⟨ha, hb⟩ := Bool.and_eq_true_iff.mp hboth
        exact copyReference_holds hlinked hlists helement ha hb
      · rw [if_neg hboth]
        exact copyConverted_holds hlinked hlists helement hsrc hdst memory
    exact copyLoop_start hsrc hdst hs hd hn hbody false fun heq => absurd heq hne

end Ranges

/-- `Copy`, where the sums of the indices and the length do not leave the range of an `int`: nothing
    is copied, or the ranges are inside of the arrays and the elements are copied up to one that the
    target cannot take. -/
theorem copy_bounds_and_order (hlinked : sys.Linked) (hlists : Interfaces sys) {mem : Memory F} {src dst : Nat}
    (hsrc : ArrayValid sys (mem src)) (hdst : ArrayValid sys (mem dst)) (memory : Nat → Bool)
    {indexSrc indexDst length : Int} (hindexSrc : -2 ^ 31 ≤ indexSrc) (hindexDst : -2 ^ 31 ≤ indexDst)
    (hlength : -2 ^ 31 ≤ length) (hsumSrc : length + indexSrc < 2 ^ 31)
    (hsumDst : length + indexDst < 2 ^ 31) :
    ∃ hr mem', copy sys memory mem src indexSrc dst indexDst length = some (hr, mem') ∧
      (length = 0 → hr = .ok ∧ mem' = mem) ∧
      (length ≠ 0 → ¬InRange mem src indexSrc dst indexDst length →
        hr = .failed .outOfRange ∧ mem' = mem) ∧
      (length ≠ 0 → InRange mem src indexSrc dst indexDst length → ∃ m ≤ length.toNat,
        (hr = .ok ↔ m = length.toNat) ∧
        Progress sys mem mem' src indexSrc.toNat dst indexDst.toNat
          (Before (movesUp mem src indexSrc dst indexDst) length.toNat m)) := by
  by_cases hzero : length = 0
  · refine ⟨.ok, mem, by rw [copy, if_pos hzero], fun _ => ⟨rfl, rfl⟩, ?_, ?_⟩
    · exact fun h => absurd hzero h
    · exact fun h => absurd hzero h
  have hnumSrc := hsrc.numOfElements_lt
  have hnumDst := hdst.numOfElements_lt
  by_cases hneg : length < 0 ∨ indexSrc < 0 ∨ indexDst < 0
  · have hout : ¬InRange mem src indexSrc dst indexDst length := by
      rintro ⟨h₁, h₂, h₃, -, -⟩
      omega
    refine ⟨.failed .outOfRange, mem, ?_, fun h => absurd h hzero, fun _ _ => ⟨rfl, rfl⟩,
      fun _ h => absurd h hout⟩
    rw [copy, if_neg hzero, if_pos (by tauto)]
  have hwrapSrc : int32 (length + indexSrc) = length + indexSrc :=
    int32_eq_self (by omega) hsumSrc
  have hwrapDst : int32 (length + indexDst) = length + indexDst :=
    int32_eq_self (by omega) hsumDst
  have hwrapNumSrc : int32 (mem src).numOfElements = (mem src).numOfElements :=
    int32_eq_self (by omega) (by omega)
  have hwrapNumDst : int32 (mem dst).numOfElements = (mem dst).numOfElements :=
    int32_eq_self (by omega) (by omega)
  by_cases hrange : InRange mem src indexSrc dst indexDst length
  · obtain ⟨-, hs0, hd0, hs1, hd1⟩ := hrange
    obtain ⟨n, hn⟩ : ∃ n : Nat, length = n := ⟨length.toNat, by omega⟩
    obtain ⟨s, hs⟩ : ∃ s : Nat, indexSrc = s := ⟨indexSrc.toNat, by omega⟩
    obtain ⟨d, hd⟩ : ∃ d : Nat, indexDst = d := ⟨indexDst.toNat, by omega⟩
    obtain ⟨hr, mem', m, hcopy, hm, hok, hprogress⟩ := copy_inRange hsrc hdst
      (n := n) (s := s) (d := d) (by omega) (by omega) hlinked hlists memory (by omega)
    subst hn hs hd
    refine ⟨hr, mem', ?_, fun h => absurd h hzero, fun _ h => absurd ⟨by omega, hs0, hd0, hs1, hd1⟩ h,
      fun _ _ => ⟨m, hm, hok, hprogress⟩⟩
    rw [copy, if_neg hzero, if_neg]
    · exact hcopy
    · rw [hwrapSrc, hwrapDst, hwrapNumSrc, hwrapNumDst]
      omega
  · refine ⟨.failed .outOfRange, mem, ?_, fun h => absurd h hzero, fun _ _ => ⟨rfl, rfl⟩,
      fun _ h => absurd h hrange⟩
    rw [copy, if_neg hzero, if_pos ?_]
    rw [hwrapSrc, hwrapDst, hwrapNumSrc, hwrapNumDst]
    rw [InRange] at hrange
    omega

def instanceOf (ptr : Nat) : Option TypeDefIndex → Block Unit
  | none => .null
  | some cls => .object ⟨ptr, .instance cls, .nothing⟩

def row (type : TypeDefIndex) (cls : Nat → Option TypeDefIndex) : HeapArray Unit where
  levels := 1
  type := type
  typeOfElement := .classType
  sizeOfElement := 12
  fReference := true
  numOfElements := 3
  elements := fun i => .block (instanceOf i (cls i))

theorem row_valid {type : TypeDefIndex} {cls : Nat → Option TypeDefIndex}
    (htype : type = ⟨1, 1⟩ ∨ type = ⟨1, 2⟩)
    (hcls : ∀ i t, cls i = some t → smallSystem.Valid t) : ArrayValid smallSystem (row type cls) where
  numOfElements_lt := Nat.lt_of_lt_of_le (Nat.lt_succ_self 3) (by decide)
  levels_pos := Nat.one_pos
  type_valid := by
    rcases htype with rfl | rfl
    · exact ⟨_, rfl⟩
    · exact ⟨_, rfl⟩
  layout := by
    rcases htype with rfl | rfl
    · exact ⟨_, rfl, rfl, rfl, rfl⟩
    · exact ⟨_, rfl, rfl, rfl, rfl⟩
  number := fun h => by cases h
  cells := fun i _ => by
    refine ⟨rfl, ?_⟩
    rcases hi : cls i with _ | t
    · exact trivial
    refine ⟨_, congrArg (Option.map _) (initializeFromType_eq (hcls i t hi)), ?_⟩
    rintro _ ⟨⟩
    exact ⟨hcls i t hi, hcls i t hi⟩

/-- Two elements move up by one inside their array. -/
theorem copy_bounds_and_order_up :
    let mem : Memory Unit := fun _ => row ⟨1, 1⟩ fun _ => some ⟨1, 2⟩
    ∃ hr mem', copy smallSystem (fun _ => true) mem 0 0 0 1 2 = some (hr, mem') ∧
      ∃ m ≤ 2, (hr = .ok ↔ m = 2) ∧ Progress smallSystem mem mem' 0 0 0 1 (Before true 2 m) := by
  intro mem
  have hvalid : ArrayValid smallSystem (mem 0) :=
    row_valid (.inl rfl) fun _ _ h => ⟨_, by cases h; rfl⟩
  obtain ⟨hr, mem', hcopy, -, -, hcopied⟩ := copy_bounds_and_order
    smallSystem_linked smallSystem_interfaces hvalid hvalid (fun _ => true)
    (by decide : -2 ^ 31 ≤ (0 : Int)) (by decide : -2 ^ 31 ≤ (1 : Int))
    (by decide : -2 ^ 31 ≤ (2 : Int)) (by decide) (by decide)
  exact ⟨hr, mem', hcopy, hcopied (by decide) ⟨by decide, by decide, by decide, by decide, by decide⟩⟩

/-- A copy of no elements succeeds with indices beyond the array, and a copy that fails at its second
    element has replaced the first one. -/
theorem failed_copy_is_partial :
    (∃ mem : Memory Unit, ArrayValid smallSystem (mem 0) ∧
      copy smallSystem (fun _ => true) mem 0 5 0 5 0 = some (.ok, mem) ∧
      ¬5 + 0 ≤ (mem 0).numOfElements) ∧
    ∃ mem mem' : Memory Unit, ArrayValid smallSystem (mem 0) ∧ ArrayValid smallSystem (mem 1) ∧
      copy smallSystem (fun _ => true) mem 0 0 1 0 2 = some (.failed .invalidCast, mem') ∧
      (mem 1).elements 0 = .block .null ∧
      (mem' 1).elements 0 = .block (.object ⟨0, .instance ⟨1, 2⟩, .nothing⟩) := by
  have hempty : ArrayValid smallSystem (row ⟨1, 2⟩ fun _ => none) :=
    row_valid (.inr rfl) fun _ _ h => by cases h
  have hmixed : ArrayValid smallSystem
      (row ⟨1, 1⟩ fun i => if i = 0 then some ⟨1, 2⟩ else some ⟨1, 1⟩) := by
    refine row_valid (.inl rfl) fun i t h => ?_
    split at h
    · exact ⟨_, by cases h; rfl⟩
    · exact ⟨_, by cases h; rfl⟩
  refine ⟨⟨fun _ => row ⟨1, 2⟩ fun _ => none, hempty, rfl, by decide⟩, ?_⟩
  let mem : Memory Unit := fun p => if p = 0
    then row ⟨1, 1⟩ fun i => if i = 0 then some ⟨1, 2⟩ else some ⟨1, 1⟩
    else row ⟨1, 2⟩ fun _ => none
  refine ⟨mem, set mem 1 0 (.block (.object ⟨0, .instance ⟨1, 2⟩, .nothing⟩)), hmixed, hempty, ?_, rfl,
    rfl⟩
  rw [copy, if_neg (by decide), if_neg (by decide), if_neg (by decide), if_neg (by decide)]
  rfl

end TinyClr.ArrayCopy
