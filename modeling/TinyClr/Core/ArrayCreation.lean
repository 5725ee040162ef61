import TinyClr.Core.FieldLayout
import TinyClr.Core.TypeCast

/-!
# New arrays

`CLR_RT_HeapBlock_Array::CreateInstance` and `ClearElements`
(`CLR/Core/CLR_RT_HeapBlock_Array.cpp`) with `ExtractHeapBlocksForArray` (`CLR/Core/Execution.cpp`).

An array is its header, the size of its heap block, and what its elements hold.  An access outside
of the heap block is a fault, `none`.  `NewObjectFromIndex` is a parameter.
-/

namespace TinyClr.ArrayCreation

open FieldLayout

/-! ### Sizes -/

/-- `m_sizeInBytes` of `c_CLR_RT_DataTypeLookup`; 0 stands for `c_NA`. -/
def sizeInBytes : DataType → UInt8
  | .boolean | .i1 | .u1 => 1
  | .char | .i2 | .u2 => 2
  | .i4 | .u4 | .r4 => 4
  | .i8 | .u8 | .r8 => 8
  | .datetime | .timespan | .string | .object | .classType | .valuetype | .szarray | .weakclass
  | .delegateHead => 12
  | _ => 0

def totLength (dt : DataType) (length : UInt32) : UInt32 := 20 + length * (sizeInBytes dt).toUInt32

def lengthHB (dt : DataType) (length : UInt32) : UInt32 := (totLength dt length + 11) / 12

/-! ### Arrays -/

/-- `CLR_RT_HeapBlock_Array`; `blocks` is the size of its heap block. -/
structure HeapArray where
  blocks : Nat
  reflex : Reflection TypeDefIndex
  numOfElements : UInt32
  typeOfElement : DataType
  sizeOfElement : UInt8
  fReference : Bool
  elements : Nat → Block

namespace HeapArray

variable (newObject : Heap → TypeDefIndex → HResultOr Block × Heap)

def size (a : HeapArray) : Nat := a.blocks * sizeofHeapBlock

def getElement (a : HeapArray) (index : UInt32) : Nat :=
  sizeofHeapBlockArray + (a.sizeOfElement.toUInt32 * index).toNat

def set (a : HeapArray) (index : Nat) (block : Block) : HeapArray :=
  { a with elements := Function.update a.elements index block }

/-- `ZeroFill` of `cleared` bytes from the element at `index` on -/
def zeroFill (a : HeapArray) (index cleared : Nat) : HeapArray where
  blocks := a.blocks
  reflex := a.reflex
  numOfElements := a.numOfElements
  typeOfElement := a.typeOfElement
  sizeOfElement := a.sizeOfElement
  fReference := a.fReference
  elements := fun i =>
    if index ≤ i ∧ (i - index) * a.sizeOfElement.toNat < cleared then .clear else a.elements i

/-- The loop of `ClearElements` over `length` elements; `ptr` points to the one at `index`. -/
def clearLoop (dt : DataType) (fAllocate : Bool) :
    Nat → HeapArray → Nat → Nat → Heap → Option (HResult × HeapArray × Heap)
  | 0, a, _, _, heap => some (.ok, a, heap)
  | length + 1, a, ptr, index, heap =>
      if ptr + sizeofHeapBlock > a.size then none
      else
        let a := a.set index (.data dt)
        if fAllocate then
          match newObject heap a.reflex.type with
          | (.error code, heap) => some (.failed code, a, heap)
          | (.ok block, heap) =>
              clearLoop dt fAllocate length (a.set index block) (ptr + sizeofHeapBlock) (index + 1) heap
        else clearLoop dt fAllocate length a (ptr + sizeofHeapBlock) (index + 1) heap

/-- `ClearElements`, for an `index` and a `length` that are not negative -/
def clearElements (a : HeapArray) (index length : UInt32) (heap : Heap) :
    Option (HResult × HeapArray × Heap) :=
  let data := a.getElement index
  let cleared := (length * a.sizeOfElement.toUInt32).toNat
  if data + cleared > a.size then none
  else
    let a := a.zeroFill index.toNat cleared
    if a.fReference then
      let fAllocate := a.reflex.levels = 1 ∧ a.typeOfElement = .valuetype
      let dt :=
        match a.typeOfElement with
        | .valuetype | .classType | .weakclass => .object
        | dt => dt
      clearLoop newObject dt fAllocate length.toNat a data index.toNat heap
    else some (.ok, a, heap)

end HeapArray

def extractHeapBlocksForArray (td : TypeDefRecord) (length : UInt32)
    (reflex : Reflection TypeDefIndex) (heap : Heap) : Option HeapArray × Heap :=
  let dt := td.dataType
  let lengthHB := lengthHB dt length
  if lengthHB.toNat > HB_MaxSize then (none, heap)
  else
    match heap.extract with
    | (false, heap) => (none, heap)
    | (true, heap) =>
        (some
          { blocks := lengthHB.toNat
            reflex := reflex
            numOfElements := length
            typeOfElement := dt
            sizeOfElement := sizeInBytes dt
            fReference := !dt.numeric
            elements := fun _ => .clear }, heap)

/-- What `CreateInstance` returns, and what it leaves in `reference` -/
structure Created where
  hr : HResult
  reference : Option HeapArray
  heap : Heap

/-- The type of the elements, `cls` of `CreateInstance` -/
def elementType (sys : TypeSystem) (reflex : Reflection TypeDefIndex) : TypeDefIndex :=
  if reflex.levels = 1 then reflex.type else sys.wellKnown.array

def createInstance (newObject : Heap → TypeDefIndex → HResultOr Block × Heap) (sys : TypeSystem)
    (heap : Heap) (length : UInt32) (reflex : Reflection TypeDefIndex) : Option Created :=
  if length.toInt32 < 0 then some ⟨.failed .outOfRange, none, heap⟩
  else if reflex.kind ≠ .type then some ⟨.failed .wrongType, none, heap⟩
  else
    match sys.typeDef (elementType sys reflex) with
    | none => some ⟨.failed .wrongType, none, heap⟩
    | some td =>
        if sizeInBytes td.dataType = 0 then some ⟨.failed .wrongType, none, heap⟩
        else
          match extractHeapBlocksForArray td length reflex heap with
          | (none, heap) => some ⟨.failed .outOfMemory, none, heap⟩
          | (some pArray, heap) =>
              (pArray.clearElements newObject 0 length heap).map fun r => ⟨r.1, some r.2.1, r.2.2⟩

/-! ### What an array needs -/

section Sizes

variable {dt : DataType} {length : UInt32}

theorem numeric_of_sizeInBytes_ne (h : sizeInBytes dt ≠ 12) (h' : sizeInBytes dt ≠ 0) :
    dt.numeric = true := by
  cases dt <;> first | rfl | exact absurd rfl h | exact absurd rfl h'

/-- The length in heap blocks is the one that is needed, unless the sum wraps around. -/
theorem lengthHB_eq (h : length.toNat * (sizeInBytes dt).toNat + 31 < 2 ^ 32) :
    (lengthHB dt length).toNat = (length.toNat * (sizeInBytes dt).toNat + 31) / 12 := by
  simp only [lengthHB, totLength, UInt32.toNat_div, UInt32.toNat_add, UInt32.toNat_mul,
    UInt8.toNat_toUInt32, UInt32.reduceToNat]
  omega

end Sizes

/-- The heap block of an array covers its elements, and its size has not wrapped around. -/
structure HeapArray.Covers (a : HeapArray) (length : UInt32) : Prop where
  numOfElements : a.numOfElements = length
  span : sizeofHeapBlockArray + length.toNat * a.sizeOfElement.toNat ≤ a.size
  element : ∀ i < a.numOfElements, a.getElement i + a.sizeOfElement.toNat ≤ a.size
  blocks : a.blocks = (length.toNat * a.sizeOfElement.toNat + 31) / 12

/-- The request passes all tests of `CreateInstance`, and there is memory for it. -/
structure Accepted (sys : TypeSystem) (heap : Heap) (length : UInt32)
    (reflex : Reflection TypeDefIndex) (td : TypeDefRecord) : Prop where
  nonneg : ¬ length.toInt32 < 0
  kind : reflex.kind = .type
  type : sys.typeDef (elementType sys reflex) = some td
  sized : sizeInBytes td.dataType ≠ 0
  le : (lengthHB td.dataType length).toNat ≤ HB_MaxSize
  room : heap.extract.1 = true

/-! ### Filling an array -/

section Filling

variable {newObject : Heap → TypeDefIndex → HResultOr Block × Heap}

structure SameHeader (a a' : HeapArray) : Prop where
  blocks : a'.blocks = a.blocks
  numOfElements : a'.numOfElements = a.numOfElements
  sizeOfElement : a'.sizeOfElement = a.sizeOfElement

theorem SameHeader.rfl {a : HeapArray} : SameHeader a a := ⟨Eq.refl _, Eq.refl _, Eq.refl _⟩

theorem SameHeader.size {a a' : HeapArray} (h : SameHeader a a') : a'.size = a.size := by
  rw [HeapArray.size, h.blocks, HeapArray.size]

theorem SameHeader.of_set {a a' : HeapArray} {index : Nat} {block : Block}
    (h : SameHeader (a.set index block) a') : SameHeader a a' :=
  ⟨h.blocks, h.numOfElements, h.sizeOfElement⟩

/-- What is left of an array has the same header, and the loop stays inside an array that is large
    enough. -/
theorem clearLoop_spec (dt : DataType) (fAllocate : Bool) :
    ∀ (length : Nat) (a : HeapArray) (ptr index : Nat) (heap : Heap),
      (∀ r, a.clearLoop newObject dt fAllocate length ptr index heap = some r → SameHeader a r.2.1) ∧
      (ptr + sizeofHeapBlock * length ≤ a.size →
        ∃ r, a.clearLoop newObject dt fAllocate length ptr index heap = some r) := by
  intro length
  induction length with
  | zero =>
    intro a ptr index heap
    refine ⟨fun r hr => ?_, fun _ => ⟨_, Eq.refl _⟩⟩
    obtain rfl := Option.some.inj hr
    exact SameHeader.rfl
  | succ length ih =>
    intro a ptr index heap
    have hnext : ptr + sizeofHeapBlock * (length + 1) ≤ a.size → ¬ ptr + sizeofHeapBlock > a.size ∧
        ptr + sizeofHeapBlock + sizeofHeapBlock * length ≤ a.size := by
      intro h
      rw [Nat.mul_add, Nat.mul_one] at h
      omega
    rw [HeapArray.clearLoop]
    by_cases hptr : ptr + sizeofHeapBlock > a.size
    · rw [if_pos hptr]
      exact ⟨fun r hr => absurd hr (by simp), fun h => absurd hptr (hnext h).1⟩
    rw [if_neg hptr]
    dsimp only
    cases fAllocate with
    | false =>
      obtain ⟨hheader, hruns⟩ := ih (a.set index (.data dt)) (ptr + sizeofHeapBlock)
        (index + 1) heap
      exact ⟨fun r hr => (hheader r hr).of_set, fun h => hruns (hnext h).2⟩
    | true =>
      rcases hnew : newObject heap a.reflex.type with ⟨_ | block, heap'⟩
      · have hreflex : (a.set index (.data dt)).reflex.type = a.reflex.type := rfl
        simp only [hreflex, hnew, if_true]
        refine ⟨fun r hr => ?_, fun _ => ⟨_, Eq.refl _⟩⟩
        obtain rfl := Option.some.inj hr
        exact ⟨Eq.refl _, Eq.refl _, Eq.refl _⟩
      · have hreflex : (a.set index (.data dt)).reflex.type = a.reflex.type := rfl
        simp only [hreflex, hnew, if_true]
        obtain ⟨hheader, hruns⟩ := ih ((a.set index (.data dt)).set index block)
          (ptr + sizeofHeapBlock) (index + 1) heap'
        exact ⟨fun r hr => (hheader r hr).of_set.of_set, fun h => hruns (hnext h).2⟩

theorem clearElements_header {a : HeapArray} {index length : UInt32} {heap : Heap}
    {r : HResult × HeapArray × Heap} (h : a.clearElements newObject index length heap = some r) :
    SameHeader a r.2.1 := by
  rw [HeapArray.clearElements] at h
  dsimp only at h
  split at h
  · exact absurd h (by simp)
  split at h
  · have hheader := (clearLoop_spec _ _ _ _ _ _ _).1 r h
    exact ⟨hheader.blocks, hheader.numOfElements, hheader.sizeOfElement⟩
  · obtain rfl := Option.some.inj h
    exact ⟨Eq.refl _, Eq.refl _, Eq.refl _⟩

theorem clearElements_runs (newObject : Heap → TypeDefIndex → HResultOr Block × Heap)
    {a : HeapArray} {length : UInt32} (heap : Heap)
    (hspan : sizeofHeapBlockArray + length.toNat * a.sizeOfElement.toNat ≤ a.size)
    (hfits : length.toNat * a.sizeOfElement.toNat < 2 ^ 32)
    (href : a.fReference = true → a.sizeOfElement = 12) :
    ∃ r, a.clearElements newObject 0 length heap = some r := by
  have hdata : a.getElement 0 = sizeofHeapBlockArray := by
    simp only [HeapArray.getElement, UInt32.mul_zero, UInt32.toNat_zero, Nat.add_zero]
  have hcleared : (length * a.sizeOfElement.toUInt32).toNat =
      length.toNat * a.sizeOfElement.toNat := by
    rw [UInt32.toNat_mul, UInt8.toNat_toUInt32, Nat.mod_eq_of_lt hfits]
  rw [HeapArray.clearElements]
  dsimp only
  rw [hcleared, hdata, if_neg (by omega)]
  split
  next hreference =>
    refine (clearLoop_spec _ _ _ _ _ _ _).2 ?_
    have htwelve : a.sizeOfElement.toNat = sizeofHeapBlock := by
      rw [href hreference]
      rfl
    rw [htwelve, Nat.mul_comm] at hspan
    exact hspan
  · exact ⟨_, Eq.refl _⟩

end Filling

/-! ### Requests -/

section Requests

variable (newObject : Heap → TypeDefIndex → HResultOr Block × Heap) {sys : TypeSystem} {heap : Heap}
  {length : UInt32} {reflex : Reflection TypeDefIndex} {td : TypeDefRecord}

theorem createInstance_refused (h : ∀ td, ¬ Accepted sys heap length reflex td) :
    ∃ r, createInstance newObject sys heap length reflex = some r ∧ r.hr ≠ .ok ∧
      r.reference = none := by
  rw [createInstance]
  by_cases hnonneg : length.toInt32 < 0
  · exact ⟨_, if_pos hnonneg, by simp, rfl⟩
  by_cases hkind : reflex.kind = .type
  · rw [if_neg hnonneg, if_neg (not_not_intro hkind)]
    rcases htype : sys.typeDef (elementType sys reflex) with _ | td
    · exact ⟨_, rfl, by simp, rfl⟩
    by_cases hsized : sizeInBytes td.dataType = 0
    · exact ⟨_, if_pos hsized, by simp, rfl⟩
    dsimp only
    rw [if_neg hsized, extractHeapBlocksForArray]
    by_cases hle : (lengthHB td.dataType length).toNat > HB_MaxSize
    · rw [if_pos hle]
      exact ⟨_, rfl, by simp, rfl⟩
    rw [if_neg hle]
    rcases hroom : heap.extract with ⟨_ | _, heap'⟩
    · exact ⟨_, rfl, by simp, rfl⟩
    · exact absurd ⟨hnonneg, hkind, htype, hsized, Nat.le_of_not_lt hle, by rw [hroom]⟩ (h td)
  · exact ⟨_, by rw [if_neg hnonneg, if_pos hkind], by simp, rfl⟩

theorem createInstance_accepted (h : Accepted sys heap length reflex td) :
    ∃ a : HeapArray, a.numOfElements = length ∧ a.blocks = (lengthHB td.dataType length).toNat ∧
      a.sizeOfElement = sizeInBytes td.dataType ∧ a.fReference = !td.dataType.numeric ∧
      createInstance newObject sys heap length reflex =
        (a.clearElements newObject 0 length heap.extract.2).map fun r =>
          ⟨r.1, some r.2.1, r.2.2⟩ := by
  refine ⟨⟨_, reflex, length, td.dataType, _, _, fun _ => .clear⟩, rfl, rfl, rfl, rfl, ?_⟩
  rw [createInstance, if_neg h.nonneg, if_neg (not_not_intro h.kind), h.type]
  dsimp only
  rw [if_neg h.sized, extractHeapBlocksForArray]
  rw [if_neg (Nat.not_lt.mpr h.le)]
  have hroom := h.room
  rcases hextract : heap.extract with ⟨_ | _, heap'⟩
  · rw [hextract] at hroom
    exact absurd hroom (by simp)
  · rfl

theorem covers_of_lengthHB {a : HeapArray} (hnum : a.numOfElements = length)
    (hblocks : a.blocks = (lengthHB td.dataType length).toNat)
    (hsize : a.sizeOfElement = sizeInBytes td.dataType)
    (hfits : length.toNat * (sizeInBytes td.dataType).toNat + 31 < 2 ^ 32) : a.Covers length := by
  have hspan : sizeofHeapBlockArray + length.toNat * a.sizeOfElement.toNat ≤ a.size := by
    rw [HeapArray.size, hblocks, hsize, lengthHB_eq hfits, sizeofHeapBlockArray, sizeofHeapBlock]
    omega
  refine ⟨hnum, hspan, fun i hi => ?_, by rw [hblocks, hsize, lengthHB_eq hfits]⟩
  rw [hnum] at hi
  have hindex := Nat.mul_le_mul_right (sizeInBytes td.dataType).toNat
    (Nat.succ_le_of_lt (UInt32.lt_iff_toNat_lt.mp hi))
  rw [Nat.succ_mul] at hindex
  have hproduct : (a.sizeOfElement.toUInt32 * i).toNat =
      i.toNat * (sizeInBytes td.dataType).toNat := by
    rw [UInt32.toNat_mul, UInt8.toNat_toUInt32, hsize, Nat.mul_comm, Nat.mod_eq_of_lt (by omega)]
  rw [HeapArray.getElement, hproduct]
  rw [hsize] at hspan ⊢
  omega

/-- **Every array that `CreateInstance` makes covers its elements, exactly if the size in bytes of
    no request that it accepts wraps around.** -/
theorem createInstance_covers_iff (newObject : Heap → TypeDefIndex → HResultOr Block × Heap)
    (sys : TypeSystem) (heap : Heap) (length : UInt32) (reflex : Reflection TypeDefIndex) :
    (∃ r, createInstance newObject sys heap length reflex = some r ∧
        (r.hr = .ok → r.reference ≠ none) ∧ ∀ a, r.reference = some a → a.Covers length) ↔
      ∀ td, Accepted sys heap length reflex td →
        length.toNat * (sizeInBytes td.dataType).toNat + 31 < 2 ^ 32 := by
  constructor
  · rintro ⟨r, hr, -, hcovers⟩ td haccepted
    obtain ⟨a, hnum, hblocks, hsize, -, heq⟩ :=
      createInstance_accepted newObject haccepted
    rw [heq] at hr
    obtain ⟨⟨hres, a', heap'⟩, hclear, rfl⟩ := Option.map_eq_some_iff.mp hr
    have hheader := clearElements_header hclear
    have hspan := (hcovers a' rfl).span
    have hle := haccepted.le
    rw [hheader.sizeOfElement, hsize, hheader.size, HeapArray.size, hblocks, sizeofHeapBlockArray,
      sizeofHeapBlock] at hspan
    rw [HB_MaxSize] at hle
    omega
  · intro hfits
    by_cases haccepted : ∃ td, Accepted sys heap length reflex td
    · obtain ⟨td, haccepted⟩ := haccepted
      obtain ⟨a, hnum, hblocks, hsize, href, heq⟩ :=
        createInstance_accepted newObject haccepted
      have hcovers := covers_of_lengthHB hnum hblocks hsize (hfits td haccepted)
      have htwelve : a.fReference = true → a.sizeOfElement = 12 := by
        intro hreference
        rw [href] at hreference
        by_contra hne
        rw [hsize] at hne
        rw [numeric_of_sizeInBytes_ne hne haccepted.sized] at hreference
        exact absurd hreference (by decide)
      have hbytes : length.toNat * a.sizeOfElement.toNat < 2 ^ 32 := by
        have hlt := hfits td haccepted
        rw [hsize]
        omega
      obtain ⟨r, hclear⟩ := clearElements_runs newObject heap.extract.2
        hcovers.span hbytes htwelve
      have hheader := clearElements_header hclear
      refine ⟨⟨r.1, some r.2.1, r.2.2⟩, by rw [heq, hclear]; rfl, fun _ => by simp, ?_⟩
      intro a' ha'
      obtain rfl := Option.some.inj ha'
      exact covers_of_lengthHB (hheader.numOfElements.trans hnum) (hheader.blocks.trans hblocks)
        (hheader.sizeOfElement.trans hsize) (hfits td haccepted)
    · obtain ⟨r, hr, hfailed, hnone⟩ := createInstance_refused newObject
        fun td h => haccepted ⟨td, h⟩
      exact ⟨r, hr, fun h => absurd h hfailed, fun a ha => by rw [hnone] at ha; cases ha⟩

end Requests

/-- `System.Int32`, alone in its assembly -/
def int32System : TypeSystem where
  assemblies :=
    [{ typeDef :=
         [{ name := "Int32", nameSpace := "System", extendsIdx := none, enclosingType := none
            interfaces := [], methods_First := 0, vMethods_Num := 0, iMethods_Num := 0
            sMethods_Num := 0, dataType := .i4, sFields_First := 0, iFields_First := 0
            sFields_Num := 0, iFields_Num := 0, semantics := .valueType, hasFinalizer := false }]
       fieldDef := []
       methodDef := []
       typeRef := []
       typeSpec := [] }]
  wellKnown :=
    { array := ⟨1, 0⟩
      object := ⟨1, 0⟩
      iList := ⟨1, 0⟩
      iCloneable := ⟨1, 0⟩
      void := ⟨1, 0⟩
      delegate := ⟨1, 0⟩
      multicastDelegate := ⟨1, 0⟩
      weakReference := ⟨1, 0⟩
      extendedWeakReference := ⟨1, 0⟩
      assembly := ⟨1, 0⟩
      type := ⟨1, 0⟩
      constructorInfo := ⟨1, 0⟩
      methodInfo := ⟨1, 0⟩
      fieldInfo := ⟨1, 0⟩
      builtIn := fun _ => none }

/-- An `int[0x40000000]` is made in two heap blocks. -/
theorem int32Array_uncovered : ¬ ∀ length : UInt32, ∃ r,
    createInstance (fun heap _ => (.error .outOfMemory, heap)) int32System [true] length
      ⟨.type, 1, ⟨0, 0⟩⟩ = some r ∧
    (r.hr = .ok → r.reference ≠ none) ∧ ∀ a, r.reference = some a → a.Covers length := by
  intro hall
  obtain ⟨r, hr, -, hcovers⟩ := hall 0x40000000
  have hblocks : (createInstance (fun heap _ => (.error .outOfMemory, heap)) int32System [true]
      0x40000000 ⟨.type, 1, ⟨0, 0⟩⟩).map (fun r => (r.reference.map HeapArray.blocks, r.reference.map
        HeapArray.sizeOfElement)) = some (some 2, some 4) := by decide
  rw [hr] at hblocks
  obtain ⟨hblocks, hsize⟩ := Prod.mk.inj (Option.some.inj hblocks)
  obtain ⟨a, ha, hblocks⟩ := Option.map_eq_some_iff.mp hblocks
  rw [ha] at hsize
  have hspan := (hcovers a ha).span
  rw [HeapArray.size, hblocks, Option.some.inj hsize] at hspan
  exact absurd hspan (by decide)

end TinyClr.ArrayCreation
