import TinyClr.Core.Queue
import TinyClr.Library.Ring
import TinyClr.Library.Runs
import Mathlib.Tactic.Common

/-!
# The queue refines a first-in first-out list

The abstract machine keeps the list of enqueued references.  `Represents` ties a queue to such a
list: the ring that starts at `_head` holds it, `_size` counts it and `_tail` is the first cell
behind it.  Every call keeps the tie and answers as the list does.
-/

namespace TinyClr.HeapBlockQueue

open TinyClr.Library

variable {R C : Type}

/-! ### The abstract machine -/

def writeSequence (types : TypeSystem R C) (dst : Reflection TypeDef) :
    List (Option R) → Nat → List (Cell R C) → HResult × List (Cell R C)
  | [], _, elements => (.ok, elements)
  | x :: xs, index, elements =>
      match elements[index]? with
      | none => (.failed .outOfRange, elements)
      | some element =>
          match copyElement types dst element x with
          | .error code => (.failed code, elements)
          | .ok element => writeSequence types dst xs (index + 1) (elements.set index element)

/-- `CopyTo` of a list: the target must have room for it from `index` on. -/
def fifoCopyTo (types : TypeSystem R C) (xs : List (Option R)) (toArray : HeapArray R C)
    (index : Int) : HResult × List (Cell R C) :=
  if int32 (toArray.elements.length - index) < xs.length then
    (.failed .invalidParameter, toArray.elements)
  else if xs = [] then (.ok, toArray.elements)
  else if index < 0 then (.failed .outOfRange, toArray.elements)
  else writeSequence types toArray.reflex xs index.toNat toArray.elements

/-- One call on a first-in first-out list. -/
def fifoStep (types : TypeSystem R C) (xs : List (Option R)) :
    Op R C → List (Option R) × Answer R C
  | .enqueue _ value => (xs ++ [value], .done .ok)
  | .dequeue =>
      match xs with
      | [] => ([], .value (.error .invalidOperation))
      | x :: xs => (xs, .value (.ok x))
  | .peek =>
      match xs with
      | [] => ([], .value (.error .invalidOperation))
      | x :: xs => (x :: xs, .value (.ok x))
  | .clear => ([], .done .ok)
  | .copyTo toArray index =>
      let copied := fifoCopyTo types xs toArray index.toInt
      (xs, .copied copied.1 copied.2)

/-! ### Copying -/

theorem length_writeSequence (types : TypeSystem R C) (dst : Reflection TypeDef)
    (xs : List (Option R)) : ∀ (index : Nat) (elements : List (Cell R C)),
      (writeSequence types dst xs index elements).2.length = elements.length := by
  induction xs with
  | nil => intro index elements; rfl
  | cons x xs ih =>
    intro index elements
    rw [writeSequence]
    split
    · rfl
    · split
      · rfl
      · rw [ih, List.length_set]

theorem writeSequence_append (types : TypeSystem R C) (dst : Reflection TypeDef)
    (xs ys : List (Option R)) :
    ∀ (index : Nat) (elements : List (Cell R C)),
      index + xs.length ≤ elements.length →
      writeSequence types dst (xs ++ ys) index elements =
        if (writeSequence types dst xs index elements).1 = .ok then
          writeSequence types dst ys (index + xs.length)
            (writeSequence types dst xs index elements).2
        else writeSequence types dst xs index elements := by
  induction xs with
  | nil =>
    intro index elements _
    rfl
  | cons x xs ih =>
    intro index elements hroom
    rw [List.length_cons] at hroom
    have hget := List.getElem?_eq_getElem (show index < elements.length by omega)
    simp only [List.cons_append, writeSequence, hget]
    rcases copyElement types dst elements[index] x with code | element
    · rfl
    · simp only
      rw [ih (index + 1) _ (by rw [List.length_set]; omega), List.length_cons,
        Nat.add_right_comm, Nat.add_assoc]

theorem copyLoop_eq (types : TypeSystem R C) (dst : Reflection TypeDef) (src : List (Option R))
    (xs : List (Option R)) :
    ∀ (indexSrc indexDst : Nat) (elements : List (Cell R C)),
      (src.drop indexSrc).take xs.length = xs → indexDst + xs.length ≤ elements.length →
      copyLoop types dst src xs.length indexSrc indexDst elements =
        some (writeSequence types dst xs indexDst elements) := by
  induction xs with
  | nil => intro indexSrc indexDst elements _ _; rfl
  | cons x xs ih =>
    intro indexSrc indexDst elements hsrc hroom
    rw [List.length_cons] at hsrc hroom
    have hread : src[indexSrc]? = some x := by
      have hhead := congrArg List.head? hsrc
      rwa [List.head?_take, if_neg (Nat.succ_ne_zero _), List.head?_drop] at hhead
    have hrest : (src.drop (indexSrc + 1)).take xs.length = xs := by
      have htail := congrArg List.tail hsrc
      rwa [← List.drop_one, List.drop_take, List.drop_drop, Nat.add_sub_cancel] at htail
    have hget := List.getElem?_eq_getElem (show indexDst < elements.length by omega)
    rw [List.length_cons, copyLoop, hread, writeSequence]
    simp only [Option.bind_eq_bind, Option.bind_some, hget]
    rcases copyElement types dst elements[indexDst] x with code | element
    · rfl
    · exact ih (indexSrc + 1) (indexDst + 1) _ hrest (by rw [List.length_set]; omega)

variable {index : Int}

theorem arrayCopy_eq (types : TypeSystem R C) (dst : Reflection TypeDef) (src xs : List (Option R))
    {indexSrc : Int} {elements : List (Cell R C)} (hsmall : elements.length < 2 ^ 31)
    (hsrcSmall : src.length < 2 ^ 31) (hsrcPos : 0 ≤ indexSrc) (hpos : 0 ≤ index)
    (hfit : indexSrc + xs.length ≤ src.length)
    (hsrc : (src.drop indexSrc.toNat).take xs.length = xs)
    (hroom : index + xs.length ≤ elements.length) :
    arrayCopy types dst src indexSrc elements index xs.length =
      some ((writeSequence types dst xs index.toNat elements).1, src,
        (writeSequence types dst xs index.toNat elements).2) := by
  rw [arrayCopy]
  by_cases hempty : xs.length = 0
  · rw [List.eq_nil_of_length_eq_zero hempty]
    rfl
  · rw [if_neg (by omega), int32_eq_self (by omega) (by omega),
      int32_eq_self (by omega) (by omega), if_neg (by omega), Int.toNat_natCast,
      copyLoop_eq types dst src xs _ _ _ hsrc (by omega)]
    rfl

theorem arrayCopy_negative (types : TypeSystem R C) (dst : Reflection TypeDef)
    {src : List (Option R)} {indexSrc length : Int} {elements : List (Cell R C)} (hlength : length ≠ 0)
    (hneg : index < 0) :
    arrayCopy types dst src indexSrc elements index length =
      some (.failed .outOfRange, src, elements) := by
  rw [arrayCopy, if_neg hlength, if_pos (Or.inr (Or.inr (Or.inl hneg)))]

/-! ### The tie between a queue and its list -/

/-- The ring from `_head` on holds the list; `_size` and `_tail` agree with it. -/
structure Represents (q : Queue R) (xs : List (Option R)) : Prop where
  capacity_lt : q.array.length < 2 ^ 31
  head_nonneg : 0 ≤ q.head
  ring : Ring q.array q.head.toNat xs
  size_eq : q.size = xs.length
  tail_eq : q.tail = ((q.head.toNat + xs.length) % q.array.length : Nat)

theorem represents_empty {capacity : Nat} (hpos : 1 ≤ capacity) (hlt : capacity < 2 ^ 31) :
    Represents (empty capacity : Queue R) [] := by
  refine ⟨by simpa [empty] using hlt, Int.le_refl 0, Ring.nil (by simp [empty]; omega), rfl, ?_⟩
  simp [empty]

variable {q : Queue R} {xs : List (Option R)}

theorem Represents.straight_iff (h : Represents q xs)
    (hne : xs ≠ []) : q.head < q.tail ↔ q.head.toNat + xs.length < q.array.length := by
  have hhead := h.ring.head_lt
  have hle := h.ring.length_le
  have hpos := List.length_pos_of_ne_nil hne
  have hnonneg := h.head_nonneg
  rw [h.tail_eq]
  constructor
  · intro hlt
    by_contra hwrap
    rw [Nat.mod_eq_sub_mod (by omega), Nat.mod_eq_of_lt (by omega)] at hlt
    omega
  · intro hlt
    rw [Nat.mod_eq_of_lt hlt]
    omega

theorem Represents.tail_wrapped (h : Represents q xs)
    (hwrap : q.array.length ≤ q.head.toNat + xs.length) :
    q.tail = ((q.head.toNat + xs.length - q.array.length : Nat) : Int) := by
  have hhead := h.ring.head_lt
  have hle := h.ring.length_le
  rw [h.tail_eq, Nat.mod_eq_sub_mod hwrap, Nat.mod_eq_of_lt (by omega)]

/-! ### `CopyTo` -/

/-- `CopyTo` writes what the list holds, in its order, and leaves the queue's array alone. -/
theorem copyTo_spec (types : TypeSystem R C)
    (h : Represents q xs) (toArray : HeapArray R C) (hindex : index < 2 ^ 31) :
    copyTo types q toArray index = some ((fifoCopyTo types xs toArray index).1, q.array,
      (fifoCopyTo types xs toArray index).2) := by
  have hcap := h.capacity_lt
  have hhead := h.ring.head_lt
  have hnonneg := h.head_nonneg
  have hle := h.ring.length_le
  have hsmall := toArray.numOfElements_lt
  simp only [copyTo, fifoCopyTo, h.size_eq, if_neg toArray.reflex.typeOfElement_ne_object]
  by_cases hguard : int32 (toArray.elements.length - index) < xs.length
  · rw [if_pos hguard, if_pos hguard]
  rw [if_neg hguard, if_neg hguard]
  by_cases hempty : xs = []
  · subst hempty
    rfl
  have hpos := List.length_pos_of_ne_nil hempty
  rw [if_neg hempty, if_pos (by omega)]
  by_cases hneg : index < 0
  · rw [if_pos hneg, arrayCopy_negative types _ (by omega) hneg,
      arrayCopy_negative types _ (by omega) hneg]
    split_ifs <;> rfl
  rw [if_neg hneg]
  -- the guard leaves room for the whole list behind `index`
  have hroom : index + xs.length ≤ toArray.elements.length := by
    rw [int32_eq_self (by omega) (by omega)] at hguard
    omega
  by_cases hstraight : q.head < q.tail
  · have hend := (h.straight_iff hempty).mp hstraight
    rw [if_pos hstraight, arrayCopy_eq types _ _ _ hsmall hcap hnonneg (by omega) (by omega)
      (h.ring.straight (by omega)) hroom]
  · have hend : q.array.length ≤ q.head.toNat + xs.length := by
      have hiff := h.straight_iff hempty
      omega
    obtain ⟨hfirst, hsecond⟩ := h.ring.wrapped hend
    rw [if_neg hstraight, h.tail_wrapped hend]
    have hlen₁ : (xs.take (q.array.length - q.head.toNat)).length =
        q.array.length - q.head.toNat := by
      rw [List.length_take]
      omega
    have hlen₂ : (xs.drop (q.array.length - q.head.toNat)).length =
        q.head.toNat + xs.length - q.array.length := by
      rw [List.length_drop]
      omega
    have hcopy₁ := arrayCopy_eq types toArray.reflex q.array
      (xs.take (q.array.length - q.head.toNat)) hsmall hcap hnonneg
      (show 0 ≤ index by omega) (by omega) (by rw [← hfirst, List.take_length]) (by omega)
    have hfirstPart : (q.array.length : Int) - q.head =
        (xs.take (q.array.length - q.head.toNat)).length := by omega
    rw [hfirstPart, hcopy₁]
    simp only [Option.bind_eq_bind, Option.bind_some]
    conv_rhs => rw [← List.take_append_drop (q.array.length - q.head.toNat) xs,
      writeSequence_append types _ _ _ _ _ (by omega)]
    by_cases hok : (writeSequence types toArray.reflex
        (xs.take (q.array.length - q.head.toNat)) index.toNat toArray.elements).1 = .ok
    · have hlen := length_writeSequence types toArray.reflex
        (xs.take (q.array.length - q.head.toNat)) index.toNat toArray.elements
      have hcopy₂ := arrayCopy_eq types toArray.reflex q.array
        (xs.drop (q.array.length - q.head.toNat)) (by rw [hlen]; exact hsmall) hcap (Int.le_refl 0)
        (show 0 ≤ index + (xs.take (q.array.length - q.head.toNat)).length by omega) (by omega)
        (by rw [hlen₂]; exact hsecond) (by rw [hlen]; omega)
      have hindex₂ : (index + (xs.take (q.array.length - q.head.toNat)).length).toNat =
          index.toNat + (xs.take (q.array.length - q.head.toNat)).length := by omega
      rw [if_pos hok, if_pos hok, ← hlen₂, hcopy₂, hindex₂]
    · rw [if_neg hok, if_neg hok]

/-! ### The other calls -/

variable {array : List (Option R)}

theorem getElement_eq {value : Option R}
    (hnonneg : 0 ≤ index) (h : array[index.toNat]? = some value) :
    getElement array index = some value := by
  rw [getElement, if_pos hnonneg, h]

theorem setElement_eq (hnonneg : 0 ≤ index)
    (hlt : index.toNat < array.length) (value : Option R) :
    setElement array index value = some (array.set index.toNat value) := by
  rw [setElement, if_pos ⟨hnonneg, by omega⟩]

theorem peek_spec {x : Option R}
    (h : Represents q (x :: xs)) : peek q = some (.ok x) := by
  have hsize := h.size_eq
  rw [List.length_cons] at hsize
  rw [peek, if_neg (by omega), getElement_eq h.head_nonneg h.ring.peek]
  rfl

theorem dequeue_spec {x : Option R}
    (h : Represents q (x :: xs)) : ∃ q', dequeue q = some (q', .ok x) ∧ Represents q' xs := by
  have hsize := h.size_eq
  have hhead := h.ring.head_lt
  have hnonneg := h.head_nonneg
  rw [List.length_cons] at hsize
  have hnext : ((q.head + 1) % q.array.length : Int).toNat = (q.head.toNat + 1) % q.array.length := by
    rw [Int.toNat_emod (by omega) (by omega)]
    congr 1
    omega
  rw [dequeue, if_neg (by omega), getElement_eq hnonneg h.ring.peek,
    setElement_eq hnonneg hhead]
  refine ⟨_, rfl, ?_⟩
  refine ⟨by rw [List.length_set]; exact h.capacity_lt, Int.emod_nonneg _ (by omega), ?_,
    by simp only; omega, ?_⟩
  · simp only [hnext]
    exact h.ring.pop none
  · simp only [hnext, List.length_set]
    rw [h.tail_eq, List.length_cons, Nat.mod_add_mod, Nat.add_assoc, Nat.add_comm 1]

theorem clearElements_eq (array : List (Option R)) {length : Int} (hindex : 0 ≤ index)
    (hlength : 0 ≤ length) (hfit : index + length ≤ array.length) :
    ∃ array', clearElements array index length = some array' ∧ array'.length = array.length := by
  rw [clearElements, overwrite, List.length_replicate, if_pos (by omega)]
  refine ⟨_, rfl, ?_⟩
  simp only [List.length_append, List.length_take, List.length_replicate, List.length_drop]
  omega

theorem clear_spec (h : Represents q xs) :
    ∃ q', clear q = some q' ∧ Represents q' [] := by
  have hcap := h.capacity_lt
  have hhead := h.ring.head_lt
  have hnonneg := h.head_nonneg
  have hle := h.ring.length_le
  have hsize := h.size_eq
  -- whatever the array was overwritten with, an empty ring starts at its first cell
  have hempty : ∀ array : List (Option R), array.length = q.array.length →
      Represents { array := array, head := 0, tail := 0, size := 0 } [] := by
    intro array hlength
    have hlt : array.length < 2 ^ 31 := by omega
    have hsome : 0 < array.length := by omega
    refine ⟨hlt, Int.le_refl 0, Ring.nil hsome, rfl, ?_⟩
    simp
  by_cases hnil : xs = []
  · subst hnil
    have hzero : q.size = 0 := hsize
    refine ⟨{ q with head := 0, tail := 0 }, ?_, ?_⟩
    · rw [clear, if_neg (by omega)]
      rfl
    · rw [hzero]
      exact hempty q.array rfl
  have hpos := List.length_pos_of_ne_nil hnil
  have hiff := h.straight_iff hnil
  rw [clear, if_pos (by omega)]
  by_cases hstraight : q.head < q.tail
  · obtain ⟨array, hclear, hlength⟩ := clearElements_eq q.array hnonneg
      (show 0 ≤ q.size by omega) (by omega)
    rw [if_pos hstraight, hclear]
    exact ⟨_, rfl, hempty array hlength⟩
  · have htail := h.tail_wrapped (by omega)
    obtain ⟨array, hclear, hlength⟩ := clearElements_eq q.array hnonneg
      (show 0 ≤ (q.array.length : Int) - q.head by omega) (by omega)
    obtain ⟨array', hclear', hlength'⟩ := clearElements_eq array (Int.le_refl 0)
      (show 0 ≤ q.tail by omega) (by omega)
    rw [if_neg hstraight, hclear, Option.bind_eq_bind, Option.bind_some, hclear']
    exact ⟨_, rfl, hempty array' (hlength'.trans hlength)⟩

/-! ### `Enqueue` -/

theorem writeSequence_object (types : TypeSystem R C) (xs : List (Option R)) :
    ∀ (index : Nat) (elements : List (Cell R C)), index + xs.length ≤ elements.length →
      writeSequence types objectArray xs index elements =
        (.ok, elements.take index ++ xs.map .ref ++ elements.drop (index + xs.length)) := by
  induction xs with
  | nil =>
    intro index elements _
    simp [writeSequence]
  | cons x xs ih =>
    intro index elements hroom
    rw [List.length_cons] at hroom
    have hlt : index < elements.length := by omega
    have hcopy : copyElement types objectArray elements[index] x = .ok (.ref x) := by
      rw [copyElement, if_pos rfl]
    have htake : (elements.set index (.ref x)).take (index + 1) =
        elements.take index ++ [.ref x] := by
      rw [List.take_succ_eq_append_getElem (by rwa [List.length_set]), List.getElem_set_self,
        List.take_set_of_le (Nat.le_refl _)]
    have hdrop : (elements.set index (.ref x)).drop (index + 1 + xs.length) =
        elements.drop (index + 1 + xs.length) := List.drop_set_of_lt (by omega)
    simp only [writeSequence, List.getElem?_eq_getElem hlt, hcopy]
    rw [ih (index + 1) _ (by rw [List.length_set]; omega), htake, hdrop, List.length_cons,
      List.map_cons, Nat.add_assoc index 1, Nat.add_comm 1]
    simp

theorem mapM_asRef_map (values : List (Option R)) :
    (values.map (Cell.ref (C := C))).mapM Cell.asRef = some values := by
  induction values with
  | nil => rfl
  | cons value values ih =>
    rw [List.map_cons, List.mapM_cons, ih]
    rfl

/-- The new array of a full queue starts with the list. -/
theorem grow_spec (types : TypeSystem R C)
    (h : Represents q xs) (hfull : xs.length = q.array.length)
    (hfit : 2 * q.array.length < 2 ^ 31) :
    grow types q (List.replicate (2 * q.array.length) none) =
      some (xs ++ List.replicate q.array.length none) := by
  have hlength : (List.replicate (2 * q.array.length) (none : Option R)).length < 2 ^ 31 := by
    rwa [List.length_replicate]
  have hhead := h.ring.head_lt
  have hne : xs ≠ [] := by
    rintro rfl
    rw [List.length_nil] at hfull
    omega
  rw [grow, dif_pos hlength, copyTo_spec types h _ (by decide)]
  have hguard : ¬ int32 ((asTarget (C := C) _ hlength).elements.length - 0) < xs.length := by
    simp only [asTarget, List.length_map, List.length_replicate]
    rw [int32_eq_self (by omega) (by omega)]
    omega
  have hwritten : (fifoCopyTo types xs (asTarget _ hlength) 0).2 =
      (xs ++ List.replicate q.array.length none).map .ref := by
    rw [fifoCopyTo, if_neg hguard, if_neg hne, if_neg (by decide)]
    simp only [asTarget]
    rw [writeSequence_object types xs _ _ (by simp; omega)]
    simp [hfull, Nat.two_mul]
  simp only [Option.bind_eq_bind, Option.bind_some, hwritten, mapM_asRef_map]

theorem Represents.store (h : Represents q xs)
    (hroom : xs.length < q.array.length) (value : Option R) :
    ∃ q', storeAtTail q q.array.length value = some (q', .ok) ∧ Represents q' (xs ++ [value]) := by
  have hcap := h.capacity_lt
  have htail := h.tail_eq
  have hlt : (q.head.toNat + xs.length) % q.array.length < q.array.length :=
    Nat.mod_lt _ (by omega)
  have htoNat : q.tail.toNat = (q.head.toNat + xs.length) % q.array.length := by omega
  rw [storeAtTail, setElement_eq (by omega) (by omega) value]
  refine ⟨_, rfl, by rw [List.length_set]; exact hcap, h.head_nonneg, ?_, ?_, ?_⟩
  · rw [htoNat]
    exact h.ring.push hroom value
  · rw [h.size_eq, List.length_append, List.length_singleton]
    rfl
  · rw [List.length_set, htail, List.length_append, List.length_singleton, ← Nat.add_assoc]
    push_cast
    rw [Int.emod_add_emod]

/-- The array an `Enqueue` into a full queue asks for can be created. -/
def AllocationSucceeds (q : Queue R) : Op R C → Prop
  | .enqueue allocated _ => q.size = q.array.length →
      ∃ array, createInstance (R := R) allocated (int32 (q.array.length * 2)) = .ok array
  | _ => True

theorem createInstance_ok {allocated : Bool} {capacity : Nat}
    (hcap : capacity < 2 ^ 31)
    (h : createInstance allocated (int32 (capacity * 2)) = .ok array) :
    2 * capacity < 2 ^ 31 ∧ array = List.replicate (2 * capacity) none := by
  unfold createInstance at h
  split_ifs at h with hneg hallocated
  have harray := Except.ok.inj h
  have hfit : 2 * capacity < 2 ^ 31 := by
    by_contra hnot
    rw [int32_eq_sub (by omega) (by omega)] at hneg
    omega
  have hlength : ((capacity : Int) * 2).toNat = 2 * capacity := by omega
  refine ⟨hfit, ?_⟩
  rw [← harray, int32_eq_self (by omega) (by omega), hlength]

theorem enqueue_spec (types : TypeSystem R C)
    (h : Represents q xs) {allocated : Bool} (value : Option R)
    (halloc : AllocationSucceeds q (.enqueue allocated value : Op R C)) :
    ∃ q', enqueue types allocated q value = some (q', .ok) ∧ Represents q' (xs ++ [value]) := by
  have hle := h.ring.length_le
  have hcap := h.capacity_lt
  have hhead := h.ring.head_lt
  have hsize := h.size_eq
  rw [enqueue]
  by_cases hfull : q.size = q.array.length
  · obtain ⟨array, hcreate⟩ := halloc hfull
    obtain ⟨hfit, harray⟩ := createInstance_ok hcap hcreate
    have hxs : xs.length = q.array.length := by omega
    have hgrow := grow_spec types h hxs hfit
    have hlength : (xs ++ List.replicate q.array.length (none : Option R)).length =
        2 * q.array.length := by
      rw [List.length_append, List.length_replicate]
      omega
    have hnew : Represents
        { array := xs ++ List.replicate q.array.length none, head := 0, tail := q.size,
          size := q.size } xs := by
      have hcap' : (xs ++ List.replicate q.array.length (none : Option R)).length < 2 ^ 31 := by
        omega
      refine ⟨hcap', Int.le_refl 0, Ring.fresh xs _ (by omega), hsize, ?_⟩
      rw [hlength, hsize, Int.toNat_zero, Nat.zero_add, Nat.mod_eq_of_lt (by omega)]
    have hcapacity : int32 (q.array.length * 2) =
        (xs ++ List.replicate q.array.length (none : Option R)).length := by
      rw [hlength, int32_eq_self (by omega) (by omega)]
      omega
    rw [if_pos hfull, hcreate, harray]
    simp only [hgrow, Option.bind_eq_bind, Option.bind_some, hcapacity]
    exact hnew.store (by simp only [hlength]; omega) value
  · rw [if_neg hfull]
    exact h.store (by omega) value

/-! ### Runs -/

theorem step_refines (types : TypeSystem R C) (q : Queue R) (xs : List (Option R)) (o : Op R C)
    (h : Represents q xs) (halloc : AllocationSucceeds q o) :
    ∃ q', step types q o = some (q', (fifoStep types xs o).2) ∧
      Represents q' (fifoStep types xs o).1 := by
  cases o with
  | enqueue allocated value =>
    obtain ⟨q', henqueue, hrep⟩ := enqueue_spec types h value halloc
    exact ⟨q', by simp [step, henqueue, fifoStep], hrep⟩
  | dequeue =>
    cases xs with
    | nil =>
      have hsize : q.size = 0 := h.size_eq
      exact ⟨q, by simp [step, dequeue, hsize, fifoStep], h⟩
    | cons x xs =>
      obtain ⟨q', hdequeue, hrep⟩ := dequeue_spec h
      exact ⟨q', by simp [step, hdequeue, fifoStep], hrep⟩
  | peek =>
    cases xs with
    | nil =>
      have hsize : q.size = 0 := h.size_eq
      exact ⟨q, by simp [step, peek, hsize, fifoStep], h⟩
    | cons x xs => exact ⟨q, by simp [step, peek_spec h, fifoStep], h⟩
  | clear =>
    obtain ⟨q', hclear, hrep⟩ := clear_spec h
    exact ⟨q', by simp [step, hclear, fifoStep], hrep⟩
  | copyTo toArray index =>
    have hcopy := copyTo_spec types h toArray index.toInt_lt
    exact ⟨q, by simp [step, hcopy, fifoStep], h⟩

/-- Every run of an empty queue answers exactly as the first-in first-out list driven by the same
    calls, and ends in a queue that holds that list; there `CopyTo` changes nothing. -/
theorem queue_refines_fifo (types : TypeSystem R C) (capacity : Nat) (hpos : 1 ≤ capacity)
    (hlt : capacity < 2 ^ 31) (ops : List (Op R C))
    (halloc : Meets (step types) AllocationSucceeds (empty capacity) ops) :
    ∃ q, run (step types) (empty capacity) ops = some (q, (runSpec (fifoStep types) [] ops).2) ∧
      Represents q (runSpec (fifoStep types) [] ops).1 ∧
      ∀ toArray index, ∃ answer, step types q (.copyTo toArray index) = some (q, answer) := by
  obtain ⟨q, hrun, hrep⟩ := run_simulates (step types) (fifoStep types)
    (fun q xs o => step_refines types q xs o) ops (empty capacity) []
    (represents_empty hpos hlt) halloc
  refine ⟨q, hrun, hrep, fun toArray index => ?_⟩
  have hcopy := copyTo_spec types hrep toArray index.toInt_lt
  exact ⟨_, by simp [step, hcopy]; rfl⟩

def noCasts : TypeSystem Nat Unit :=
  { isInstanceOf := fun _ _ => false
    reassign := fun _ element _ => .ok element
    storeToReference := fun _ element _ => .ok element }

/-- The third element wraps around a ring of two, and the fourth makes it grow. -/
def wrapsAndGrows : List (Op Nat Unit) :=
  [.enqueue true (some 1), .enqueue true (some 2), .dequeue, .enqueue true (some 3),
    .enqueue true none, .dequeue, .peek]

theorem queue_refines_fifo_grown :
    ∃ q, run (step noCasts) (empty 2) wrapsAndGrows =
        some (q, (runSpec (fifoStep noCasts) [] wrapsAndGrows).2) ∧
      Represents q [some 3, none] ∧ q.array.length = 4 := by
  have hcreate : createInstance (R := Nat) true (int32 ((2 : Nat) * 2)) =
      .ok (List.replicate 4 none) := by decide
  have hmeets : Meets (step noCasts) AllocationSucceeds (empty 2) wrapsAndGrows := by
    apply meets_cons _ (fun hfull => absurd hfull (by decide)) rfl
    apply meets_cons _ (fun hfull => absurd hfull (by decide)) rfl
    apply meets_cons _ trivial rfl
    apply meets_cons _ (fun hfull => absurd hfull (by decide)) rfl
    apply meets_cons _ (fun _ => ⟨_, hcreate⟩) rfl
    apply meets_cons _ trivial rfl
    exact meets_cons _ trivial rfl trivial
  have hlength : (run (step noCasts) (empty 2) wrapsAndGrows).map (fun r => r.1.array.length) =
      some 4 := rfl
  obtain ⟨q, hrun, hrep, -⟩ := queue_refines_fifo noCasts 2 (by decide) (by decide) _ hmeets
  rw [hrun] at hlength
  exact ⟨q, hrun, hrep, Option.some.inj hlength⟩

end TinyClr.HeapBlockQueue
