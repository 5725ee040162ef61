import TinyClr.Core.ArrayList
import TinyClr.Library.Runs
import Mathlib.Data.List.Induction
import Mathlib.Tactic.Common

/-!
# The array list refines a list

The abstract machine is a list of references.  `Represents` ties an array list to it: the items
are the elements of the list followed by NULLs, so what is removed is not kept alive.  Every call
whose array is allocated in full keeps the tie.
-/

namespace TinyClr.HeapBlockArrayList

open TinyClr.Library TinyClr.Heap TinyClr.HeapBlockQueue

variable {R : Type} {l : ArrayList R} {xs front back rest : List (Option R)} {x value : Option R}

/-! ### The abstract machine -/

def Valid (xs : List (Option R)) : Op R → Prop
  | .getItem index => 0 ≤ index.toInt ∧ index.toInt < xs.length
  | .setItem index _ => 0 ≤ index.toInt ∧ index.toInt < xs.length
  | .add _ _ => True
  | .clear => True
  | .insert _ index _ => 0 ≤ index.toInt ∧ index.toInt ≤ xs.length
  | .removeAt index => 0 ≤ index.toInt ∧ index.toInt < xs.length
  | .setCapacity _ newCapacity => (xs.length : Int) ≤ newCapacity.toInt

def listStep (xs : List (Option R)) : Op R → List (Option R) × Answer R
  | .getItem index => (xs, .value (.ok (xs.getD index.toInt.toNat none)))
  | .setItem index value => (xs.set index.toInt.toNat value, .done .ok)
  | .add _ value => (xs ++ [value], .index (.ok xs.length))
  | .clear => ([], .done .ok)
  | .insert _ index value => (xs.insertIdx index.toInt.toNat value, .done .ok)
  | .removeAt index => (xs.eraseIdx index.toInt.toNat, .done .ok)
  | .setCapacity _ _ => (xs, .done .ok)

def failure (code : Failure) : Op R → Answer R
  | .getItem _ => .value (.error code)
  | .add _ _ => .index (.error code)
  | _ => .done (.failed code)

/-- The longest array of references the heap has a block for -/
def maxElements : Nat := 65533

/-- Why a new array is not to be had: the heap hands none out, or has no block that long. -/
def Refused (allocated : Bool) (length : Int) : Prop := allocated = false ∨ maxElements < length

/-- A call for which memory is missing: half as many elements again, or the capacity asked for -/
def NoMemory (xs : List (Option R)) : Op R → Prop
  | .add allocated _ => Refused allocated (xs.length * 3 / 2 : Nat)
  | .insert allocated _ _ => Refused allocated (xs.length * 3 / 2 : Nat)
  | .setCapacity allocated newCapacity => Refused allocated newCapacity.toInt
  | _ => False

/-- What a call may do to the list: a valid call is carried out, or fails for want of memory and
    changes nothing; an invalid one is rejected and changes nothing. -/
inductive Follows (xs : List (Option R)) (op : Op R) : List (Option R) → Answer R → Prop where
  | accepted (h : Valid xs op) : Follows xs op (listStep xs op).1 (listStep xs op).2
  | rejected (h : ¬ Valid xs op) : Follows xs op xs (failure .outOfRange op)
  | noMemory (h : Valid xs op) (hmemory : NoMemory xs op) :
      Follows xs op xs (failure .outOfMemory op)

def ArrayList.contents (l : ArrayList R) : List (Option R) := l.items.take l.size.toNat

/-! ### Arrays -/

/-- The bytes of an array of this length, rounded up to blocks, do not fit in 32 bits, and what is
    left of their number looks small enough. -/
def Wraps (length : Nat) : Prop :=
  2 ^ 32 ≤ sizeofHeapBlockArray + length * sizeofHeapBlock + (sizeofHeapBlock - 1) ∧
    lengthHB length ≤ HB_MaxSize

theorem lengthHB_eq {length : Nat}
    (h : sizeofHeapBlockArray + length * sizeofHeapBlock + (sizeofHeapBlock - 1) < 2 ^ 32) :
    lengthHB length =
      (sizeofHeapBlockArray + length * sizeofHeapBlock + (sizeofHeapBlock - 1)) /
        sizeofHeapBlock := by
  simp only [lengthHB]
  rw [Nat.mod_eq_of_lt (a := sizeofHeapBlockArray + length * sizeofHeapBlock) (by omega),
    Nat.mod_eq_of_lt h]

theorem createInstance_spec (allocated : Bool) (length : Nat)
    (h : allocated = true → ¬ Wraps length) :
    Refused allocated length ∧
        createInstance (R := R) allocated length = some (.error .outOfMemory) ∨
      length ≤ maxElements ∧
        createInstance (R := R) allocated length = some (.ok (List.replicate length none)) := by
  rw [createInstance, if_neg (by omega), Int.toNat_natCast]
  by_cases hlarge : lengthHB length > HB_MaxSize
  · refine .inl ⟨?_, if_pos hlarge⟩
    by_contra hfew
    rw [Refused, not_or, maxElements] at hfew
    rw [lengthHB_eq (by simp only [sizeofHeapBlockArray, sizeofHeapBlock]; omega)] at hlarge
    simp only [sizeofHeapBlockArray, sizeofHeapBlock, HB_MaxSize] at hlarge
    omega
  · rw [if_neg hlarge]
    cases allocated with
    | false => exact .inl ⟨.inl rfl, if_pos rfl⟩
    | true =>
      have hfits : sizeofHeapBlockArray + length * sizeofHeapBlock + (sizeofHeapBlock - 1) <
          2 ^ 32 := by
        by_contra hwraps
        exact h rfl ⟨by omega, by omega⟩
      have hroom : length ≤ maxElements ∧ sizeofHeapBlockArray + length * sizeofHeapBlock ≤
          lengthHB length * sizeofHeapBlock := by
        rw [lengthHB_eq hfits] at hlarge ⊢
        simp only [sizeofHeapBlockArray, sizeofHeapBlock, HB_MaxSize, maxElements] at *
        omega
      rw [if_neg (by decide), if_pos hroom.2]
      exact Or.inr ⟨hroom.1, rfl⟩

theorem getElement_at (front back : List (Option R)) {items : List (Option R)} {i : Int} (h : items = front ++ x :: back)
    (hi : i = front.length) : getElement items i = some x := by
  rw [getElement, if_pos (by omega), h, hi, Int.toNat_natCast,
    List.getElem?_append_right (Nat.le_refl _), Nat.sub_self, List.getElem?_cons_zero]

theorem setElement_at (front : List (Option R)) (x : Option R) (back : List (Option R)) 
    {items : List (Option R)} {i : Int} (h : items = front ++ x :: back) (hi : i = front.length) :
    setElement items i value = some (front ++ value :: back) := by
  rw [setElement, if_pos (by rw [h, List.length_append, List.length_cons]; omega), h, hi,
    Int.toNat_natCast, List.set_append_right _ _ (Nat.le_refl _), Nat.sub_self,
    List.set_cons_zero]

/-- Moving up: the elements `b :: mid` are found one slot further, and `b` still in its place. -/
theorem moveUp_spec (b : Option R) (last : Int) (hlast : last = front.length) :
    ∀ (mid rest : List (Option R)) (x : Option R) (fuel : Nat) (current : Int),
      mid.length < fuel → current = front.length + 1 + mid.length →
      moveUp fuel current last (front ++ b :: (mid ++ x :: rest)) =
        some (front ++ b :: b :: (mid ++ rest)) := by
  intro mid
  induction mid using List.reverseRecOn with
  | nil =>
    intro rest x fuel current hfuel hcurrent
    obtain ⟨fuel, rfl⟩ := Nat.exists_eq_succ_of_ne_zero (Nat.ne_of_gt hfuel)
    rw [List.length_nil] at hcurrent
    have hget : getElement (front ++ b :: ([] ++ x :: rest)) (current - 1) = some b :=
      getElement_at front (x :: rest) rfl (by omega)
    have hset : setElement (front ++ b :: ([] ++ x :: rest)) current b =
        some (front ++ [b] ++ b :: rest) :=
      setElement_at (front ++ [b]) x rest (by simp) (by simp; omega)
    rw [moveUp, hget, Option.bind_eq_bind, Option.bind_some, hset]
    simp [show current - 1 = last by omega]
  | append_singleton mid m ih =>
    intro rest x fuel current hfuel hcurrent
    rw [List.length_append, List.length_singleton] at hfuel hcurrent
    obtain ⟨fuel, rfl⟩ := Nat.exists_eq_succ_of_ne_zero (show fuel ≠ 0 by omega)
    have hget : getElement (front ++ b :: (mid ++ [m] ++ x :: rest)) (current - 1) = some m :=
      getElement_at (front ++ b :: mid) (x :: rest) (by simp)
        (by simp; omega)
    have hset : setElement (front ++ b :: (mid ++ [m] ++ x :: rest)) current m =
        some (front ++ b :: (mid ++ [m]) ++ m :: rest) :=
      setElement_at (front ++ b :: (mid ++ [m])) x rest (by simp) (by simp; omega)
    have hstep := ih (m :: rest) m fuel (current - 1) (by omega) (by omega)
    rw [moveUp, hget, Option.bind_eq_bind, Option.bind_some, hset]
    simpa [show current - 1 ≠ last by omega] using hstep

/-- Moving down: the elements `back` are found one slot earlier, and the last one twice. -/
theorem moveDown_spec : ∀ (back front rest : List (Option R)) (x b : Option R) (fuel : Nat)
    (current last : Int), back.length < fuel → current = front.length →
    last = front.length + 1 + back.length →
    moveDown fuel current last (front ++ x :: b :: (back ++ rest)) =
      some (front ++ b :: (back ++ (b :: back).getLast (List.cons_ne_nil b back) :: rest)) := by
  intro back
  induction back with
  | nil =>
    intro front rest x b fuel current last hfuel hcurrent hlast
    obtain ⟨fuel, rfl⟩ := Nat.exists_eq_succ_of_ne_zero (Nat.ne_of_gt hfuel)
    rw [List.length_nil] at hlast
    have hget : getElement (front ++ x :: b :: ([] ++ rest)) (current + 1) = some b :=
      getElement_at (front ++ [x]) rest (by simp) (by simp; omega)
    have hset : setElement (front ++ x :: b :: ([] ++ rest)) current b =
        some (front ++ b :: b :: ([] ++ rest)) :=
      setElement_at front x _ rfl hcurrent
    rw [moveDown, hget, Option.bind_eq_bind, Option.bind_some, hset]
    simp [show current + 1 = last by omega]
  | cons b' back ih =>
    intro front rest x b fuel current last hfuel hcurrent hlast
    rw [List.length_cons] at hfuel hlast
    obtain ⟨fuel, rfl⟩ := Nat.exists_eq_succ_of_ne_zero (show fuel ≠ 0 by omega)
    have hget : getElement (front ++ x :: b :: (b' :: back ++ rest)) (current + 1) = some b :=
      getElement_at (front ++ [x]) (b' :: back ++ rest) (by simp)
        (by simp; omega)
    have hset : setElement (front ++ x :: b :: (b' :: back ++ rest)) current b =
        some (front ++ b :: b :: (b' :: back ++ rest)) :=
      setElement_at front x _ rfl hcurrent
    have hstep := ih (front ++ [b]) rest b b' fuel (current + 1) last (by omega)
      (by simp; omega) (by simp; omega)
    rw [moveDown, hget, Option.bind_eq_bind, Option.bind_some, hset,
      List.getLast_cons (List.cons_ne_nil b' back)]
    simpa [show current + 1 ≠ last by omega] using hstep

/-! ### The list that is held -/

structure Represents (l : ArrayList R) (xs : List (Option R)) : Prop where
  items_eq : ∃ spare, l.items = xs ++ List.replicate spare none
  size_eq : l.size = xs.length
  capacity_le : l.items.length ≤ maxElements

theorem represents_empty : Represents (empty : ArrayList R) [] :=
  ⟨⟨4, rfl⟩, rfl, by simp [empty, c_DefaultCapacity, maxElements]⟩

theorem Represents.length_le (h : Represents l xs) : xs.length ≤ l.items.length := by
  obtain ⟨spare, hitems⟩ := h.items_eq
  rw [hitems, List.length_append]
  exact Nat.le_add_right _ _

theorem Represents.contents_eq (h : Represents l xs) : l.contents = xs := by
  obtain ⟨spare, hitems⟩ := h.items_eq
  rw [ArrayList.contents, hitems, h.size_eq, Int.toNat_natCast, List.take_left']
  rfl

theorem Represents.copy (h : Represents l xs) (capacity : Nat) (hle : xs.length ≤ capacity) :
    (if l.size > 0 then copyElements (List.replicate capacity none) l.items l.size.toNat
      else some (List.replicate capacity none)) =
      some (xs ++ List.replicate (capacity - xs.length) none) := by
  obtain ⟨spare, hitems⟩ := h.items_eq
  have hlength := h.length_le
  rw [h.size_eq, Int.toNat_natCast]
  by_cases hsome : xs = []
  · simp [hsome]
  · have hpos := List.length_pos_iff.mpr hsome
    rw [if_pos (by omega), copyElements, if_pos ⟨hlength, by simpa using hle⟩, hitems]
    simp

theorem setCapacity_spec (h : Represents l xs) (allocated : Bool) (newCapacity : Int)
    (hle : xs.length ≤ newCapacity) (hfits : allocated = true → ¬ Wraps newCapacity.toNat) :
    Refused allocated newCapacity ∧
        setCapacity allocated l newCapacity = some (l, .failed .outOfMemory) ∨
      ∃ l', setCapacity allocated l newCapacity = some (l', .ok) ∧ Represents l' xs ∧
        newCapacity ≤ l'.items.length := by
  rw [setCapacity]
  by_cases hsame : newCapacity = l.items.length
  · rw [if_neg (not_not_intro hsame)]
    exact Or.inr ⟨l, rfl, h, Int.le_of_eq hsame⟩
  · rw [if_pos hsame, if_neg (by rw [h.size_eq]; omega)]
    simp only
    generalize hcapacity :
      (if newCapacity < c_DefaultCapacity then c_DefaultCapacity else newCapacity) = capacity
    have hbounds : newCapacity ≤ capacity ∧ (allocated = true → ¬ Wraps capacity.toNat) ∧
        (Refused allocated capacity → Refused allocated newCapacity) := by
      rw [← hcapacity]
      by_cases hsmall : newCapacity < c_DefaultCapacity
      · rw [if_pos hsmall]
        refine ⟨Int.le_of_lt hsmall, fun _ hwraps => ?_, fun hrefused => .inl ?_⟩
        · exact absurd hwraps.1 (by decide)
        · exact hrefused.resolve_right (by decide)
      · rw [if_neg hsmall]
        exact ⟨Int.le_refl _, hfits, id⟩
    obtain ⟨n, rfl⟩ := Int.eq_ofNat_of_zero_le (show 0 ≤ capacity by omega)
    rcases createInstance_spec (R := R) allocated n hbounds.2.1 with
      ⟨hrefused, hfail⟩ | ⟨hmax, hok⟩
    · refine .inl ⟨hbounds.2.2 hrefused, ?_⟩
      rw [hfail]
      rfl
    · right
      have hcopy := h.copy n (by omega)
      rw [hok]
      simp only [Option.bind_eq_bind, Option.bind_some]
      rw [hcopy]
      refine ⟨_, rfl, ⟨⟨n - xs.length, rfl⟩, h.size_eq, ?_⟩, ?_⟩
      · simp
        omega
      · simp
        omega

/-- The growth step never wraps. -/
theorem reserve_spec (h : Represents l xs) (allocated : Bool) :
    Refused allocated (xs.length * 3 / 2 : Nat) ∧
        reserve allocated l = some (l, .failed .outOfMemory) ∨
      ∃ l', reserve allocated l = some (l', .ok) ∧ Represents l' xs ∧
        xs.length < l'.items.length := by
  rw [reserve]
  have hle := h.length_le
  by_cases hfull : l.size = l.items.length
  · rw [if_pos hfull, ensureCapacity, if_pos (by omega)]
    simp only
    have hcapacity := h.capacity_le
    have hint : int32 ((l.items.length : Int) * 3) = l.items.length * 3 := by
      rw [maxElements] at hcapacity
      exact int32_eq_self (by omega) (by omega)
    rw [hint]
    generalize hgrow : (if ((l.items.length : Int) * 3).tdiv 2 < l.size + 1 then l.size + 1
      else ((l.items.length : Int) * 3).tdiv 2) = newCapacity
    have hdiv : ((l.items.length : Int) * 3).tdiv 2 = l.items.length * 3 / 2 :=
      Int.tdiv_eq_ediv_of_nonneg (by omega)
    rw [maxElements] at hcapacity
    have hbounds : l.size + 1 ≤ newCapacity ∧ newCapacity < 100000 ∧
        (maxElements < newCapacity → (maxElements : Int) < (xs.length * 3 / 2 : Nat)) := by
      rw [h.size_eq] at hfull
      rw [← hgrow, hdiv, h.size_eq, maxElements]
      split_ifs <;> omega
    rw [h.size_eq] at hbounds
    have hfits : ¬ Wraps newCapacity.toNat := by
      rintro ⟨hwraps, -⟩
      simp only [sizeofHeapBlockArray, sizeofHeapBlock] at hwraps
      omega
    rcases setCapacity_spec h allocated newCapacity (by omega) fun _ => hfits with
      ⟨hrefused, hfail⟩ | ⟨l', hok, hrep, hroom⟩
    · exact .inl ⟨hrefused.imp_right hbounds.2.2, hfail⟩
    · exact .inr ⟨l', hok, hrep, by omega⟩
  · rw [if_neg hfull]
    rw [h.size_eq] at hfull
    exact Or.inr ⟨l, rfl, h, by omega⟩

theorem Represents.room (h : Represents l xs) (hroom : xs.length < l.items.length) :
    ∃ spare, l.items = xs ++ none :: List.replicate spare none := by
  obtain ⟨spare, hitems⟩ := h.items_eq
  rw [hitems, List.length_append, List.length_replicate] at hroom
  obtain ⟨spare, rfl⟩ := Nat.exists_eq_succ_of_ne_zero (show spare ≠ 0 by omega)
  exact ⟨spare, by rw [hitems, Nat.succ_eq_add_one, List.replicate_succ]⟩

/-! ### The calls -/

variable {index : Int}

theorem split_at_index (hlow : 0 ≤ index) (hhigh : index < xs.length) :
    ∃ front x back, xs = front ++ x :: back ∧ index = front.length := by
  obtain ⟨i, rfl⟩ := Int.eq_ofNat_of_zero_le hlow
  have hi : i < xs.length := by omega
  refine ⟨xs.take i, xs[i], xs.drop (i + 1), ?_, ?_⟩
  · rw [List.getElem_cons_drop, List.take_append_drop]
  · rw [List.length_take, Nat.min_eq_left (Nat.le_of_lt hi)]

theorem getItem_spec (h : Represents l xs) (hlow : 0 ≤ index)
    (hhigh : index < xs.length) : getItem l index = some (.ok (xs.getD index.toNat none)) := by
  obtain ⟨spare, hitems⟩ := h.items_eq
  obtain ⟨front, x, back, rfl, hindex⟩ := split_at_index hlow hhigh
  have hget : getElement l.items index = some x :=
    getElement_at front (back ++ List.replicate spare none) (by rw [hitems]; simp) hindex
  have hvalue : (front ++ x :: back).getD index.toNat none = x := by
    rw [hindex, Int.toNat_natCast, List.getD_eq_getElem?_getD,
      List.getElem?_append_right (Nat.le_refl _), Nat.sub_self, List.getElem?_cons_zero]
    rfl
  rw [getItem, if_neg (by rw [h.size_eq]; omega), hget, hvalue]
  rfl

theorem setItem_spec (h : Represents l xs) (hlow : 0 ≤ index)
    (hhigh : index < xs.length) (value : Option R) :
    ∃ l', setItem l index value = some (l', .ok) ∧ Represents l' (xs.set index.toNat value) := by
  obtain ⟨spare, hitems⟩ := h.items_eq
  have hmax := h.capacity_le
  have hsize := h.size_eq
  obtain ⟨front, x, back, rfl, hindex⟩ := split_at_index hlow hhigh
  have hset : setElement l.items index value =
      some (front ++ value :: (back ++ List.replicate spare none)) :=
    setElement_at front x _ (by rw [hitems]; simp) hindex
  have hxs : (front ++ x :: back).set index.toNat value = front ++ value :: back := by
    rw [hindex, Int.toNat_natCast, List.set_append_right _ _ (Nat.le_refl _), Nat.sub_self,
      List.set_cons_zero]
  rw [setItem, if_neg (by rw [hsize]; omega), hset, hxs]
  refine ⟨_, rfl, ⟨spare, by simp⟩, by rw [hsize]; simp, ?_⟩
  rw [hitems] at hmax
  simpa using hmax

theorem add_spec (h : Represents l xs) (allocated : Bool) (value : Option R) :
    Refused allocated (xs.length * 3 / 2 : Nat) ∧
        add allocated l value = some (l, .error .outOfMemory) ∨
      ∃ l', add allocated l value = some (l', .ok xs.length) ∧ Represents l' (xs ++ [value]) := by
  rw [add]
  rcases reserve_spec h allocated with ⟨hrefused, hfail⟩ | ⟨l₁, hok, hrep, hroom⟩
  · rw [hfail]
    exact .inl ⟨hrefused, rfl⟩
  · right
    obtain ⟨spare, hitems⟩ := hrep.room hroom
    have hmax := hrep.capacity_le
    have hset : setElement l₁.items l.size value =
        some (xs ++ value :: List.replicate spare none) :=
      setElement_at xs none _ hitems h.size_eq
    rw [hok]
    simp only [Option.bind_eq_bind, Option.bind_some, hset]
    refine ⟨_, by rw [h.size_eq], ⟨spare, by simp⟩, by simp, ?_⟩
    rw [hitems] at hmax
    simpa using hmax

theorem clear_spec (h : Represents l xs) : ∃ l', clear l = some l' ∧ Represents l' [] := by
  obtain ⟨spare, hitems⟩ := h.items_eq
  have hmax := h.capacity_le
  refine ⟨{ items := List.replicate (xs.length + spare) none, size := 0 }, ?_, ⟨_, rfl⟩, rfl, ?_⟩
  · rw [clear, h.size_eq, clearElements, overwrite, hitems]
    simp
  · rw [hitems] at hmax
    simpa using hmax

theorem insertIdx_length_append (front back : List (Option R)) (value : Option R) :
    (front ++ back).insertIdx front.length value = front ++ value :: back := by
  induction front with
  | nil => rfl
  | cons a front ih =>
    rw [List.cons_append, List.length_cons, List.insertIdx_succ_cons, ih, List.cons_append]

theorem insert_items (value : Option R) {capacity : Nat} (hcapacity : xs.length < capacity)
    (hlow : 0 ≤ index) (hhigh : index ≤ xs.length) (spare : Nat) :
    ∃ items, (if index < xs.length then
        moveUp xs.length xs.length index (xs ++ none :: List.replicate spare none)
      else some (xs ++ none :: List.replicate spare none)) = some items ∧
      setElement items index value =
        some (xs.insertIdx index.toNat value ++ List.replicate spare none) := by
  by_cases hinside : index < xs.length
  · rw [if_pos hinside]
    obtain ⟨front, b, mid, rfl, hindex⟩ := split_at_index hlow hinside
    have hmove := moveUp_spec b index hindex mid (List.replicate spare none) none
      (front ++ b :: mid).length (front ++ b :: mid).length (by simp; omega) (by simp; omega)
    refine ⟨front ++ b :: b :: (mid ++ List.replicate spare none), ?_, ?_⟩
    · rw [← hmove]
      simp
    · rw [setElement_at front b _ rfl hindex, hindex, Int.toNat_natCast,
        insertIdx_length_append]
      simp
  · rw [if_neg hinside]
    refine ⟨_, rfl, ?_⟩
    have hend : index = xs.length := by omega
    rw [setElement_at xs none _ rfl hend, hend, Int.toNat_natCast, List.insertIdx_length_self]
    simp

theorem insert_spec (h : Represents l xs) (allocated : Bool) {index : Int} (hlow : 0 ≤ index)
    (hhigh : index ≤ xs.length) (value : Option R) :
    Refused allocated (xs.length * 3 / 2 : Nat) ∧
        insert allocated l index value = some (l, .failed .outOfMemory) ∨
      ∃ l', insert allocated l index value = some (l', .ok) ∧
        Represents l' (xs.insertIdx index.toNat value) := by
  rw [insert, if_neg (by rw [h.size_eq]; omega)]
  rcases reserve_spec h allocated with ⟨hrefused, hfail⟩ | ⟨l₁, hok, hrep, hroom⟩
  · rw [hfail]
    exact .inl ⟨hrefused, rfl⟩
  · right
    obtain ⟨spare, hitems⟩ := hrep.room hroom
    have hmax := hrep.capacity_le
    obtain ⟨items, hmove, hset⟩ :=
      insert_items value hroom hlow hhigh spare
    rw [hok]
    simp only [Option.bind_eq_bind, Option.bind_some, h.size_eq, hitems, Int.toNat_natCast, hmove,
      hset]
    have hinside : index.toNat ≤ xs.length := by omega
    refine ⟨_, rfl, ⟨spare, rfl⟩, ?_, ?_⟩
    · simp [List.length_insertIdx, hinside]
    · rw [hitems] at hmax
      simp only [List.length_append, List.length_cons, List.length_replicate,
        List.length_insertIdx, hinside, if_true] at hmax ⊢
      omega

theorem removeAt_items (hlow : 0 ≤ index) (hhigh : index < xs.length)
    (spare : Nat) :
    ∃ items, (if index < (xs.length : Int) - 1 then
        moveDown xs.length index (xs.length - 1) (xs ++ List.replicate spare none)
      else some (xs ++ List.replicate spare none)) = some items ∧
      setElement items (xs.length - 1) none =
        some (xs.eraseIdx index.toNat ++ List.replicate (spare + 1) none) := by
  obtain ⟨front, x, back, rfl, hindex⟩ := split_at_index hlow hhigh
  have herase : (front ++ x :: back).eraseIdx index.toNat = front ++ back := by
    rw [hindex, Int.toNat_natCast, List.eraseIdx_append_of_length_le (Nat.le_refl _), Nat.sub_self,
      List.eraseIdx_cons_zero]
  rw [herase, List.replicate_succ]
  cases back with
  | nil =>
    rw [if_neg (by simp; omega)]
    refine ⟨_, rfl, ?_⟩
    rw [setElement_at front x (List.replicate spare none) (by simp) (by simp)]
    simp
  | cons b back =>
    rw [if_pos (by simp; omega)]
    have hmove := moveDown_spec back front (List.replicate spare none) x b
      (front ++ x :: b :: back).length index ((front ++ x :: b :: back).length - 1)
      (by simp; omega) hindex (by simp; omega)
    refine ⟨_, by rw [← hmove]; simp, ?_⟩
    rw [setElement_at (front ++ b :: back) ((b :: back).getLast (List.cons_ne_nil b back))
      (List.replicate spare none) (by simp) (by simp; omega)]

theorem removeAt_spec (h : Represents l xs) (hlow : 0 ≤ index)
    (hhigh : index < xs.length) :
    ∃ l', removeAt l index = some (l', .ok) ∧ Represents l' (xs.eraseIdx index.toNat) := by
  obtain ⟨spare, hitems⟩ := h.items_eq
  have hmax := h.capacity_le
  obtain ⟨items, hmove, hset⟩ := removeAt_items hlow hhigh spare
  rw [removeAt, if_neg (by rw [h.size_eq]; omega)]
  simp only [Option.bind_eq_bind, h.size_eq, hitems, Int.toNat_natCast, hmove, Option.bind_some,
    hset]
  have hinside : index.toNat < xs.length := by omega
  refine ⟨_, rfl, ⟨spare + 1, rfl⟩, ?_, ?_⟩
  · simp only [List.length_eraseIdx_of_lt hinside]
    omega
  · rw [hitems] at hmax
    simp only [List.length_append, List.length_replicate, List.length_eraseIdx_of_lt hinside]
      at hmax ⊢
    omega

/-! ### Runs -/

/-- The array of a `SetCapacity` that the heap has blocks for is allocated in full. -/
def Fits : Op R → Prop
  | .setCapacity allocated newCapacity => allocated = true → ¬ Wraps newCapacity.toInt.toNat
  | _ => True

theorem createInstance_wraps {length : Nat} (h : Wraps length) :
    createInstance (R := R) true length = none := by
  obtain ⟨hbytes, hblocks⟩ := h
  rw [createInstance, if_neg (by omega), Int.toNat_natCast, if_neg (by omega),
    if_neg (by decide), if_neg]
  simp only [sizeofHeapBlockArray, sizeofHeapBlock, HB_MaxSize] at *
  omega

theorem step_follows (l : ArrayList R) (xs : List (Option R)) (op : Op R) (h : Represents l xs)
    (hfits : Fits op) :
    ∃ l' answer ys, step l op = some (l', answer) ∧ Follows xs op ys answer ∧
      Represents l' ys := by
  by_cases hvalid : Valid xs op
  · cases op with
    | getItem index =>
      refine ⟨l, _, xs, ?_, Follows.accepted hvalid, h⟩
      rw [step, getItem_spec h hvalid.1 hvalid.2]
      rfl
    | setItem index value =>
      obtain ⟨l', hok, hrep⟩ := setItem_spec h hvalid.1 hvalid.2 value
      refine ⟨l', _, _, ?_, Follows.accepted hvalid, hrep⟩
      rw [step, hok]
      rfl
    | add allocated value =>
      rcases add_spec h allocated value with ⟨hrefused, hfail⟩ | ⟨l', hok, hrep⟩
      · refine ⟨l, _, xs, ?_, Follows.noMemory hvalid hrefused, h⟩
        rw [step, hfail]
        rfl
      · refine ⟨l', _, _, ?_, Follows.accepted hvalid, hrep⟩
        rw [step, hok]
        rfl
    | clear =>
      obtain ⟨l', hok, hrep⟩ := clear_spec h
      refine ⟨l', _, _, ?_, Follows.accepted hvalid, hrep⟩
      rw [step, hok]
      rfl
    | insert allocated index value =>
      rcases insert_spec h allocated hvalid.1 hvalid.2 value with ⟨hrefused, hfail⟩ | ⟨l', hok, hrep⟩
      · refine ⟨l, _, xs, ?_, Follows.noMemory hvalid hrefused, h⟩
        rw [step, hfail]
        rfl
      · refine ⟨l', _, _, ?_, Follows.accepted hvalid, hrep⟩
        rw [step, hok]
        rfl
    | removeAt index =>
      obtain ⟨l', hok, hrep⟩ := removeAt_spec h hvalid.1 hvalid.2
      refine ⟨l', _, _, ?_, Follows.accepted hvalid, hrep⟩
      rw [step, hok]
      rfl
    | setCapacity allocated newCapacity =>
      rcases setCapacity_spec h allocated newCapacity.toInt hvalid hfits with
        ⟨hrefused, hfail⟩ | ⟨l', hok, hrep, -⟩
      · refine ⟨l, _, xs, ?_, Follows.noMemory hvalid hrefused, h⟩
        rw [step, hfail]
        rfl
      · refine ⟨l', _, _, ?_, Follows.accepted hvalid, hrep⟩
        rw [step, hok]
        rfl
  · refine ⟨l, failure .outOfRange op, xs, ?_, Follows.rejected hvalid, h⟩
    have hsize := h.size_eq
    cases op with
    | add allocated value => exact absurd trivial hvalid
    | clear => exact absurd trivial hvalid
    | getItem index =>
      rw [Valid] at hvalid
      rw [step, getItem, if_pos (by omega)]
      rfl
    | setItem index value =>
      rw [Valid] at hvalid
      rw [step, setItem, if_pos (by omega)]
      rfl
    | insert allocated index value =>
      rw [Valid] at hvalid
      rw [step, insert, if_pos (by omega)]
      rfl
    | removeAt index =>
      rw [Valid] at hvalid
      rw [step, removeAt, if_pos (by omega)]
      rfl
    | setCapacity allocated newCapacity =>
      have hle := h.length_le
      rw [Valid] at hvalid
      rw [step, setCapacity, if_pos (by omega), if_pos (by omega)]
      rfl

theorem step_faults (h : Represents l xs) {op : Op R} (hfits : ¬ Fits op) : step l op = none := by
  cases op with
  | setCapacity allocated newCapacity =>
    rw [Fits, Classical.not_imp, not_not] at hfits
    obtain ⟨rfl, hwraps⟩ := hfits
    have hle := h.length_le
    have hmax := h.capacity_le
    have hbytes := hwraps.1
    simp only [sizeofHeapBlockArray, sizeofHeapBlock, maxElements] at hbytes hmax
    have hfault := createInstance_wraps (R := R) hwraps
    rw [Int.toNat_of_nonneg (by omega)] at hfault
    rw [step, setCapacity, if_pos (by omega), if_neg (by rw [h.size_eq]; omega)]
    simp only
    rw [if_neg (by rw [c_DefaultCapacity]; omega), hfault]
    rfl
  | getItem index => exact absurd trivial hfits
  | setItem index value => exact absurd trivial hfits
  | add allocated value => exact absurd trivial hfits
  | clear => exact absurd trivial hfits
  | insert allocated index value => exact absurd trivial hfits
  | removeAt index => exact absurd trivial hfits

/-- **The array list refines a list**, exactly in the runs from the empty list whose arrays are
    allocated in full: every call follows the list that is seen, and what is not seen is NULL. -/
theorem runs_refine_list (ops : List (Op R)) :
    Meets step (fun _ op => Fits op) (empty : ArrayList R) ops ↔
      ∃ l answers, run step empty ops = some (l, answers) ∧
        SpecRuns Follows [] ops l.contents answers ∧
        ∀ x ∈ l.items.drop l.size.toNat, x = none := by
  constructor
  swap
  · rintro ⟨l, answers, hrun, -, -⟩
    have hstep : ∀ (l : ArrayList R) op l' answer, (∃ xs, Represents l xs) →
        step l op = some (l', answer) → Fits op ∧ ∃ xs, Represents l' xs := by
      rintro l op l' answer ⟨xs, hrep⟩ hstep
      have hfits : Fits op := by
        by_contra hnot
        rw [step_faults hrep hnot] at hstep
        exact absurd hstep (by simp)
      obtain ⟨l₁, answer₁, ys, hstep₁, -, hrep₁⟩ := step_follows l xs op hrep hfits
      rw [hstep] at hstep₁
      obtain rfl : l' = l₁ := congrArg Prod.fst (Option.some.inj hstep₁)
      exact ⟨hfits, ys, hrep₁⟩
    exact meets_of_run step hstep ops empty l answers ⟨[], represents_empty⟩ hrun
  intro h
  obtain ⟨l, answers, xs, hrun, hfollows, hrep⟩ :=
    run_refines step Follows step_follows ops empty [] represents_empty h
  refine ⟨l, answers, hrun, by rwa [hrep.contents_eq], fun x hx => ?_⟩
  obtain ⟨spare, hitems⟩ := hrep.items_eq
  rw [hitems, hrep.size_eq, Int.toNat_natCast, List.drop_left'] at hx
  · exact (List.mem_replicate.mp hx).2
  · rfl

/-- `SetCapacity( 357913942 )` gets an array of three blocks, and writes past its end. -/
theorem setCapacity_past_end :
    lengthHB 357913942 = 3 ∧
      run step (empty : ArrayList Nat) [.setCapacity true 357913942] = none := by
  refine ⟨by decide, ?_⟩
  rw [run, step, setCapacity, if_pos (by decide), if_neg (by decide)]
  rfl

end TinyClr.HeapBlockArrayList
