import Mathlib.Data.List.GetD
import TinyClr.Library.Overlay

/-!
# Overwriting and resizing lists

A list whose elements from a position on are replaced, the list growing when the replacement reaches
past its end, and a list that is cut or filled up to a length.  Both are described by the element
at each position, with a default past the end.
-/

namespace TinyClr.Library

variable {α : Type*} {data src : List α} {p n i : Nat} {d : α}

def splice (data : List α) (p : Nat) (src : List α) : List α :=
  data.take p ++ src ++ data.drop (p + src.length)

/-- The list is cut to a length, or filled up to it. -/
def resize (data : List α) (n : Nat) (d : α) : List α :=
  data.take n ++ List.replicate (n - data.length) d

theorem length_splice (hp : p ≤ data.length) :
    (splice data p src).length = max data.length (p + src.length) := by
  rw [splice, List.length_append, List.length_append, List.length_take, List.length_drop]
  omega

@[simp] theorem length_resize : (resize data n d).length = n := by
  rw [resize, List.length_append, List.length_take, List.length_replicate]
  omega

theorem getD_splice (hp : p ≤ data.length) :
    (splice data p src).getD i d =
      overlay (fun i => data.getD i d) p src.length (fun i => src.getD i d) i := by
  have hfront : (data.take p ++ src).length = p + src.length := by
    rw [List.length_append, List.length_take, Nat.min_eq_left hp]
  rcases Nat.lt_or_ge i p with hlow | hlow
  · rw [overlay_outside (Or.inl hlow), splice, List.append_assoc,
      List.getD_append _ _ _ _ (by rw [List.length_take]; omega), List.getD_eq_getElem?_getD,
      List.getElem?_take_of_lt hlow, ← List.getD_eq_getElem?_getD]
  · rcases Nat.lt_or_ge i (p + src.length) with hhigh | hhigh
    · rw [overlay_inside hlow hhigh, splice, List.getD_append _ _ _ _ (by omega),
        List.getD_append_right _ _ _ _ (by rw [List.length_take]; omega), List.length_take,
        Nat.min_eq_left hp]
    · rw [overlay_outside (Or.inr hhigh), splice, List.getD_append_right _ _ _ _ (by omega), hfront,
        List.getD_eq_getElem?_getD, List.getElem?_drop, ← List.getD_eq_getElem?_getD,
        Nat.add_sub_cancel' hhigh]

/-! ### Slices -/

/-- `slice` are the `count` elements from `index` on; no elements are a slice at every place. -/
structure SliceAt (xs : List α) (index count : Int) (slice : List α) : Prop where
  count : (slice.length : Int) = count
  position : slice = [] ∨ ∃ before after,
    xs = before ++ slice ++ after ∧ (before.length : Int) = index

section Slices

variable {xs slice slice' : List α} {index count : Int}

theorem SliceAt.nil (xs : List α) (index : Int) : SliceAt xs index 0 [] := ⟨rfl, Or.inl rfl⟩

/-- The elements of a list from a place on -/
theorem SliceAt.of_range (hindex : 0 ≤ index) (hcount : 0 ≤ count)
    (hle : index + count ≤ xs.length) :
    SliceAt xs index count ((xs.drop index.toNat).take count.toNat) := by
  have hbefore : ((xs.take index.toNat).length : Int) = index := by
    rw [List.length_take]
    omega
  constructor
  · rw [List.length_take, List.length_drop]
    omega
  · refine Or.inr ⟨xs.take index.toNat, (xs.drop index.toNat).drop count.toNat, ?_, hbefore⟩
    rw [List.append_assoc, List.take_append_drop, List.take_append_drop]

theorem SliceAt.append (h : SliceAt xs index count slice) (ys : List α) :
    SliceAt (xs ++ ys) index count slice := by
  obtain ⟨hlength, hnil | ⟨before, after, rfl, hindex⟩⟩ := h
  · exact ⟨hlength, Or.inl hnil⟩
  · refine ⟨hlength, Or.inr ⟨before, after ++ ys, ?_, hindex⟩⟩
    rw [List.append_assoc, List.append_assoc]

/-- A slice with elements is in the list. -/
theorem SliceAt.range (h : SliceAt xs index count slice) (hcount : 0 < count) :
    0 ≤ index ∧ index + count ≤ xs.length ∧
      slice = (xs.drop index.toNat).take count.toNat := by
  obtain ⟨hlength, rfl | ⟨before, after, rfl, hindex⟩⟩ := h
  · rw [List.length_nil] at hlength
    omega
  · have hstart : index.toNat = before.length := by omega
    have hend : count.toNat = slice.length := by omega
    refine ⟨by omega, ?_, ?_⟩
    · rw [List.length_append, List.length_append]
      omega
    · rw [hstart, hend, List.append_assoc, List.drop_left, List.take_left]

theorem SliceAt.nil_of_count (h : SliceAt xs index 0 slice) : slice = [] := by
  have hlength := h.count
  exact List.eq_nil_of_length_eq_zero (by omega)

theorem SliceAt.unique (h : SliceAt xs index count slice) (h' : SliceAt xs index count slice') :
    slice = slice' := by
  have hlength := h.count
  rcases Int.lt_or_eq_of_le (show 0 ≤ count by omega) with hpos | rfl
  · rw [(h.range hpos).2.2, (h'.range hpos).2.2]
  · rw [h.nil_of_count, h'.nil_of_count]

end Slices

/-- What is written at a place shows what was written. -/
theorem splice_injective {src' : List α} (hlength : src.length = src'.length)
    (h : splice data p src = splice data p src') : src = src' := by
  rw [splice, splice, List.append_assoc, List.append_assoc] at h
  exact (List.append_inj (List.append_cancel_left h) hlength).1

end TinyClr.Library
