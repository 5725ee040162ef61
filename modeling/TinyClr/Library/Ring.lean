import Mathlib.Data.List.Basic

/-!
# Ring buffers

A sequence kept in a circular run of cells: element `i` lies in cell `head + i` modulo the
number of cells.  The lemmas say how the two ends move and that the run consists of one or two
straight segments.
-/

namespace TinyClr.Library

variable {α : Type*}

/-- The cells from `head` on, around the end, hold the sequence `xs`. -/
structure Ring (cells : List α) (head : Nat) (xs : List α) : Prop where
  head_lt : head < cells.length
  length_le : xs.length ≤ cells.length
  get : ∀ i (h : i < xs.length), cells[(head + i) % cells.length]? = some xs[i]

namespace Ring

variable {cells : List α} {head : Nat} {xs : List α}

theorem nil (h : 0 < cells.length) : Ring cells 0 [] :=
  ⟨h, Nat.zero_le _, fun _ hi => absurd hi (Nat.not_lt_zero _)⟩

/-- Positions at different distances from the head are different cells. -/
theorem position_ne {cap head i j : Nat} (hij : i < j) (hj : j < cap) :
    (head + i) % cap ≠ (head + j) % cap := by
  intro h
  have hzero := Nat.sub_mod_eq_zero_of_mod_eq h.symm
  rw [Nat.add_sub_add_left, Nat.mod_eq_of_lt (by omega)] at hzero
  omega

/-- Writing the first free cell appends an element. -/
theorem push (h : Ring cells head xs) (hroom : xs.length < cells.length) (x : α) :
    Ring (cells.set ((head + xs.length) % cells.length) x) head (xs ++ [x]) := by
  have hpos : (head + xs.length) % cells.length < cells.length := Nat.mod_lt _ (by omega)
  refine ⟨by simpa using h.head_lt, by simpa [Nat.succ_le_iff] using hroom, fun i hi => ?_⟩
  rw [List.length_append, List.length_singleton] at hi
  rw [List.length_set, List.getElem?_set]
  by_cases hlast : i = xs.length
  · subst hlast
    rw [if_pos rfl, if_pos hpos]
    simp
  · have hlt : i < xs.length := by omega
    rw [if_neg (position_ne hlt hroom).symm, h.get i hlt, List.getElem_append_left hlt]

variable {x : α}

theorem peek (h : Ring cells head (x :: xs)) : cells[head]? = some x := by
  have hget := h.get 0 (by simp)
  rwa [Nat.add_zero, Nat.mod_eq_of_lt h.head_lt] at hget

/-- Overwriting the head cell and moving past it drops the first element. -/
theorem pop (h : Ring cells head (x :: xs)) (y : α) :
    Ring (cells.set head y) ((head + 1) % cells.length) xs := by
  have hle := h.length_le
  have hpos := h.head_lt
  rw [List.length_cons] at hle
  refine ⟨?_, by rw [List.length_set]; omega, fun i hi => ?_⟩
  · rw [List.length_set]
    exact Nat.mod_lt _ (by omega)
  · have hget := h.get (i + 1) (by rw [List.length_cons]; omega)
    have hne := @position_ne cells.length head 0 (i + 1) (by omega) (by omega)
    rw [Nat.add_zero, Nat.mod_eq_of_lt hpos] at hne
    rw [List.length_set, Nat.mod_add_mod, Nat.add_assoc, Nat.add_comm 1, List.getElem?_set,
      if_neg hne, hget, List.getElem_cons_succ]

/-- Moving past the head cell drops the first element. -/
theorem advance (h : Ring cells head (x :: xs)) :
    Ring cells ((head + 1) % cells.length) xs := by
  have hpop := h.pop x
  have hsame : cells.set head x = cells := by
    apply List.ext_getElem?
    intro i
    rw [List.getElem?_set]
    split_ifs with hi hlt
    · rw [← hi, h.peek]
    · exact absurd h.head_lt hlt
    · rfl
  rwa [hsame] at hpop

/-- A fresh run of cells that starts with the sequence. -/
theorem fresh (xs rest : List α) (h : 0 < (xs ++ rest).length) : Ring (xs ++ rest) 0 xs := by
  refine ⟨h, by simp, fun i hi => ?_⟩
  rw [Nat.zero_add, Nat.mod_eq_of_lt (by rw [List.length_append]; omega),
    List.getElem?_append_left hi, List.getElem?_eq_getElem hi]

/-- Moving past several cells drops as many elements. -/
theorem drop (h : Ring cells head xs) {k : Nat} (hk : k ≤ xs.length) :
    Ring cells ((head + k) % cells.length) (xs.drop k) := by
  have hle := h.length_le
  have hpos := h.head_lt
  refine ⟨Nat.mod_lt _ (by omega), by rw [List.length_drop]; omega, fun i hi => ?_⟩
  rw [List.length_drop] at hi
  rw [Nat.mod_add_mod, Nat.add_assoc, h.get (k + i) (by omega), List.getElem_drop]

/-- A part of the run in front of the end is one segment. -/
theorem piece (h : Ring cells head xs) {k : Nat} (hk : k ≤ xs.length)
    (hend : head + k ≤ cells.length) : (cells.drop head).take k = xs.take k := by
  apply List.ext_getElem?
  intro i
  rw [List.getElem?_take, List.getElem?_take]
  split_ifs with hi
  · have hget := h.get i (by omega)
    rw [Nat.mod_eq_of_lt (by omega)] at hget
    rw [List.getElem?_drop, hget, List.getElem?_eq_getElem]
  · rfl

/-- A run that does not pass the end is one segment. -/
theorem straight (h : Ring cells head xs) (hend : head + xs.length ≤ cells.length) :
    (cells.drop head).take xs.length = xs := by
  apply List.ext_getElem?
  intro i
  rw [List.getElem?_take]
  split_ifs with hi
  · have hget := h.get i hi
    rw [Nat.mod_eq_of_lt (by omega)] at hget
    rw [List.getElem?_drop, hget, List.getElem?_eq_getElem hi]
  · rw [List.getElem?_eq_none (by omega)]

/-- A run that reaches the end is the last cells followed by the first ones. -/
theorem wrapped (h : Ring cells head xs) (hend : cells.length ≤ head + xs.length) :
    cells.drop head = xs.take (cells.length - head) ∧
      cells.take (head + xs.length - cells.length) = xs.drop (cells.length - head) := by
  have hhead := h.head_lt
  have hle := h.length_le
  constructor
  · apply List.ext_getElem?
    intro i
    rw [List.getElem?_drop, List.getElem?_take]
    split_ifs with hi
    · have hlt : i < xs.length := by omega
      have hget := h.get i hlt
      rw [Nat.mod_eq_of_lt (by omega)] at hget
      rw [hget, List.getElem?_eq_getElem hlt]
    · rw [List.getElem?_eq_none (by omega)]
  · apply List.ext_getElem?
    intro i
    rw [List.getElem?_drop, List.getElem?_take]
    split_ifs with hi
    · have hlt : cells.length - head + i < xs.length := by omega
      have hget := h.get _ hlt
      rw [show head + (cells.length - head + i) = i + cells.length by omega, Nat.add_mod_right,
        Nat.mod_eq_of_lt (by omega)] at hget
      rw [hget, List.getElem?_eq_getElem hlt]
    · rw [List.getElem?_eq_none (by omega)]

/-- Filling free cells behind the last one, in front of the end, appends elements. -/
theorem pushPiece {ys : List α} {w : Nat} (h : Ring cells head xs)
    (hw : w = (head + xs.length) % cells.length) (hroom : xs.length + ys.length ≤ cells.length)
    (hend : w + ys.length ≤ cells.length) (hys : ys ≠ []) :
    Ring (cells.take w ++ ys ++ cells.drop (w + ys.length)) head (xs ++ ys) := by
  have hpos := List.length_pos_iff.mpr hys
  have hlength : (cells.take w ++ ys ++ cells.drop (w + ys.length)).length = cells.length := by
    rw [List.length_append, List.length_append, List.length_take, List.length_drop]
    omega
  have hfront : (cells.take w ++ ys).length = w + ys.length := by
    rw [List.length_append, List.length_take, Nat.min_eq_left (by omega)]
  refine ⟨hlength.symm ▸ h.head_lt, ?_, fun i hi => ?_⟩
  · rw [hlength, List.length_append]
    exact hroom
  rw [List.length_append] at hi
  rw [hlength]
  rcases Nat.lt_or_ge i xs.length with hold | hnew
  · -- an old element is in none of the cells from `w` on
    have hne : ∀ j < ys.length, (head + i) % cells.length ≠ w + j := by
      intro j hj heq
      have hpos' : w + j = (head + (xs.length + j)) % cells.length := by
        rw [← Nat.add_assoc, ← Nat.mod_add_mod, ← hw, Nat.mod_eq_of_lt (by omega)]
      rw [hpos'] at heq
      exact position_ne (by omega) (by omega) heq
    rw [List.getElem_append_left hold, ← h.get i hold]
    generalize (head + i) % cells.length = pos at hne
    rcases Nat.lt_or_ge pos w with hlow | hlow
    · rw [List.append_assoc, List.getElem?_append_left (by rw [List.length_take]; omega),
        List.getElem?_take_of_lt hlow]
    · have hout : w + ys.length ≤ pos := by
        by_contra hin
        exact hne (pos - w) (by omega) (by omega)
      rw [List.getElem?_append_right (by omega), hfront, List.getElem?_drop,
        Nat.add_sub_cancel' hout]
  · have hpos' : (head + i) % cells.length = w + (i - xs.length) := by
      rw [show head + i = head + xs.length + (i - xs.length) by omega, ← Nat.mod_add_mod, ← hw,
        Nat.mod_eq_of_lt (by omega)]
    rw [hpos', List.getElem_append_right hnew, List.getElem?_append_left (by omega),
      List.getElem?_append_right (by rw [List.length_take]; omega), List.length_take,
      Nat.min_eq_left (by omega), Nat.add_sub_cancel_left, List.getElem?_eq_getElem]

end Ring

end TinyClr.Library
