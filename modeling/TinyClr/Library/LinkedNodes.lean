import Mathlib.Data.List.Basic

/-!
# Doubly linked nodes

Nodes that name their neighbours, as the list of them in order.  `next` and `prev` read the links of
a node; before the first node stands `p`, behind the last one `n`.

A node is inserted behind another one or taken out with the links of its neighbours alone; all
other nodes of the list keep theirs.
-/

namespace TinyClr.Library

def Linked (next prev : Nat → Nat) : Nat → List Nat → Nat → Prop
  | _, [], _ => True
  | p, x :: xs, n => prev x = p ∧ next x = xs.headD n ∧ Linked next prev x xs n

namespace Linked

variable {next prev next' prev' : Nat → Nat} {p n x y : Nat} {xs ys front back : List Nat}

theorem append_iff :
    Linked next prev p (xs ++ ys) n ↔
      Linked next prev p xs (ys.headD n) ∧ Linked next prev (xs.getLastD p) ys n := by
  induction xs generalizing p with
  | nil => exact ⟨fun h => ⟨trivial, h⟩, fun h => h.2⟩
  | cons x xs ih =>
    have hhead : (xs ++ ys).headD n = xs.headD (ys.headD n) := by cases xs <;> rfl
    have hlast : (x :: xs).getLastD p = xs.getLastD x := List.getLastD_cons
    rw [List.cons_append, Linked, Linked, ih, hhead, hlast]
    tauto

theorem congr (h : Linked next prev p xs n) (hnext : ∀ z ∈ xs, next' z = next z)
    (hprev : ∀ z ∈ xs, prev' z = prev z) : Linked next' prev' p xs n := by
  induction xs generalizing p with
  | nil => trivial
  | cons x xs ih =>
    obtain ⟨hp, hn, hrest⟩ := h
    refine ⟨(hprev x List.mem_cons_self).trans hp, (hnext x List.mem_cons_self).trans hn, ?_⟩
    exact ih hrest (fun z hz => hnext z (List.mem_cons_of_mem x hz))
      fun z hz => hprev z (List.mem_cons_of_mem x hz)

/-- Only the first node names what stands before the list. -/
theorem rehead (h : Linked next prev p xs n) (hnodup : xs.Nodup)
    (hnext : ∀ z ∈ xs, next' z = next z)
    (hprev : ∀ z ∈ xs, xs.head? ≠ some z → prev' z = prev z)
    (hfirst : ∀ z ∈ xs.head?, prev' z = x) : Linked next' prev' x xs n := by
  cases xs with
  | nil => trivial
  | cons z xs =>
    obtain ⟨-, hn, hrest⟩ := h
    obtain ⟨hz, -⟩ := List.nodup_cons.mp hnodup
    refine ⟨hfirst z rfl, (hnext z List.mem_cons_self).trans hn, hrest.congr
      (fun w hw => hnext w (List.mem_cons_of_mem z hw))
      fun w hw => hprev w (List.mem_cons_of_mem z hw) fun h => hz ?_⟩
    rw [Option.some.inj h]
    exact hw

section Change

variable (hnodup : (front ++ x :: back).Nodup)
  (hnext : ∀ z ∈ front ++ x :: back, z ≠ x → next' z = next z)
  (hprev : ∀ z ∈ front ++ x :: back, back.head? ≠ some z → prev' z = prev z)

include hnodup hnext hprev

/-- What a new neighbour behind `x` leaves: the nodes up to `x`, and those behind it. -/
theorem around {w : Nat} (h : Linked next prev p front x) (hx : prev x = front.getLastD p)
    (hback : Linked next prev y back n) (hfirst : ∀ z ∈ back.head?, prev' z = w) :
    Linked next' prev' p front x ∧ prev' x = front.getLastD p ∧ Linked next' prev' w back n := by
  obtain ⟨hfront, hrest, hdisjoint⟩ := List.nodup_append.mp hnodup
  obtain ⟨hxback, hbacknodup⟩ := List.nodup_cons.mp hrest
  have hhead : ∀ {z}, back.head? = some z → z ∈ back := List.mem_of_mem_head?
  refine ⟨h.congr (fun z hz => hnext z (List.mem_append_left _ hz) ?_)
      (fun z hz => hprev z (List.mem_append_left _ hz) fun hz' => ?_), ?_, ?_⟩
  · exact hdisjoint z hz x List.mem_cons_self
  · exact hdisjoint z hz z (List.mem_cons_of_mem x (hhead hz')) rfl
  · exact (hprev x (List.mem_append_right _ List.mem_cons_self)
      fun h' => hxback (hhead h')).trans hx
  · have hmem : ∀ {z}, z ∈ back → z ∈ front ++ x :: back :=
      fun hz => List.mem_append_right _ (List.mem_cons_of_mem x hz)
    exact hback.rehead hbacknodup
      (fun z hz => hnext z (hmem hz) fun h' => hxback (h' ▸ hz)) (fun z hz => hprev z (hmem hz))
      hfirst

/-- **A node taken out.** -/
theorem remove (h : Linked next prev p (front ++ x :: y :: back) n) (hx : next' x = next y)
    (hfirst : ∀ z ∈ back.head?, prev' z = x) : Linked next' prev' p (front ++ x :: back) n := by
  obtain ⟨hfront, hpx, -, -, hny, hback⟩ := append_iff.mp h
  obtain ⟨h₁, h₂, h₃⟩ := around hnodup hnext hprev hfront hpx hback hfirst
  exact append_iff.mpr ⟨h₁, h₂, hx.trans hny, h₃⟩

/-- **A node inserted.** -/
theorem insert (h : Linked next prev p (front ++ x :: back) n) (hx : next' x = y)
    (hpy : prev' y = x) (hny : next' y = next x) (hfirst : ∀ z ∈ back.head?, prev' z = y) :
    Linked next' prev' p (front ++ x :: y :: back) n := by
  obtain ⟨hfront, hpx, hnx, hback⟩ := append_iff.mp h
  obtain ⟨h₁, h₂, h₃⟩ := around hnodup hnext hprev hfront hpx hback hfirst
  exact append_iff.mpr ⟨h₁, h₂, hx, hpy, hny.trans hnx, h₃⟩

end Change

end Linked

end TinyClr.Library
