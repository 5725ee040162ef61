import Mathlib.Data.List.Basic
import Mathlib.Algebra.Group.Nat.Defs

/-!
# Tilings of an interval

A region of memory is tiled by blocks when every block begins where the one before it ends.  A
tiling is given by the list of the blocks' first addresses, and the sizes by a function of the
address, as they are when each block carries its size in a header.  Changing a part of the region
means replacing a stretch of the list by another that tiles the same interval.
-/

namespace TinyClr.Library

/-- `xs` are the first addresses of the tiles between `a` and `b`, in order. -/
inductive Tiles (size : Nat → Nat) : Nat → List Nat → Nat → Prop where
  | nil (a : Nat) : Tiles size a [] a
  | cons {a b : Nat} {xs : List Nat} (hpos : 0 < size a) (hrest : Tiles size (a + size a) xs b) :
      Tiles size a (a :: xs) b

/-- A walk from block to block comes from `a` to `x`, and does not stop there. -/
inductive Visits (size : Nat → Nat) (stop : Nat → Prop) : Nat → Nat → Prop where
  | here {a : Nat} (hgoes : ¬ stop a) : Visits size stop a a
  | later {a x : Nat} (hgoes : ¬ stop a) (hrest : Visits size stop (a + size a) x) :
      Visits size stop a x

variable {stop : Nat → Prop}

theorem Visits.congr {size size' : Nat → Nat} {a x : Nat}
    (h : Visits size stop a x) (heq : ∀ y, Visits size stop a y → size' y = size y) :
    Visits size' stop a x := by
  induction h with
  | here hgoes => exact .here hgoes
  | @later a x hgoes _ ih =>
    have hsame := heq a (.here hgoes)
    refine .later hgoes ?_
    rw [hsame]
    exact ih fun y hy => heq y (.later hgoes hy)

theorem Visits.goes {size : Nat → Nat} {a x : Nat}
    (h : Visits size stop a x) : ¬ stop x := by
  induction h with
  | here hgoes => exact hgoes
  | later _ _ ih => exact ih

namespace Tiles

variable {size size' : Nat → Nat} {a b c x : Nat} {xs ys : List Nat}

theorem le (h : Tiles size a xs b) : a ≤ b := by
  induction h with
  | nil a => exact Nat.le_refl a
  | cons _ _ ih => exact Nat.le_trans (Nat.le_add_right _ _) ih

theorem mem (h : Tiles size a xs b) (hx : x ∈ xs) : a ≤ x ∧ 0 < size x ∧ x + size x ≤ b := by
  induction h with
  | nil a => exact absurd hx List.not_mem_nil
  | cons hpos hrest ih =>
    rcases List.mem_cons.mp hx with rfl | hx
    · exact ⟨Nat.le_refl x, hpos, hrest.le⟩
    · obtain ⟨hle, hbounds⟩ := ih hx
      exact ⟨Nat.le_trans (Nat.le_add_right _ _) hle, hbounds⟩

/-- Tiles of at least a given size are not too many. -/
theorem length_mul_le {k : Nat} (h : Tiles size a xs b) (hsize : ∀ x ∈ xs, k ≤ size x) :
    a + xs.length * k ≤ b := by
  induction h with
  | nil a => simp
  | @cons a b xs hpos hrest ih =>
    have hfirst := hsize a List.mem_cons_self
    have hle := ih fun x hx => hsize x (List.mem_cons_of_mem a hx)
    rw [List.length_cons, Nat.succ_mul]
    omega

/-- Tiles do not overlap. -/
theorem pairwise (h : Tiles size a xs b) : xs.Pairwise fun x y => x + size x ≤ y := by
  induction h with
  | nil a => exact List.Pairwise.nil
  | cons _ hrest ih => exact List.pairwise_cons.mpr ⟨fun y hy => (hrest.mem hy).1, ih⟩

theorem sorted (h : Tiles size a xs b) : xs.Pairwise (· < ·) := by
  refine h.pairwise.imp_of_mem fun {x y} hx _ hle => ?_
  have hpos := (h.mem hx).2.1
  omega

/-- Tiles that overlap are the same. -/
theorem eq_of_overlap (h : Tiles size a xs b) (hx : x ∈ xs) {y : Nat} (hy : y ∈ xs)
    (hxy : x < y + size y) (hyx : y < x + size x) : x = y := by
  induction h with
  | nil a => exact absurd hx List.not_mem_nil
  | cons _ hrest ih =>
    rcases List.mem_cons.mp hx with rfl | hx'
    · rcases List.mem_cons.mp hy with rfl | hy'
      · rfl
      · exact absurd hyx (Nat.not_lt.mpr (hrest.mem hy').1)
    · rcases List.mem_cons.mp hy with rfl | hy'
      · exact absurd hxy (Nat.not_lt.mpr (hrest.mem hx').1)
      · exact ih hx' hy'

/-- Behind a tile comes another one, or the end. -/
theorem next_mem (h : Tiles size a xs b) (hx : x ∈ xs) : x + size x ∈ xs ∨ x + size x = b := by
  induction h with
  | nil a => exact absurd hx List.not_mem_nil
  | @cons a b xs _ hrest ih =>
    rcases List.mem_cons.mp hx with rfl | hx
    · cases hrest with
      | nil => exact Or.inr rfl
      | cons => exact Or.inl (List.mem_cons_of_mem _ List.mem_cons_self)
    · exact (ih hx).imp_left (List.mem_cons_of_mem a)

theorem append (h : Tiles size a xs b) (h' : Tiles size b ys c) : Tiles size a (xs ++ ys) c := by
  induction h with
  | nil a => exact h'
  | cons hpos _ ih => exact cons hpos (ih h')

theorem of_append (h : Tiles size a (xs ++ ys) c) : ∃ b, Tiles size a xs b ∧ Tiles size b ys c := by
  induction xs generalizing a with
  | nil => exact ⟨a, nil a, h⟩
  | cons x xs ih =>
    cases h with
    | cons hpos hrest =>
      obtain ⟨b, hxs, hys⟩ := ih hrest
      exact ⟨b, cons hpos hxs, hys⟩

theorem single_iff : Tiles size a [x] b ↔ x = a ∧ 0 < size a ∧ a + size a = b := by
  constructor
  · intro h
    cases h with
    | cons hpos hrest =>
      cases hrest
      exact ⟨rfl, hpos, rfl⟩
  · rintro ⟨rfl, hpos, rfl⟩
    exact cons hpos (nil _)

theorem cons_iff :
    Tiles size a (x :: xs) b ↔ x = a ∧ 0 < size a ∧ Tiles size (a + size a) xs b := by
  constructor
  · intro h
    cases h with
    | cons hpos hrest => exact ⟨rfl, hpos, hrest⟩
  · rintro ⟨rfl, hpos, hrest⟩
    exact cons hpos hrest

theorem congr (h : Tiles size a xs b) (heq : ∀ x ∈ xs, size' x = size x) :
    Tiles size' a xs b := by
  induction h with
  | nil a => exact nil a
  | @cons a b xs hpos hrest ih =>
    have hsame := heq a List.mem_cons_self
    refine cons (by rw [hsame]; exact hpos) ?_
    rw [hsame]
    exact ih fun x hx => heq x (List.mem_cons_of_mem a hx)

/-- The tiling of an interval is determined by the sizes. -/
theorem unique (h : Tiles size a xs b) (h' : Tiles size a ys b) : xs = ys := by
  induction h generalizing ys with
  | nil a =>
    cases h' with
    | nil => rfl
    | cons hpos hrest => exact absurd hrest.le (by omega)
  | @cons a b xs hpos hrest ih =>
    cases h' with
    | nil => exact absurd hrest.le (by omega)
    | cons _ hrest' => rw [ih hrest']

/-- A stretch of a tiling replaced by another one -/
theorem replace {front mid' back : List Nat} {m n : Nat} (hfront : Tiles size a front m)
    (hmid : Tiles size' m mid' n) (hback : Tiles size n back b)
    (hkeep : ∀ x, x < m ∨ n ≤ x → size' x = size x) : Tiles size' a (front ++ mid' ++ back) b := by
  refine ((hfront.congr fun x hx => hkeep x (Or.inl ?_)).append hmid).append
    (hback.congr fun x hx => hkeep x (Or.inr (hback.mem hx).1))
  obtain ⟨_, hpos, hend⟩ := hfront.mem hx
  omega

/-- A walk that stops at the end of a tiling comes to all of its tiles, and to nothing else. -/
theorem mem_iff_visits (h : Tiles size a xs b) (hend : stop b)
    (hgoes : ∀ y ∈ xs, ¬ stop y) : x ∈ xs ↔ Visits size stop a x := by
  induction h with
  | nil a =>
    refine ⟨fun hx => absurd hx List.not_mem_nil, fun hx => ?_⟩
    cases hx with
    | here hnot => exact absurd hend hnot
    | later hnot _ => exact absurd hend hnot
  | @cons a b xs hpos hrest ih =>
    have hrest' := ih hend fun y hy => hgoes y (List.mem_cons_of_mem a hy)
    have hnot := hgoes a List.mem_cons_self
    rw [List.mem_cons]
    constructor
    · rintro (rfl | hx)
      · exact .here hnot
      · exact .later hnot (hrest'.mp hx)
    · intro hx
      cases hx with
      | here _ => exact Or.inl rfl
      | later _ hlater => exact Or.inr (hrest'.mpr hlater)

end Tiles

end TinyClr.Library
