import TinyClr.Core.AvlTree
import Mathlib.Tactic.Linarith

/-!
# Balance of the AVL tree

`m_skew` is the difference of the subtree heights at every node, and `RES_OK` / `RES_BALANCE`
report a height change exactly.  Each repair routine gets one specification: it does not fault,
keeps the in-order sequence, restores balance and reports the new height against the old one.
-/

namespace TinyClr.AvlTree

variable {α : Type*}

namespace Tree

def toList : Tree α → List α
  | .nil => []
  | .node l a _ r => toList l ++ a :: toList r

def height : Tree α → Nat
  | .nil => 0
  | .node l _ _ r => max (height l) (height r) + 1

def rootSkew : Tree α → Skew
  | .nil => .none
  | .node _ _ s _ => s

/-- Every node's `m_skew` is `height(right) - height(left)`; as `Skew` has three values, the
    difference lies in `{-1, 0, 1}`. -/
def AvlBalanced : Tree α → Prop
  | .nil => True
  | .node l _ s r => AvlBalanced l ∧ AvlBalanced r ∧ s.toInt = (height r : Int) - height l

end Tree

open AvlTree.Tree

/-- A subtree whose height just rose is a fresh leaf or leans to one side. -/
def Grown (t : Tree α) : Prop := height t = 1 ∨ rootSkew t ≠ .none

/-- How `LeftGrown`, `RightGrown` and `Insert` report against the height before the insertion. -/
def GrowthReport (old : Nat) (t : Tree α) (res : Result) : Prop :=
  (res = .ok ∧ height t = old) ∨ (res = .balance ∧ height t = old + 1 ∧ Grown t)

/-- How `LeftShrunk`, `RightShrunk` and `Remove` report against the height before the removal. -/
def ShrinkReport (old : Nat) (t : Tree α) (res : Result) : Prop :=
  (res = .ok ∧ height t = old) ∨ (res = .balance ∧ height t + 1 = old)

/-- A repair routine's outcome: no fault, the in-order sequence `xs`, balance, and `report`. -/
def Repairs (out : Option (Tree α × Result)) (xs : List α)
    (report : Tree α → Result → Prop) : Prop :=
  ∃ t res, out = some (t, res) ∧ toList t = xs ∧ AvlBalanced t ∧ report t res

/-! ### Double rotations -/

variable {r : Tree α} {a : α} {s : Skew}

theorem rotateLeftRight_spec {ll lr : Tree α} {b : α}
    (hl : AvlBalanced (.node ll b .right lr)) (hr : AvlBalanced r)
    (hgap : height ll + 1 = height lr) (hside : height r = height ll) :
    ∃ t, rotateLeftRight (.node (.node ll b .right lr) a s r) = some t ∧
      toList t = toList ll ++ b :: (toList lr ++ a :: toList r) ∧ AvlBalanced t ∧
      height t = height lr + 1 := by
  obtain ⟨hll, hlr, -⟩ := hl
  cases lr with
  | nil => simp only [height] at hgap; omega
  | node rl c t rr =>
    obtain ⟨hrl, hrr, hskew⟩ := hlr
    simp only [height] at hgap
    cases t <;>
      simp only [Skew.toInt] at hskew <;>
      refine ⟨_, rfl, by simp [toList], ?_, ?_⟩ <;>
      simp only [AvlBalanced, height, leftRightSkews, Skew.toInt, hll, hrl, hrr, hr, true_and] <;>
      omega

variable {l : Tree α}

theorem rotateRightLeft_spec {rl rr : Tree α} {b : α}
    (hl : AvlBalanced l) (hr : AvlBalanced (.node rl b .left rr))
    (hgap : height rr + 1 = height rl) (hside : height l = height rr) :
    ∃ t, rotateRightLeft (.node l a s (.node rl b .left rr)) = some t ∧
      toList t = toList l ++ a :: (toList rl ++ b :: toList rr) ∧ AvlBalanced t ∧
      height t = height rl + 1 := by
  obtain ⟨hrl, hrr, -⟩ := hr
  cases rl with
  | nil => simp only [height] at hgap; omega
  | node ll c t lr =>
    obtain ⟨hll, hlr, hskew⟩ := hrl
    simp only [height] at hgap
    cases t <;>
      simp only [Skew.toInt] at hskew <;>
      refine ⟨_, rfl, by simp [toList], ?_, ?_⟩ <;>
      simp only [AvlBalanced, height, rightLeftSkews, Skew.toInt, hll, hlr, hrr, hl, true_and] <;>
      omega

/-! ### The four repair routines -/

theorem leftGrown_spec (hl : AvlBalanced l) (hr : AvlBalanced r)
    (hgrown : Grown l) (hs : s.toInt = (height r : Int) - ((height l : Int) - 1)) :
    Repairs (leftGrown (.node l a s r)) (toList l ++ a :: toList r)
      (GrowthReport (max (height l - 1) (height r) + 1)) := by
  cases s with
  | right =>
    simp only [Skew.toInt] at hs
    refine ⟨_, _, rfl, rfl, ⟨hl, hr, ?_⟩, Or.inl ⟨rfl, ?_⟩⟩ <;>
      simp only [Skew.toInt, height] <;> omega
  | none =>
    simp only [Skew.toInt] at hs
    refine ⟨_, _, rfl, rfl, ⟨hl, hr, ?_⟩, Or.inr ⟨rfl, ?_, Or.inr (by simp [rootSkew])⟩⟩ <;>
      simp only [Skew.toInt, height] <;> omega
  | left =>
    simp only [Skew.toInt] at hs
    cases l with
    | nil => simp [Grown, height, rootSkew] at hgrown
    | node ll b t lr =>
      have hbal := hl
      obtain ⟨hll, hlr, ht⟩ := hl
      simp only [height] at hs
      cases t with
      | left =>
        simp only [Skew.toInt] at ht
        refine ⟨_, _, rfl, by simp [toList], ⟨hll, ⟨hlr, hr, ?_⟩, ?_⟩, Or.inl ⟨rfl, ?_⟩⟩ <;>
          simp only [Skew.toInt, height] <;> omega
      | none =>
        -- a level node that has grown is a leaf, too low to unbalance `n`
        simp only [Grown, rootSkew, height, ne_eq, not_true, or_false] at hgrown
        omega
      | right =>
        simp only [Skew.toInt] at ht
        obtain ⟨t', hrot, hlist, hbal', hheight⟩ :=
          rotateLeftRight_spec (a := a) (s := .left) hbal hr (by omega) (by omega)
        refine ⟨t', .ok, by simp [leftGrown, hrot], by simp [hlist, toList], hbal',
          Or.inl ⟨rfl, ?_⟩⟩
        simp only [height]
        omega

theorem rightGrown_spec (hl : AvlBalanced l) (hr : AvlBalanced r)
    (hgrown : Grown r) (hs : s.toInt = ((height r : Int) - 1) - height l) :
    Repairs (rightGrown (.node l a s r)) (toList l ++ a :: toList r)
      (GrowthReport (max (height l) (height r - 1) + 1)) := by
  cases s with
  | left =>
    simp only [Skew.toInt] at hs
    refine ⟨_, _, rfl, rfl, ⟨hl, hr, ?_⟩, Or.inl ⟨rfl, ?_⟩⟩ <;>
      simp only [Skew.toInt, height] <;> omega
  | none =>
    simp only [Skew.toInt] at hs
    have hpos : 0 < height r := by
      cases r with
      | nil => simp [Grown, height, rootSkew] at hgrown
      | node _ _ _ _ => simp only [height]; omega
    refine ⟨_, _, rfl, rfl, ⟨hl, hr, ?_⟩, Or.inr ⟨rfl, ?_, Or.inr (by simp [rootSkew])⟩⟩ <;>
      simp only [Skew.toInt, height] <;> omega
  | right =>
    simp only [Skew.toInt] at hs
    cases r with
    | nil => simp [Grown, height, rootSkew] at hgrown
    | node rl b t rr =>
      have hbal := hr
      obtain ⟨hrl, hrr, ht⟩ := hr
      simp only [height] at hs
      cases t with
      | right =>
        simp only [Skew.toInt] at ht
        refine ⟨_, _, rfl, by simp [toList], ⟨⟨hl, hrl, ?_⟩, hrr, ?_⟩, Or.inl ⟨rfl, ?_⟩⟩ <;>
          simp only [Skew.toInt, height] <;> omega
      | none =>
        simp only [Grown, rootSkew, height, ne_eq, not_true, or_false] at hgrown
        omega
      | left =>
        simp only [Skew.toInt] at ht
        obtain ⟨t', hrot, hlist, hbal', hheight⟩ :=
          rotateRightLeft_spec (a := a) (s := .right) hl hbal (by omega) (by omega)
        refine ⟨t', .ok, by simp [rightGrown, hrot], by simp [hlist, toList], hbal',
          Or.inl ⟨rfl, ?_⟩⟩
        simp only [height]
        omega

theorem leftShrunk_spec (hl : AvlBalanced l) (hr : AvlBalanced r)
    (hs : s.toInt = (height r : Int) - ((height l : Int) + 1)) :
    Repairs (leftShrunk (.node l a s r)) (toList l ++ a :: toList r)
      (ShrinkReport (max (height l + 1) (height r) + 1)) := by
  cases s with
  | left =>
    simp only [Skew.toInt] at hs
    refine ⟨_, _, rfl, rfl, ⟨hl, hr, ?_⟩, Or.inr ⟨rfl, ?_⟩⟩ <;>
      simp only [Skew.toInt, height] <;> omega
  | none =>
    simp only [Skew.toInt] at hs
    refine ⟨_, _, rfl, rfl, ⟨hl, hr, ?_⟩, Or.inl ⟨rfl, ?_⟩⟩ <;>
      simp only [Skew.toInt, height] <;> omega
  | right =>
    simp only [Skew.toInt] at hs
    cases r with
    | nil => simp only [height] at hs; omega
    | node rl b t rr =>
      have hbal := hr
      obtain ⟨hrl, hrr, ht⟩ := hr
      simp only [height] at hs
      cases t with
      | right =>
        simp only [Skew.toInt] at ht
        refine ⟨_, _, rfl, by simp [toList], ⟨⟨hl, hrl, ?_⟩, hrr, ?_⟩, Or.inr ⟨rfl, ?_⟩⟩ <;>
          simp only [Skew.toInt, height] <;> omega
      | none =>
        simp only [Skew.toInt] at ht
        refine ⟨_, _, rfl, by simp [toList], ⟨⟨hl, hrl, ?_⟩, hrr, ?_⟩, Or.inl ⟨rfl, ?_⟩⟩ <;>
          simp only [Skew.toInt, height] <;> omega
      | left =>
        simp only [Skew.toInt] at ht
        obtain ⟨t', hrot, hlist, hbal', hheight⟩ :=
          rotateRightLeft_spec (a := a) (s := .right) hl hbal (by omega) (by omega)
        refine ⟨t', .balance, by simp [leftShrunk, hrot], by simp [hlist, toList], hbal',
          Or.inr ⟨rfl, ?_⟩⟩
        simp only [height]
        omega

theorem rightShrunk_spec (hl : AvlBalanced l) (hr : AvlBalanced r)
    (hs : s.toInt = ((height r : Int) + 1) - height l) :
    Repairs (rightShrunk (.node l a s r)) (toList l ++ a :: toList r)
      (ShrinkReport (max (height l) (height r + 1) + 1)) := by
  cases s with
  | right =>
    simp only [Skew.toInt] at hs
    refine ⟨_, _, rfl, rfl, ⟨hl, hr, ?_⟩, Or.inr ⟨rfl, ?_⟩⟩ <;>
      simp only [Skew.toInt, height] <;> omega
  | none =>
    simp only [Skew.toInt] at hs
    refine ⟨_, _, rfl, rfl, ⟨hl, hr, ?_⟩, Or.inl ⟨rfl, ?_⟩⟩ <;>
      simp only [Skew.toInt, height] <;> omega
  | left =>
    simp only [Skew.toInt] at hs
    cases l with
    | nil => simp only [height] at hs; omega
    | node ll b t lr =>
      have hbal := hl
      obtain ⟨hll, hlr, ht⟩ := hl
      simp only [height] at hs
      cases t with
      | left =>
        simp only [Skew.toInt] at ht
        refine ⟨_, _, rfl, by simp [toList], ⟨hll, ⟨hlr, hr, ?_⟩, ?_⟩, Or.inr ⟨rfl, ?_⟩⟩ <;>
          simp only [Skew.toInt, height] <;> omega
      | none =>
        simp only [Skew.toInt] at ht
        refine ⟨_, _, rfl, by simp [toList], ⟨hll, ⟨hlr, hr, ?_⟩, ?_⟩, Or.inl ⟨rfl, ?_⟩⟩ <;>
          simp only [Skew.toInt, height] <;> omega
      | right =>
        simp only [Skew.toInt] at ht
        obtain ⟨t', hrot, hlist, hbal', hheight⟩ :=
          rotateLeftRight_spec (a := a) (s := .left) hbal hr (by omega) (by omega)
        refine ⟨t', .balance, by simp [rightShrunk, hrot], by simp [hlist, toList], hbal',
          Or.inr ⟨rfl, ?_⟩⟩
        simp only [height]
        omega

end TinyClr.AvlTree
