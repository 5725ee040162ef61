import Mathlib.Data.Multiset.Bind
import Mathlib.Algebra.BigOperators.Group.Finset.Piecewise
import Mathlib.Data.Nat.Init

/-!
# Stores of blocks

A store takes blocks of memory, hands them out, and keeps those given back on shelves, one list
for each class of blocks.  Blocks are compared by their cells, as multisets, so that nothing is
counted twice and nothing is lost: cutting a block in two changes no account, and moving one
between a shelf and the outside changes two accounts by the same cells.
-/

namespace TinyClr.Library

variable {κ α : Type*}

/-! ### Blocks and their cells -/

/-- A block: the region it lies in, its first cell there, and its length -/
abbrev Block (κ : Type*) := (κ × Nat) × Nat

def Block.cells (b : Block κ) : List (κ × Nat) := (List.range' b.1.2 b.2).map (Prod.mk b.1.1)

def Block.Apart (a b : Block κ) : Prop :=
  a.1.1 ≠ b.1.1 ∨ a.1.2 + a.2 ≤ b.1.2 ∨ b.1.2 + b.2 ≤ a.1.2

/-- A block that is cut in two -/
theorem Block.cells_cut (p : κ × Nat) (m n : Nat) :
    Block.cells (p, m + n) = Block.cells (p, m) ++ Block.cells ((p.1, p.2 + m), n) := by
  rw [Block.cells, Block.cells, Block.cells, ← List.map_append, List.range'_append_1]

/-- The cells of several blocks, as often as they belong to one -/
def account (bs : Multiset (Block κ)) : Multiset (κ × Nat) := bs.bind fun b => Block.cells b

@[simp] theorem account_zero : account (0 : Multiset (Block κ)) = 0 := Multiset.zero_bind _

@[simp] theorem account_cons (b : Block κ) (bs : Multiset (Block κ)) :
    account (b ::ₘ bs) = Block.cells b + account bs := Multiset.cons_bind b bs _

@[simp] theorem account_add (as bs : Multiset (Block κ)) :
    account (as + bs) = account as + account bs := Multiset.add_bind as bs _

theorem account_coe (bs : List (Block κ)) : account (bs : Multiset (Block κ)) =
    (bs.flatMap Block.cells : Multiset (κ × Nat)) := Multiset.coe_bind bs _

/-- Cutting a block changes no account. -/
theorem account_cut (p : κ × Nat) (m n : Nat) (bs : Multiset (Block κ)) :
    account ((p, m + n) ::ₘ bs) = account ((p, m) ::ₘ ((p.1, p.2 + m), n) ::ₘ bs) := by
  rw [account_cons, account_cons, account_cons, Block.cells_cut, ← Multiset.coe_add, add_assoc]

/-! ### Shelves -/

def shelved (n : Nat) (lists : Nat → List α) : Multiset α :=
  ∑ i ∈ Finset.range n, (lists i : Multiset α)

variable {n i : Nat} {lists : Nat → List α}

theorem mem_shelved {a : α} : a ∈ shelved n lists ↔ ∃ i < n, a ∈ lists i := by
  simp [shelved, Multiset.mem_sum]

@[simp] theorem shelved_nil : shelved n (fun _ => ([] : List α)) = 0 :=
  Finset.sum_eq_zero fun _ _ => rfl

/-- One shelf is rearranged. -/
theorem shelved_update (hi : i < n) (lists : Nat → List α) (l : List α) :
    shelved n (Function.update lists i l) + lists i = l + shelved n lists := by
  have hmem : i ∈ Finset.range n := Finset.mem_range.mpr hi
  have hlists : ∀ j, ((Function.update lists i l j : List α) : Multiset α) =
      Function.update (fun j => (lists j : Multiset α)) i (l : Multiset α) j := by
    intro j
    by_cases hj : j = i
    · rw [hj, Function.update_self, Function.update_self]
    · rw [Function.update_of_ne hj, Function.update_of_ne hj]
  have hrest := Finset.sum_sdiff (Finset.singleton_subset_iff.mpr hmem)
    (f := fun j => (lists j : Multiset α))
  rw [Finset.sum_singleton] at hrest
  rw [shelved, Finset.sum_congr rfl fun j _ => hlists j, Finset.sum_update_of_mem hmem, add_assoc,
    hrest, shelved]

/-- Putting something at the end of a shelf -/
theorem shelved_push (hi : i < n) (a : α) :
    shelved n (Function.update lists i (lists i ++ [a])) = a ::ₘ shelved n lists := by
  have h := shelved_update hi lists (lists i ++ [a])
  rw [← Multiset.coe_add, Multiset.coe_singleton, add_assoc, add_comm (lists i : Multiset α),
    Multiset.singleton_add] at h
  exact add_right_cancel h

/-- Taking something off a shelf -/
theorem shelved_erase [BEq α] [LawfulBEq α] (hi : i < n) {a : α} (ha : a ∈ lists i) :
    a ::ₘ shelved n (Function.update lists i ((lists i).erase a)) = shelved n lists := by
  have h := shelved_update hi lists ((lists i).erase a)
  have hlist : (lists i : Multiset α) = a ::ₘ ((lists i).erase a : Multiset α) :=
    Multiset.coe_eq_coe.mpr (List.perm_cons_erase ha)
  rw [hlist, Multiset.add_cons, ← Multiset.cons_add, add_comm] at h
  exact add_left_cancel h

/-- The shelves, one after another -/
theorem shelved_map {β : Type*} (n : Nat) (lists : Nat → List α) (f : α → β) :
    (shelved n lists).map f =
      ((List.range n).flatMap fun i => (lists i).map f : List β) := by
  induction n with
  | zero => rfl
  | succ n ih =>
    rw [shelved, Finset.sum_range_succ, Multiset.map_add, List.range_succ, List.flatMap_append,
      List.flatMap_singleton, ← Multiset.coe_add, ← ih, Multiset.map_coe, shelved]

end TinyClr.Library
