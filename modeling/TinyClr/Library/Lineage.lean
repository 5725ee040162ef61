import Mathlib.Data.List.Nodup
import Mathlib.Data.List.Perm.Subperm
import Mathlib.Logic.Relation

/-!
# Lineages

A partial function gives each element its parent.  If no element is its own ancestor and an element
has finitely many ancestors, the walk from it towards the root ends, and a walk with as much fuel
as there are elements reaches the end.
-/

namespace TinyClr.Library

variable {α : Type*} {parent : α → Option α} {a b : α} {n : Nat}

def Ancestor (parent : α → Option α) : α → α → Prop :=
  Relation.ReflTransGen fun a b => parent a = some b

def Acyclic (parent : α → Option α) : Prop :=
  ∀ a, ¬ Relation.TransGen (fun a b => parent a = some b) a a

/-- `a` and its ancestors, nearest first, as far as the fuel goes -/
def lineage (parent : α → Option α) : Nat → α → List α
  | 0, _ => []
  | fuel + 1, a => a :: match parent a with
    | none => []
    | some b => lineage parent fuel b

theorem lineage_root (h : parent a = none) (n : Nat) : lineage parent (n + 1) a = [a] := by
  rw [lineage, h]

theorem lineage_child (h : parent a = some b) (n : Nat) :
    lineage parent (n + 1) a = a :: lineage parent n b := by
  rw [lineage, h]

theorem ancestor_of_mem (h : b ∈ lineage parent n a) : Ancestor parent a b := by
  induction n generalizing a with
  | zero => cases h
  | succ n ih =>
    cases hp : parent a with
    | none =>
      rw [lineage_root hp] at h
      rw [List.mem_singleton.mp h]
      exact Relation.ReflTransGen.refl
    | some c =>
      rw [lineage_child hp] at h
      rcases List.mem_cons.mp h with rfl | h
      · exact Relation.ReflTransGen.refl
      · exact Relation.ReflTransGen.head hp (ih h)

/-- No element comes twice. -/
theorem nodup_lineage (hacyclic : Acyclic parent) (n : Nat) (a : α) :
    (lineage parent n a).Nodup := by
  induction n generalizing a with
  | zero => exact List.nodup_nil
  | succ n ih =>
    cases hp : parent a with
    | none =>
      rw [lineage_root hp]
      exact List.nodup_singleton a
    | some b =>
      rw [lineage_child hp, List.nodup_cons]
      refine ⟨fun hmem => ?_, ih b⟩
      exact hacyclic a (Relation.TransGen.head' hp (ancestor_of_mem hmem))

/-- The fuel is enough to reach the end. -/
theorem length_lineage_lt (hacyclic : Acyclic parent) {all : List α}
    (hall : ∀ b, Ancestor parent a b → b ∈ all) (hfuel : all.length < n) :
    (lineage parent n a).length < n := by
  refine Nat.lt_of_le_of_lt ?_ hfuel
  exact (List.subperm_of_subset (nodup_lineage hacyclic n a)
    fun b hb => hall b (ancestor_of_mem hb)).length_le

/-- More fuel changes nothing. -/
theorem lineage_succ (h : (lineage parent n a).length < n) :
    lineage parent (n + 1) a = lineage parent n a := by
  induction n generalizing a with
  | zero => cases h
  | succ n ih =>
    cases hp : parent a with
    | none => rw [lineage_root hp, lineage_root hp]
    | some b =>
      rw [lineage_child hp] at h
      rw [lineage_child hp, lineage_child hp, ih (Nat.lt_of_succ_lt_succ h)]

/-- The lineage of a child is that of its parent, and the child in front. -/
theorem lineage_eq_cons (h : (lineage parent n a).length < n) (hp : parent a = some b) :
    lineage parent n a = a :: lineage parent n b ∧ (lineage parent n b).length < n := by
  obtain ⟨n, rfl⟩ := Nat.exists_eq_succ_of_ne_zero (Nat.ne_of_gt (Nat.zero_lt_of_lt h))
  rw [lineage_child hp, List.length_cons] at h
  have hlt := Nat.lt_of_succ_lt_succ h
  rw [lineage_child hp, lineage_succ hlt]
  exact ⟨rfl, Nat.lt_succ_of_lt hlt⟩

/-- A lineage that reached its end lists all ancestors. -/
theorem mem_lineage_iff (h : (lineage parent n a).length < n) :
    b ∈ lineage parent n a ↔ Ancestor parent a b := by
  refine ⟨ancestor_of_mem, fun hb => ?_⟩
  have hself : ∀ c, (lineage parent n c).length < n → c ∈ lineage parent n c := by
    intro c hc
    obtain ⟨n, rfl⟩ := Nat.exists_eq_succ_of_ne_zero (Nat.ne_of_gt (Nat.zero_lt_of_lt hc))
    rw [lineage]
    exact List.mem_cons_self
  induction hb using Relation.ReflTransGen.head_induction_on with
  | refl => exact hself _ h
  | head hp hb ih =>
    obtain ⟨heq, hlt⟩ := lineage_eq_cons h hp
    rw [heq]
    exact List.mem_cons_of_mem _ (ih hlt)

/-- Induction from the root down -/
theorem lineage_induction {motive : α → Prop} (n : Nat)
    (hroot : ∀ a, parent a = none → motive a)
    (hchild : ∀ a b, parent a = some b → motive b → motive a) :
    ∀ a, (lineage parent n a).length < n → motive a := by
  induction n with
  | zero => exact fun a h => absurd h (Nat.not_lt_zero _)
  | succ n ih =>
    intro a h
    cases hp : parent a with
    | none => exact hroot a hp
    | some b =>
      rw [lineage_child hp] at h
      exact hchild a b hp (ih b (Nat.lt_of_succ_lt_succ h))

end TinyClr.Library
