import Mathlib.Data.List.Chain
import Mathlib.Data.List.Nodup
import Mathlib.Logic.Function.Basic
import Mathlib.Tactic.Common

/-!
# Rings with a head

Elements that are linked in both directions into rings, each with a head that is not one of its
elements.  All rings share the same links: an element is unlinked from the ring it is in and linked
behind the head of another one, and every other ring stays as it is.
-/

namespace TinyClr.Library

variable {ι : Type*}

structure Links (ι : Type*) where
  next : ι → ι
  prev : ι → ι

namespace Links

/-- One stands directly before the other. -/
def Joined (links : Links ι) (a b : ι) : Prop := links.next a = b ∧ links.prev b = a

/-- The elements `xs`, in this order, form the ring with the head `h`. -/
def IsRing (links : Links ι) (h : ι) (xs : List ι) : Prop :=
  (h :: (xs ++ [h])).IsChain links.Joined

section Change

variable [DecidableEq ι]

/-- The neighbours of an element are joined. -/
def unlink (links : Links ι) (x : ι) : Links ι where
  next := Function.update links.next (links.prev x) (links.next x)
  prev := Function.update links.prev (links.next x) (links.prev x)

/-- An element is linked directly behind a head. -/
def insertFirst (links : Links ι) (h x : ι) : Links ι where
  next := Function.update (Function.update links.next x (links.next h)) h x
  prev := Function.update (Function.update links.prev x h) (links.next h) x

/-- An element is moved directly behind a head, unless it stands there. -/
def moveToFront (links : Links ι) (h x : ι) : Links ι :=
  if links.next h = x then links else (links.unlink x).insertFirst h x

end Change

variable {links : Links ι} {h g x y : ι} {xs ys front back : List ι}

/-! ### Rings -/

theorem isRing_nil : links.IsRing h [] ↔ links.next h = h ∧ links.prev h = h := by
  rw [IsRing, List.nil_append, List.isChain_pair, Joined]

theorem isRing_cons :
    links.IsRing h (x :: xs) ↔ links.Joined h x ∧ (x :: (xs ++ [h])).IsChain links.Joined := by
  rw [IsRing, List.cons_append, List.isChain_cons_cons]

/-- The parts of a ring before and behind one of its elements -/
theorem isRing_split :
    links.IsRing h (front ++ x :: back) ↔
      (h :: (front ++ [x])).IsChain links.Joined ∧ (x :: (back ++ [h])).IsChain links.Joined := by
  rw [IsRing, List.append_assoc, List.cons_append, List.isChain_cons_split]

theorem IsRing.next_head (hring : links.IsRing h xs) : links.next h = xs.headD h := by
  cases xs with
  | nil => exact (isRing_nil.mp hring).1
  | cons x xs => exact (isRing_cons.mp hring).1.1

theorem IsRing.prev_head (hring : links.IsRing h xs) : links.prev h = xs.getLastD h := by
  rcases List.eq_nil_or_concat xs with rfl | ⟨front, x, rfl⟩
  · exact (isRing_nil.mp hring).2
  · rw [List.concat_eq_append] at hring ⊢
    obtain ⟨-, hlast⟩ := isRing_split.mp hring
    rw [List.nil_append, List.isChain_pair] at hlast
    rw [hlast.2, List.getLastD_concat]

/-- An element stands between its neighbours. -/
theorem IsRing.between (hring : links.IsRing h (front ++ x :: back)) :
    links.next (links.prev x) = x ∧ links.prev (links.next x) = x := by
  obtain ⟨hfront, hback⟩ := isRing_split.mp hring
  constructor
  · rcases List.eq_nil_or_concat front with rfl | ⟨front, a, rfl⟩
    · rw [List.nil_append, List.isChain_pair] at hfront
      rw [hfront.2, hfront.1]
    · rw [List.concat_eq_append, List.append_assoc, List.cons_append, List.nil_append,
        List.isChain_cons_append_cons_cons] at hfront
      obtain ⟨-, ⟨hnext, hprev⟩, -⟩ := hfront
      rw [hprev, hnext]
  · cases back with
    | nil =>
      rw [List.nil_append, List.isChain_pair] at hback
      rw [hback.1, hback.2]
    | cons b back =>
      rw [List.cons_append, List.isChain_cons_cons] at hback
      rw [hback.1.1, hback.1.2]

/-- A head stands between its neighbours. -/
theorem IsRing.head_between (hring : links.IsRing h xs) : links.prev (links.next h) = h := by
  cases xs with
  | nil =>
    obtain ⟨hnext, hprev⟩ := isRing_nil.mp hring
    rw [hnext, hprev]
  | cons x xs =>
    obtain ⟨⟨hnext, hprev⟩, -⟩ := isRing_cons.mp hring
    rw [hnext, hprev]

/-! ### Elements that are unlinked -/

section Unlink

variable [DecidableEq ι]

/-- Links that do not go through an element stay when it is unlinked. -/
theorem chain_unlink (hchain : ys.IsChain links.Joined) (hx : x ∉ ys)
    (hnext : links.next (links.prev x) = x) (hprev : links.prev (links.next x) = x) :
    ys.IsChain (links.unlink x).Joined := by
  refine hchain.imp_of_mem_imp fun a b ha hb hab => ⟨?_, ?_⟩
  · refine (Function.update_of_ne ?_ _ _).trans hab.1
    rintro rfl
    exact hx ((hnext.symm.trans hab.1) ▸ hb)
  · refine (Function.update_of_ne ?_ _ _).trans hab.2
    rintro rfl
    exact hx ((hprev.symm.trans hab.2) ▸ ha)

/-- A ring that an element is unlinked from -/
theorem IsRing.unlink (hring : links.IsRing h (front ++ x :: back))
    (hnodup : (h :: (front ++ x :: back)).Nodup) : (links.unlink x).IsRing h (front ++ back) := by
  obtain ⟨hnext, hprev⟩ := hring.between
  obtain ⟨hfront, hback⟩ := isRing_split.mp hring
  rw [← List.cons_append] at hfront hnodup
  obtain ⟨-, hback', hdisjoint⟩ := List.nodup_append.mp hnodup
  have hxfront : x ∉ h :: front := fun hmem => hdisjoint x hmem x List.mem_cons_self rfl
  have hxback : x ∉ back ++ [h] := by
    rw [List.mem_append, List.mem_singleton, not_or]
    exact ⟨(List.nodup_cons.mp hback').1, fun heq => hxfront (heq ▸ List.mem_cons_self)⟩
  obtain ⟨hfront, -, hlast⟩ := List.isChain_append.mp hfront
  obtain ⟨hhead, hback⟩ := List.isChain_cons.mp hback
  rw [IsRing, ← List.cons_append, ← List.cons_append, List.append_assoc]
  refine (chain_unlink hfront hxfront hnext hprev).append
    (chain_unlink hback hxback hnext hprev) fun a ha b hb => ?_
  have ha' := (hlast a ha x rfl).2
  have hb' := (hhead b hb).1
  subst ha' hb'
  exact ⟨Function.update_self _ _ _, Function.update_self _ _ _⟩

/-- A ring without the element that is unlinked -/
theorem IsRing.unlink_other (hring : links.IsRing g ys) (hx : x ∉ g :: ys)
    (hnext : links.next (links.prev x) = x) (hprev : links.prev (links.next x) = x) :
    (links.unlink x).IsRing g ys := by
  refine chain_unlink hring ?_ hnext hprev
  rw [← List.cons_append, List.mem_append, List.mem_singleton, not_or]
  exact ⟨hx, fun heq => hx (heq ▸ List.mem_cons_self)⟩

end Unlink

/-! ### Elements that are inserted -/

section Insert

variable [DecidableEq ι]

/-- Links that go neither from the head nor through the element stay. -/
theorem Joined.insertFirst {a b : ι} (hab : links.Joined a b) (hhead : links.prev (links.next h) = h)
    (hah : a ≠ h) (hax : a ≠ x) (hbx : b ≠ x) : (links.insertFirst h x).Joined a b := by
  constructor
  · exact (Function.update_of_ne hah _ _).trans ((Function.update_of_ne hax _ _).trans hab.1)
  · refine (Function.update_of_ne ?_ _ _).trans ((Function.update_of_ne hbx _ _).trans hab.2)
    rintro rfl
    exact hah (hab.2.symm.trans hhead)

/-- A ring that an element is inserted into -/
theorem IsRing.insertFirst (hring : links.IsRing h xs) (hnodup : (h :: x :: xs).Nodup) :
    (links.insertFirst h x).IsRing h (x :: xs) := by
  obtain ⟨hh, hx⟩ := List.nodup_cons.mp hnodup
  rw [List.mem_cons, not_or] at hh
  have hxs : x ∉ xs := (List.nodup_cons.mp hx).1
  have hne : x ≠ links.next h := by
    rw [hring.next_head]
    rintro heq
    cases xs with
    | nil => exact hh.1 heq.symm
    | cons y xs => exact hxs (heq ▸ List.mem_cons_self)
  have hhead := hring.head_between
  obtain ⟨hfirst, hrest⟩ := List.isChain_cons.mp hring
  obtain ⟨hchain, -, hlast⟩ := List.isChain_append.mp hrest
  have hkeep : ∀ a b, a ∈ xs → b ∈ xs ∨ b = h → links.Joined a b →
      (links.insertFirst h x).Joined a b := by
    intro a b ha hb hab
    refine hab.insertFirst hhead (fun heq => hh.2 (heq ▸ ha)) (fun heq => hxs (heq ▸ ha)) ?_
    rintro rfl
    rcases hb with hb | hb
    · exact hxs hb
    · exact hh.1 hb.symm
  refine isRing_cons.mpr ⟨⟨Function.update_self _ _ _, ?_⟩, List.isChain_cons.mpr ⟨?_, ?_⟩⟩
  · exact (Function.update_of_ne hne _ _).trans (Function.update_self _ _ _)
  · intro y hy
    obtain rfl := (hfirst y hy).1
    constructor
    · exact (Function.update_of_ne (Ne.symm hh.1) _ _).trans (Function.update_self _ _ _)
    · exact Function.update_self _ _ _
  · refine (hchain.imp_of_mem_imp fun a b ha hb => hkeep a b ha (.inl hb)).append
      (List.isChain_singleton h) fun a ha b hb => ?_
    cases hb
    exact hkeep a h (List.mem_of_getLast? ha) (.inr rfl) (hlast a ha h rfl)

/-- A ring beside the one that an element is inserted into -/
theorem IsRing.insertFirst_other (hring : links.IsRing g ys) (hx : x ∉ g :: ys)
    (hh : h ∉ g :: ys) (hhead : links.prev (links.next h) = h) :
    (links.insertFirst h x).IsRing g ys := by
  have hmem : ∀ {a}, a ∈ g :: (ys ++ [g]) → a ∈ g :: ys := by
    intro a ha
    rw [← List.cons_append, List.mem_append, List.mem_singleton] at ha
    rcases ha with ha | rfl
    · exact ha
    · exact List.mem_cons_self
  refine List.IsChain.imp_of_mem_imp (fun a b ha hb hab => ?_) hring
  exact hab.insertFirst hhead (fun heq => hh (heq ▸ hmem ha)) (fun heq => hx (heq ▸ hmem ha))
    fun heq => hx (heq ▸ hmem hb)

end Insert

end Links

/-! ### All rings -/

/-- Every head has its ring, and the entries that are in none of them are linked to themselves. -/
structure Rings (links : Links ι) (head entry : ι → Prop) (bucket : ι → List ι) : Prop where
  ring : ∀ h, head h → links.IsRing h (bucket h)
  alone : ∀ x, entry x → (∀ h, head h → x ∉ bucket h) → links.IsRing x []
  nodup : ∀ h, head h → (bucket h).Nodup
  entry : ∀ h, head h → ∀ x ∈ bucket h, entry x
  disjoint : ∀ g h, head g → head h → ∀ x ∈ bucket g, x ∈ bucket h → g = h

/-- An entry is moved to the front of a bucket, from wherever it is. -/
def moved [DecidableEq ι] (bucket : ι → List ι) (h x g : ι) : List ι :=
  if g = h then x :: (bucket h).erase x else (bucket g).erase x

namespace Rings

variable [DecidableEq ι] {links : Links ι} {head entry : ι → Prop} {bucket : ι → List ι} {h x : ι}

theorem mem_moved {g y : ι} (hrings : Rings links head entry bucket) (hg : head g) (hh : head h) :
    y ∈ moved bucket h x g ↔ (y = x ∧ g = h) ∨ (y ≠ x ∧ y ∈ bucket g) := by
  rw [moved]
  split
  · rename_i heq
    subst heq
    rw [List.mem_cons, (hrings.nodup _ hh).mem_erase_iff]
    tauto
  · rw [(hrings.nodup g hg).mem_erase_iff]
    tauto

omit [DecidableEq ι] in
/-- Every entry stands between its neighbours. -/
theorem between (hrings : Rings links head entry bucket) (hx : entry x) :
    links.next (links.prev x) = x ∧ links.prev (links.next x) = x := by
  by_cases hin : ∃ g, head g ∧ x ∈ bucket g
  · obtain ⟨g, hg, hmem⟩ := hin
    obtain ⟨front, back, heq⟩ := List.append_of_mem hmem
    have hring := hrings.ring g hg
    rw [heq] at hring
    exact hring.between
  · obtain ⟨hnext, hprev⟩ := Links.isRing_nil.mp
      (hrings.alone x hx fun g hg hmem => hin ⟨g, hg, hmem⟩)
    constructor
    · rw [hprev, hnext]
    · rw [hnext, hprev]

omit [DecidableEq ι] in
/-- The rings do not depend on what is assigned to other elements than heads. -/
theorem congr {bucket' : ι → List ι} (hrings : Rings links head entry bucket)
    (h : ∀ g, head g → bucket' g = bucket g) : Rings links head entry bucket' where
  ring := fun g hg => by
    rw [h g hg]
    exact hrings.ring g hg
  alone := fun x hx hnot => hrings.alone x hx fun g hg => by
    rw [← h g hg]
    exact hnot g hg
  nodup := fun g hg => by
    rw [h g hg]
    exact hrings.nodup g hg
  entry := fun g hg => by
    rw [h g hg]
    exact hrings.entry g hg
  disjoint := fun g g' hg hg' => by
    rw [h g hg, h g' hg']
    exact hrings.disjoint g g' hg hg'

section Move

variable (hrings : Rings links head entry bucket) (hheads : ∀ g, head g → ¬entry g) (hx : entry x)

include hrings hheads hx

theorem unlink {g : ι} (hg : head g) : (links.unlink x).IsRing g ((bucket g).erase x) := by
  have hne : x ≠ g := by
    rintro rfl
    exact hheads x hg hx
  obtain ⟨hnext, hprev⟩ := hrings.between hx
  have hring := hrings.ring g hg
  by_cases hmem : x ∈ bucket g
  · have hnodup : (g :: bucket g).Nodup := List.nodup_cons.mpr
      ⟨fun hmem' => hheads g hg (hrings.entry g hg g hmem'), hrings.nodup g hg⟩
    obtain ⟨front, back, heq⟩ := List.append_of_mem hmem
    rw [heq] at hring hnodup ⊢
    have hfront : x ∉ front := fun hmem' =>
      (List.nodup_append.mp (List.nodup_cons.mp hnodup).2).2.2 x hmem' x List.mem_cons_self rfl
    rw [List.erase_append_right _ hfront, List.erase_cons_head]
    exact hring.unlink hnodup
  · rw [List.erase_of_not_mem hmem]
    refine hring.unlink_other ?_ hnext hprev
    rw [List.mem_cons, not_or]
    exact ⟨hne, hmem⟩

/-- **Moving an entry** keeps the rings. -/
theorem moveToFront (hh : head h) :
    Rings (links.moveToFront h x) head entry (moved bucket h x) := by
  have hne {g : ι} (hg : head g) : x ≠ g := by
    rintro rfl
    exact hheads x hg hx
  rw [Links.moveToFront]
  split
  · rename_i hfirst
    have hmem : ∃ rest, bucket h = x :: rest := by
      have hhead := (hrings.ring h hh).next_head
      rw [hfirst] at hhead
      rcases hbucket : bucket h with _ | ⟨y, rest⟩
      · rw [hbucket] at hhead
        exact absurd hhead (hne hh)
      · rw [hbucket] at hhead
        exact ⟨rest, by rw [show x = y from hhead]⟩
    obtain ⟨rest, hbucket⟩ := hmem
    refine hrings.congr fun g hg => ?_
    rw [moved]
    split
    · rename_i heq
      rw [heq, hbucket, List.erase_cons_head]
    · rename_i hgh
      refine List.erase_of_not_mem fun hmem => hgh (hrings.disjoint g h hg hh x hmem ?_)
      rw [hbucket]
      exact List.mem_cons_self
  · have hunlinked {g : ι} (hg : head g) := hrings.unlink hheads hx hg
    have hhead := (hunlinked hh).head_between
    have hmem {g y : ι} (hg : head g) := hrings.mem_moved (y := y) (x := x) hg hh
    have herase {g : ι} (hg : head g) : x ∉ g :: (bucket g).erase x := by
      rw [List.mem_cons, not_or]
      exact ⟨hne hg, (hrings.nodup g hg).not_mem_erase⟩
    refine ⟨fun g hg => ?_, fun y hy hnot => ?_, fun g hg => ?_, fun g hg y hy => ?_,
      fun g g' hg hg' y hy hy' => ?_⟩
    · rw [moved]
      split
      · rename_i heq
        subst heq
        refine (hunlinked hg).insertFirst (List.nodup_cons.mpr ⟨?_, ?_⟩)
        · rw [List.mem_cons, not_or]
          exact ⟨fun heq => hne hg heq.symm,
            fun hmem' => hheads g hg (hrings.entry g hg g (List.mem_of_mem_erase hmem'))⟩
        · exact List.nodup_cons.mpr
            ⟨(hrings.nodup g hg).not_mem_erase, (hrings.nodup g hg).erase x⟩
      · rename_i hgh
        refine (hunlinked hg).insertFirst_other (herase hg) ?_ hhead
        rw [List.mem_cons, not_or]
        exact ⟨fun heq => hgh heq.symm,
          fun hmem' => hheads h hh (hrings.entry g hg h (List.mem_of_mem_erase hmem'))⟩
    · have hyx : y ≠ x := by
        rintro rfl
        exact hnot h hh ((hmem hh).mpr (.inl ⟨rfl, rfl⟩))
      have hx' : x ∉ [y] := by simpa using hyx.symm
      have hy' : h ∉ [y] := by
        rw [List.mem_singleton]
        rintro rfl
        exact hheads h hh hy
      obtain ⟨hnext, hprev⟩ := hrings.between hx
      have halone := hrings.alone y hy fun g hg hyg => hnot g hg ((hmem hg).mpr (.inr ⟨hyx, hyg⟩))
      exact (halone.unlink_other hx' hnext hprev).insertFirst_other hx' hy' hhead
    · rw [moved]
      split
      · exact List.nodup_cons.mpr ⟨(hrings.nodup h hh).not_mem_erase, (hrings.nodup h hh).erase x⟩
      · exact (hrings.nodup g hg).erase x
    · rcases (hmem hg).mp hy with ⟨rfl, -⟩ | ⟨-, hy⟩
      · exact hx
      · exact hrings.entry g hg y hy
    · rcases (hmem hg).mp hy with ⟨rfl, rfl⟩ | ⟨hyx, hy⟩
      · rcases (hmem hg').mp hy' with ⟨-, rfl⟩ | ⟨hne', -⟩
        · rfl
        · exact absurd rfl hne'
      · rcases (hmem hg').mp hy' with ⟨rfl, -⟩ | ⟨-, hy'⟩
        · exact absurd rfl hyx
        · exact hrings.disjoint g g' hg hg' y hy hy'

end Move

end Rings

end TinyClr.Library
