import TinyClr.Core.AvlTreeBalance
import TinyClr.Library.Compare

/-!
# The AVL tree as a set of data

Over the balance specifications this module reads off what `Insert`, `Remove` and `Find` do to
the stored data: the in-order sequence stays ascending, changes by exactly one datum, and the
result code says which case applied.  Runs of any length from the empty tree follow.
-/

namespace TinyClr.AvlTree

open TinyClr.Library AvlTree.Tree

variable {α : Type*}

/-! ### Repair after a recursive call -/

variable {l r : Tree α} {a : α} {s : Skew} {res : Result}

theorem fixup_leftGrown {l' : Tree α}
    (hl' : AvlBalanced l') (hr : AvlBalanced r) (hs : s.toInt = (height r : Int) - height l)
    (hreport : GrowthReport (height l) l' res) :
    Repairs (fixup leftGrown (.node l' a s r) res) (toList l' ++ a :: toList r)
      (GrowthReport (height (.node l a s r))) := by
  rcases hreport with ⟨rfl, heq⟩ | ⟨rfl, heq, hgrown⟩
  · refine ⟨_, _, rfl, rfl, ⟨hl', hr, ?_⟩, Or.inl ⟨rfl, ?_⟩⟩
    · omega
    · simp only [height]
      omega
  · have hspec := leftGrown_spec (a := a) (s := s) hl' hr hgrown (by omega)
    rw [heq, Nat.add_sub_cancel] at hspec
    simpa only [fixup, if_true, height] using hspec

theorem fixup_rightGrown {r' : Tree α}
    (hl : AvlBalanced l) (hr' : AvlBalanced r') (hs : s.toInt = (height r : Int) - height l)
    (hreport : GrowthReport (height r) r' res) :
    Repairs (fixup rightGrown (.node l a s r') res) (toList l ++ a :: toList r')
      (GrowthReport (height (.node l a s r))) := by
  rcases hreport with ⟨rfl, heq⟩ | ⟨rfl, heq, hgrown⟩
  · refine ⟨_, _, rfl, rfl, ⟨hl, hr', ?_⟩, Or.inl ⟨rfl, ?_⟩⟩
    · omega
    · simp only [height]
      omega
  · have hspec := rightGrown_spec (a := a) (s := s) hl hr' hgrown (by omega)
    rw [heq, Nat.add_sub_cancel] at hspec
    simpa only [fixup, if_true, height] using hspec

theorem fixup_leftShrunk {l' : Tree α} {b : α}
    (hl' : AvlBalanced l') (hr : AvlBalanced r) (hs : s.toInt = (height r : Int) - height l)
    (hreport : ShrinkReport (height l) l' res) :
    Repairs (fixup leftShrunk (.node l' a s r) res) (toList l' ++ a :: toList r)
      (ShrinkReport (height (.node l b s r))) := by
  rcases hreport with ⟨rfl, heq⟩ | ⟨rfl, heq⟩
  · refine ⟨_, _, rfl, rfl, ⟨hl', hr, ?_⟩, Or.inl ⟨rfl, ?_⟩⟩
    · omega
    · simp only [height]
      omega
  · have hspec := leftShrunk_spec (a := a) (s := s) hl' hr (by omega)
    rw [heq] at hspec
    simpa only [fixup, if_true, height] using hspec

theorem fixup_rightShrunk {r' : Tree α} {b : α}
    (hl : AvlBalanced l) (hr' : AvlBalanced r') (hs : s.toInt = (height r : Int) - height l)
    (hreport : ShrinkReport (height r) r' res) :
    Repairs (fixup rightShrunk (.node l a s r') res) (toList l ++ a :: toList r')
      (ShrinkReport (height (.node l b s r))) := by
  rcases hreport with ⟨rfl, heq⟩ | ⟨rfl, heq⟩
  · refine ⟨_, _, rfl, rfl, ⟨hl, hr', ?_⟩, Or.inl ⟨rfl, ?_⟩⟩
    · omega
    · simp only [height]
      omega
  · have hspec := rightShrunk_spec (a := a) (s := s) hl hr' (by omega)
    rw [heq] at hspec
    simpa only [fixup, if_true, height] using hspec

/-! ### `FindHighest` and `FindLowest` -/

variable {t : Tree α}

theorem findHighest_spec (hbal : AvlBalanced t) (hne : t ≠ .nil) :
    ∃ t' top res, findHighest t = some (some (t', top, res)) ∧
      toList t = toList t' ++ [top] ∧ AvlBalanced t' ∧ ShrinkReport (height t) t' res := by
  induction t with
  | nil => exact absurd rfl hne
  | node l a s r _ ihr =>
    obtain ⟨hl, hr, hs⟩ := hbal
    cases r with
    | nil =>
      refine ⟨l, a, .balance, rfl, rfl, hl, Or.inr ⟨rfl, ?_⟩⟩
      simp [height]
    | node rl b t rr =>
      obtain ⟨r', top, res, hfind, hlist, hr', hreport⟩ := ihr hr (by simp)
      obtain ⟨n, res', hfix, hnlist, hnbal, hnreport⟩ :=
        fixup_rightShrunk (a := a) (b := a) hl hr' hs hreport
      refine ⟨n, top, res', ?_, ?_, hnbal, hnreport⟩
      · rw [findHighest, hfind]
        simp [hfix]
      · rw [toList, hlist, hnlist]
        simp

theorem findLowest_spec (hbal : AvlBalanced t) (hne : t ≠ .nil) :
    ∃ t' low res, findLowest t = some (some (t', low, res)) ∧
      toList t = low :: toList t' ∧ AvlBalanced t' ∧ ShrinkReport (height t) t' res := by
  induction t with
  | nil => exact absurd rfl hne
  | node l a s r ihl _ =>
    obtain ⟨hl, hr, hs⟩ := hbal
    cases l with
    | nil =>
      refine ⟨r, a, .balance, rfl, rfl, hr, Or.inr ⟨rfl, ?_⟩⟩
      simp [height]
    | node ll b t lr =>
      obtain ⟨l', low, res, hfind, hlist, hl', hreport⟩ := ihl hl (by simp)
      obtain ⟨n, res', hfix, hnlist, hnbal, hnreport⟩ :=
        fixup_leftShrunk (a := a) (b := a) hl' hr hs hreport
      refine ⟨n, low, res', ?_, ?_, hnbal, hnreport⟩
      · rw [findLowest, hfind]
        simp [hfix]
      · rw [toList, hlist, hnlist]
        simp

/-! ### `Insert` -/

/-- The outcome of `Insert`: the key was present; or there was no node for it; or the datum was
    placed between the elements below and above it. -/
inductive InsertOutcome (cmp : α → α → Int) (newNode : Bool) (d : α) (t t' : Tree α) :
    Result → Prop where
  | duplicate (b : α) (hmem : b ∈ toList t) (hkey : cmp b d = 0) (hsame : t' = t) :
      InsertOutcome cmp newNode d t t' .duplicate
  | refused (hnode : newNode = false) (habsent : ∀ x ∈ toList t, cmp x d ≠ 0) (hsame : t' = t) :
      InsertOutcome cmp newNode d t t' .error
  | placed (res : Result) (hnode : newNode = true) (xs ys : List α)
      (hbefore : toList t = xs ++ ys) (hafter : toList t' = xs ++ d :: ys)
      (hlow : ∀ x ∈ xs, cmp x d < 0) (hhigh : ∀ y ∈ ys, 0 < cmp y d)
      (hbal : AvlBalanced t') (hreport : GrowthReport (height t) t' res) :
      InsertOutcome cmp newNode d t t' res

variable {cmp : α → α → Int}

theorem insert_spec {cmp : α → α → Int} (hc : TotalCompare cmp) (newNode : Bool) (d : α)
    (t : Tree α) (hbal : AvlBalanced t) (hasc : Ascending cmp (toList t)) :
    ∃ t' res, insert cmp newNode d t = some (t', res) ∧
      InsertOutcome cmp newNode d t t' res := by
  induction t with
  | nil =>
    cases newNode with
    | false => exact ⟨_, _, rfl, .refused rfl (by simp [toList]) rfl⟩
    | true =>
      refine ⟨_, _, rfl, .placed .balance rfl [] [] rfl rfl (by simp) (by simp)
        ⟨trivial, trivial, rfl⟩ (Or.inr ⟨rfl, rfl, Or.inl rfl⟩)⟩
  | node l a s r ihl ihr =>
    obtain ⟨hl, hr, hs⟩ := hbal
    obtain ⟨hascl, hascr, hla, har, -⟩ := Ascending.split.mp hasc
    by_cases hgt : 0 < cmp a d
    · have hda : cmp d a < 0 := (hc.swap d a).mpr hgt
      have hrd : ∀ y ∈ toList r, 0 < cmp y d := fun y hy =>
        (hc.swap d y).mp (hc.lt_trans hda (har y hy))
      obtain ⟨l', res, hins, hout⟩ := ihl hl hascl
      have hred : insert cmp newNode d (.node l a s r)
          = fixup leftGrown (.node l' a s r) res := by
        simp [insert, hgt, hins]
      cases hout with
      | duplicate b hmem hkey hsame =>
        subst hsame
        exact ⟨_, _, hred, .duplicate b (by simp [toList, hmem]) hkey rfl⟩
      | refused hnode habsent hsame =>
        subst hsame
        refine ⟨_, _, hred, .refused hnode ?_ rfl⟩
        intro x hx
        simp only [toList, List.mem_append, List.mem_cons] at hx
        rcases hx with hx | rfl | hx
        · exact habsent x hx
        · omega
        · have := hrd x hx
          omega
      | placed _ hnode xs ys hbefore hafter hlow hhigh hbal' hreport =>
        obtain ⟨t', res', hfix, hlist, htbal, htreport⟩ :=
          fixup_leftGrown (a := a) hbal' hr hs hreport
        refine ⟨t', res', hred.trans hfix, .placed res' hnode xs (ys ++ a :: toList r)
          (by simp [toList, hbefore]) (by simp [hlist, hafter]) hlow ?_ htbal htreport⟩
        intro y hy
        simp only [List.mem_append, List.mem_cons] at hy
        rcases hy with hy | rfl | hy
        · exact hhigh y hy
        · exact hgt
        · exact hrd y hy
    · by_cases hlt : cmp a d < 0
      · have hld : ∀ x ∈ toList l, cmp x d < 0 := fun x hx => hc.lt_trans (hla x hx) hlt
        obtain ⟨r', res, hins, hout⟩ := ihr hr hascr
        have hred : insert cmp newNode d (.node l a s r)
            = fixup rightGrown (.node l a s r') res := by
          simp [insert, hgt, hlt, hins]
        cases hout with
        | duplicate b hmem hkey hsame =>
          subst hsame
          exact ⟨_, _, hred, .duplicate b (by simp [toList, hmem]) hkey rfl⟩
        | refused hnode habsent hsame =>
          subst hsame
          refine ⟨_, _, hred, .refused hnode ?_ rfl⟩
          intro x hx
          simp only [toList, List.mem_append, List.mem_cons] at hx
          rcases hx with hx | rfl | hx
          · have := hld x hx
            omega
          · omega
          · exact habsent x hx
        | placed _ hnode xs ys hbefore hafter hlow hhigh hbal' hreport =>
          obtain ⟨t', res', hfix, hlist, htbal, htreport⟩ :=
            fixup_rightGrown (a := a) hl hbal' hs hreport
          refine ⟨t', res', hred.trans hfix, .placed res' hnode (toList l ++ a :: xs) ys
            (by simp [toList, hbefore]) (by simp [hlist, hafter]) ?_ hhigh htbal htreport⟩
          intro x hx
          simp only [List.mem_append, List.mem_cons] at hx
          rcases hx with hx | rfl | hx
          · exact hld x hx
          · exact hlt
          · exact hlow x hx
      · exact ⟨_, _, by simp [insert, hgt, hlt],
          .duplicate a (by simp [toList]) (by omega) rfl⟩

/-! ### `Remove` -/

/-- The outcome of `Remove`: the key was absent, or the datum with that key was taken out. -/
inductive RemoveOutcome (cmp : α → α → Int) (d : α) (t t' : Tree α) : Result → Prop where
  | absent (habsent : ∀ x ∈ toList t, cmp x d ≠ 0) (hsame : t' = t) :
      RemoveOutcome cmp d t t' .notFound
  | taken (res : Result) (b : α) (xs ys : List α) (hkey : cmp b d = 0)
      (hbefore : toList t = xs ++ b :: ys) (hafter : toList t' = xs ++ ys)
      (hbal : AvlBalanced t') (hreport : ShrinkReport (height t) t' res) :
      RemoveOutcome cmp d t t' res

theorem removeRoot_spec (hbal : AvlBalanced (.node l a s r)) :
    Repairs (removeRoot (.node l a s r)) (toList l ++ toList r)
      (ShrinkReport (height (.node l a s r))) := by
  obtain ⟨hl, hr, hs⟩ := hbal
  by_cases hnl : l = .nil
  · subst hnl
    by_cases hnr : r = .nil
    · subst hnr
      exact ⟨_, _, rfl, rfl, trivial, Or.inr ⟨rfl, rfl⟩⟩
    · obtain ⟨r', low, res, hfind, hlist, hr', hreport⟩ := findLowest_spec hr hnr
      have hfix := fixup_rightShrunk (l := .nil) (a := low) (b := a) trivial hr' hs hreport
      have hred : removeRoot (.node .nil a s r) = fixup rightShrunk (.node .nil low s r') res := by
        simp [removeRoot, findHighest, hfind]
      rw [hred, hlist]
      exact hfix
  · obtain ⟨l', top, res, hfind, hlist, hl', hreport⟩ := findHighest_spec hl hnl
    have hfix := fixup_leftShrunk (a := top) (b := a) hl' hr hs hreport
    have hred : removeRoot (.node l a s r) = fixup leftShrunk (.node l' top s r) res := by
      simp [removeRoot, hfind]
    rw [hred, hlist, List.append_assoc]
    exact hfix

theorem remove_spec (hc : TotalCompare cmp) (d : α) (t : Tree α)
    (hbal : AvlBalanced t) (hasc : Ascending cmp (toList t)) :
    ∃ t' res, remove cmp d t = some (t', res) ∧ RemoveOutcome cmp d t t' res := by
  induction t with
  | nil => exact ⟨_, _, rfl, .absent (by simp [toList]) rfl⟩
  | node l a s r ihl ihr =>
    have hnode := hbal
    obtain ⟨hl, hr, hs⟩ := hbal
    obtain ⟨hascl, hascr, hla, har, -⟩ := Ascending.split.mp hasc
    by_cases hgt : 0 < cmp a d
    · obtain ⟨l', res, hrem, hout⟩ := ihl hl hascl
      have hred : remove cmp d (.node l a s r) = fixup leftShrunk (.node l' a s r) res := by
        simp [remove, hgt, hrem]
      cases hout with
      | absent habsent hsame =>
        subst hsame
        refine ⟨_, _, hred, .absent ?_ rfl⟩
        intro x hx
        simp only [toList, List.mem_append, List.mem_cons] at hx
        rcases hx with hx | rfl | hx
        · exact habsent x hx
        · omega
        · have := (hc.swap d x).mp (hc.lt_trans ((hc.swap d a).mpr hgt) (har x hx))
          omega
      | taken _ b xs ys hkey hbefore hafter hbal' hreport =>
        obtain ⟨t', res', hfix, hlist, htbal, htreport⟩ :=
          fixup_leftShrunk (a := a) (b := a) hbal' hr hs hreport
        exact ⟨t', res', hred.trans hfix, .taken res' b xs (ys ++ a :: toList r) hkey
          (by simp [toList, hbefore]) (by simp [hlist, hafter]) htbal htreport⟩
    · by_cases hlt : cmp a d < 0
      · obtain ⟨r', res, hrem, hout⟩ := ihr hr hascr
        have hred : remove cmp d (.node l a s r) = fixup rightShrunk (.node l a s r') res := by
          simp [remove, hgt, hlt, hrem]
        cases hout with
        | absent habsent hsame =>
          subst hsame
          refine ⟨_, _, hred, .absent ?_ rfl⟩
          intro x hx
          simp only [toList, List.mem_append, List.mem_cons] at hx
          rcases hx with hx | rfl | hx
          · have := hc.lt_trans (hla x hx) hlt
            omega
          · omega
          · exact habsent x hx
        | taken _ b xs ys hkey hbefore hafter hbal' hreport =>
          obtain ⟨t', res', hfix, hlist, htbal, htreport⟩ :=
            fixup_rightShrunk (a := a) (b := a) hl hbal' hs hreport
          exact ⟨t', res', hred.trans hfix, .taken res' b (toList l ++ a :: xs) ys hkey
            (by simp [toList, hbefore]) (by simp [hlist, hafter]) htbal htreport⟩
      · obtain ⟨t', res, hroot, hlist, htbal, htreport⟩ := removeRoot_spec hnode
        exact ⟨t', res, by simp [remove, hgt, hlt, hroot],
          .taken res a (toList l) (toList r) (by omega) rfl hlist htbal htreport⟩

/-! ### `Find` -/

theorem find_eq_some_iff (hc : TotalCompare cmp) (d b : α) (t : Tree α)
    (hasc : Ascending cmp (toList t)) :
    find cmp d t = some b ↔ b ∈ toList t ∧ cmp b d = 0 := by
  induction t with
  | nil => simp [find, toList]
  | node l a s r ihl ihr =>
    obtain ⟨hascl, hascr, hla, har, -⟩ := Ascending.split.mp hasc
    simp only [find, toList, List.mem_append, List.mem_cons]
    by_cases heq : cmp a d = 0
    · rw [if_pos heq, Option.some.injEq]
      constructor
      · rintro rfl
        exact ⟨Or.inr (Or.inl rfl), heq⟩
      · rintro ⟨hmem, hkey⟩
        have hne := Ascending.ne_of_mem hc hasc heq
        rcases hmem with hmem | rfl | hmem
        · have := hne.1 b hmem
          omega
        · rfl
        · have := hne.2 b hmem
          omega
    · rw [if_neg heq]
      by_cases hgt : 0 < cmp a d
      · rw [if_pos hgt, ihl hascl]
        refine ⟨fun h => ⟨Or.inl h.1, h.2⟩, fun h => ⟨?_, h.2⟩⟩
        rcases h.1 with hmem | rfl | hmem
        · exact hmem
        · exact absurd h.2 heq
        · have := (hc.swap d b).mp (hc.lt_trans ((hc.swap d a).mpr hgt) (har b hmem))
          omega
      · rw [if_neg hgt, ihr hascr]
        refine ⟨fun h => ⟨Or.inr (Or.inr h.1), h.2⟩, fun h => ⟨?_, h.2⟩⟩
        rcases h.1 with hmem | rfl | hmem
        · have := hc.lt_trans (hla b hmem) (show cmp a d < 0 by omega)
          omega
        · exact absurd h.2 heq
        · exact hmem

/-! ### Runs -/

inductive Op (α : Type*) where
  | insert (newNode : Bool) (newDatum : α)
  | remove (oldDatum : α)
  | find (srcDatum : α)

/-- What a call returns: a result code, or the payload of the node `Find` reached. -/
inductive Answer (α : Type*) where
  | result (res : Result)
  | entry (found : Option α)

def step (cmp : α → α → Int) (t : Tree α) : Op α → Option (Tree α × Answer α)
  | .insert newNode d => (insert cmp newNode d t).map fun q => (q.1, .result q.2)
  | .remove d => (remove cmp d t).map fun q => (q.1, .result q.2)
  | .find d => some (t, .entry (find cmp d t))

def Tree.data (t : Tree α) : Set α := { x | x ∈ toList t }

/-- Some stored datum has the key of `d`. -/
def Tree.HasKey (cmp : α → α → Int) (t : Tree α) (d : α) : Prop := ∃ x ∈ toList t, cmp x d = 0

/-- A binary search tree without duplicate keys whose skews are the height differences. -/
structure Valid (cmp : α → α → Int) (t : Tree α) : Prop where
  balanced : AvlBalanced t
  ascending : Ascending cmp (toList t)

theorem valid_nil (cmp : α → α → Int) : Valid cmp (.nil : Tree α) := ⟨trivial, List.Pairwise.nil⟩

/-- What `Insert` owes its caller: `RES_DUPLICATE` exactly for a key that is present, and then
    nothing changes; otherwise the datum is added, or refused with the node. -/
structure InsertMeaning (cmp : α → α → Int) (newNode : Bool) (d : α) (t t' : Tree α)
    (res : Result) : Prop where
  duplicate_iff : res = .duplicate ↔ t.HasKey cmp d
  duplicate : t.HasKey cmp d → t' = t
  added : ¬ t.HasKey cmp d → newNode = true →
    t'.data = Set.insert d t.data ∧ (res = .ok ∨ res = .balance)
  refused : ¬ t.HasKey cmp d → newNode = false → t' = t ∧ res = .error

/-- What `Remove` owes its caller: `RES_NOTFOUND` exactly for a key that is absent, and then
    nothing changes; otherwise the datum with that key, and no other, is gone. -/
structure RemoveMeaning (cmp : α → α → Int) (d : α) (t t' : Tree α) (res : Result) : Prop where
  notFound_iff : res = .notFound ↔ ¬ t.HasKey cmp d
  notFound : ¬ t.HasKey cmp d → t' = t
  removed : t.HasKey cmp d →
    ∃ b ∈ t.data, cmp b d = 0 ∧ t'.data = t.data \ {b} ∧ ¬ t'.HasKey cmp d

theorem insert_correct (hc : TotalCompare cmp) (newNode : Bool) (d : α)
    (h : Valid cmp t) :
    ∃ t' res, insert cmp newNode d t = some (t', res) ∧ Valid cmp t' ∧
      InsertMeaning cmp newNode d t t' res := by
  obtain ⟨t', res, hins, hout⟩ := insert_spec hc newNode d t h.balanced h.ascending
  refine ⟨t', res, hins, ?_⟩
  cases hout with
  | duplicate b hmem hkey hsame =>
    subst hsame
    have hhas : t'.HasKey cmp d := ⟨b, hmem, hkey⟩
    exact ⟨h, ⟨fun _ => hhas, fun _ => rfl⟩, fun _ => rfl, fun hno => absurd hhas hno,
      fun hno => absurd hhas hno⟩
  | refused hnode habsent hsame =>
    subst hsame
    have hno : ¬ t'.HasKey cmp d := fun ⟨x, hx, hkey⟩ => habsent x hx hkey
    exact ⟨h, ⟨by simp, fun hhas => absurd hhas hno⟩, fun _ => rfl,
      fun _ htrue => by simp [hnode] at htrue, fun _ _ => ⟨rfl, rfl⟩⟩
  | placed _ hnode xs ys hbefore hafter hlow hhigh hbal hreport =>
    have hno : ¬ t.HasKey cmp d := by
      rintro ⟨x, hx, hkey⟩
      rw [hbefore, List.mem_append] at hx
      rcases hx with hx | hx
      · have := hlow x hx
        omega
      · have := hhigh x hx
        omega
    have hcode : res = .ok ∨ res = .balance := hreport.imp And.left And.left
    have hasc : Ascending cmp (toList t') := by
      rw [hafter]
      exact Ascending.place hc (hbefore ▸ h.ascending) hlow hhigh
    refine ⟨⟨hbal, hasc⟩, ⟨?_, fun hhas => absurd hhas hno⟩, fun hhas => absurd hhas hno,
      fun _ _ => ⟨?_, hcode⟩, fun _ hfalse => by simp [hnode] at hfalse⟩
    · rintro rfl
      simp at hcode
    · ext x
      change x ∈ toList t' ↔ x = d ∨ x ∈ toList t
      simp only [hafter, hbefore, List.mem_append, List.mem_cons]
      tauto

theorem remove_correct (hc : TotalCompare cmp) (d : α)
    (h : Valid cmp t) :
    ∃ t' res, remove cmp d t = some (t', res) ∧ Valid cmp t' ∧ RemoveMeaning cmp d t t' res := by
  obtain ⟨t', res, hrem, hout⟩ := remove_spec hc d t h.balanced h.ascending
  refine ⟨t', res, hrem, ?_⟩
  cases hout with
  | absent habsent hsame =>
    subst hsame
    have hno : ¬ t'.HasKey cmp d := fun ⟨x, hx, hkey⟩ => habsent x hx hkey
    exact ⟨h, ⟨fun _ => hno, fun _ => rfl⟩, fun _ => rfl, fun hhas => absurd hhas hno⟩
  | taken _ b xs ys hkey hbefore hafter hbal hreport =>
    have hasc : Ascending cmp (xs ++ b :: ys) := hbefore ▸ h.ascending
    have hmem : b ∈ toList t := by simp [hbefore]
    have hhas : t.HasKey cmp d := ⟨b, hmem, hkey⟩
    obtain ⟨hxs, hys⟩ := Ascending.ne_of_mem hc hasc hkey
    have hother : ∀ x ∈ xs ++ ys, cmp x d ≠ 0 := by
      intro x hx
      rcases List.mem_append.mp hx with hx | hx
      · have := hxs x hx
        omega
      · have := hys x hx
        omega
    refine ⟨⟨hbal, hafter ▸ hasc.drop⟩, ⟨?_, fun hno => absurd hhas hno⟩,
      fun hno => absurd hhas hno, fun _ => ⟨b, hmem, hkey, ?_, ?_⟩⟩
    · rintro rfl
      simp [ShrinkReport] at hreport
    · ext x
      change x ∈ toList t' ↔ x ∈ toList t ∧ x ≠ b
      rw [hafter, hbefore]
      constructor
      · intro hx
        refine ⟨by simp only [List.mem_append, List.mem_cons] at hx ⊢; tauto, ?_⟩
        rintro rfl
        exact hother x hx hkey
      · rintro ⟨hx, hxb⟩
        simp only [List.mem_append, List.mem_cons] at hx ⊢
        tauto
    · rintro ⟨x, hx, hxd⟩
      rw [hafter] at hx
      exact hother x hx hxd

theorem step_valid (hc : TotalCompare cmp) (t : Tree α) (o : Op α)
    (h : Valid cmp t) : ∃ t' r, step cmp t o = some (t', r) ∧ Valid cmp t' := by
  cases o with
  | insert newNode d =>
    obtain ⟨t', res, hins, hvalid, -⟩ := insert_correct hc newNode d h
    exact ⟨t', .result res, by simp [step, hins], hvalid⟩
  | remove d =>
    obtain ⟨t', res, hrem, hvalid, -⟩ := remove_correct hc d h
    exact ⟨t', .result res, by simp [step, hrem], hvalid⟩
  | find d => exact ⟨t, .entry (find cmp d t), rfl, h⟩

/-- Every run from the empty tree goes through; the tree it reaches is a valid AVL tree, on which
    `Insert`, `Remove` and `Find` mean what their result codes say. -/
theorem runs_keep_avl_tree {cmp : α → α → Int} (hc : TotalCompare cmp) (ops : List (Op α)) :
    ∃ t rs, run (step cmp) .nil ops = some (t, rs) ∧ Valid cmp t ∧
      (∀ newNode d, ∃ t' res, insert cmp newNode d t = some (t', res) ∧
        InsertMeaning cmp newNode d t t' res) ∧
      (∀ d, ∃ t' res, remove cmp d t = some (t', res) ∧ RemoveMeaning cmp d t t' res) ∧
      (∀ d b, find cmp d t = some b ↔ b ∈ t.data ∧ cmp b d = 0) ∧
      (∀ d, (find cmp d t).isSome ↔ t.HasKey cmp d) := by
  have hmeets : Meets (step cmp) (fun _ _ => True) .nil ops :=
    meets_of_forall _ (fun _ _ => trivial) ops _
  obtain ⟨t, rs, hrun, hvalid⟩ :=
    run_invariant (step cmp) (fun t o h _ => step_valid hc t o h) ops .nil (valid_nil cmp) hmeets
  have hfind := fun d b => find_eq_some_iff hc d b t hvalid.ascending
  refine ⟨t, rs, hrun, hvalid, fun newNode d => ?_, fun d => ?_, hfind, fun d => ?_⟩
  · obtain ⟨t', res, hins, -, hmeaning⟩ := insert_correct hc newNode d hvalid
    exact ⟨t', res, hins, hmeaning⟩
  · obtain ⟨t', res, hrem, -, hmeaning⟩ := remove_correct hc d hvalid
    exact ⟨t', res, hrem, hmeaning⟩
  · simp only [Option.isSome_iff_exists, hfind]
    rfl

theorem totalCompare_sub : TotalCompare fun x y : Int => x - y :=
  ⟨fun x y => by omega, fun x y z => by omega⟩

/-- The run that inserts 2, 1 and 3 and removes 2. -/
theorem runs_keep_avl_tree_int :
    ∃ t rs, run (step fun x y : Int => x - y) .nil
        [.insert true 2, .insert true 1, .insert true 3, .remove 2] = some (t, rs) ∧
      Valid (fun x y => x - y) t := by
  obtain ⟨t, rs, hrun, hvalid, -⟩ := runs_keep_avl_tree totalCompare_sub
    [.insert true 2, .insert true 1, .insert true 3, .remove 2]
  exact ⟨t, rs, hrun, hvalid⟩

end TinyClr.AvlTree
