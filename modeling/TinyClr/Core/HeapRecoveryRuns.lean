import TinyClr.Core.HeapRecoverySpec
import Mathlib.Data.UInt

/-!
# Recovering the objects of a prepared range

`RecoverObjects` walks over the blocks that `PrepareForRecovery` has left, looks for the array each
weak reference names, and links the reference when the array is the one it remembers.  The loop
writes only headers, links and flags of weak references; the sizes stay as they are, so the walks
end.  What it reads depends on the lengths the references claim.
-/

namespace TinyClr.Recovery

open TinyClr.Library TinyClr.Heap

namespace Engine

variable {e e' : Engine}

/-! ### Accesses -/

variable {i : Nat}

theorem load_eq (h : e.InHeap i) : e.load i = some (e.words i) := if_pos h

theorem store_eq (h : e.InHeap i) (value : UInt32) :
    e.store i value = some { e with words := e.words.set i value } := if_pos h

theorem mapM_isSome {α β : Type} {f : α → Option β} {l : List α} (h : ∀ a ∈ l, ∃ b, f a = some b) :
    ∃ bs, l.mapM f = some bs := by
  induction l with
  | nil => exact ⟨[], rfl⟩
  | cons a l ih =>
    obtain ⟨b, hb⟩ := h a List.mem_cons_self
    obtain ⟨bs, hbs⟩ := ih fun x hx => h x (List.mem_cons_of_mem a hx)
    exact ⟨b :: bs, by rw [List.mapM_cons, hb, hbs]; rfl⟩

variable {ptr : Nat}

theorem loadBytes_isSome {ptr length : Nat} (h : ∀ i < length, e.InHeap (ptr + i / 4)) :
    ∃ bytes, e.loadBytes ptr length = some bytes := by
  refine mapM_isSome fun i hi => ?_
  rw [load_eq (h i (List.mem_range.mp hi))]
  exact ⟨_, rfl⟩

theorem inHeap_of_load {v : UInt32} (h : e.load i = some v) : e.InHeap i := by
  by_contra hout
  rw [load, if_neg hout] at h
  exact nomatch h

theorem mem_of_mapM {α β : Type} {f : α → Option β} {l : List α} {bs : List β}
    (h : l.mapM f = some bs) : ∀ a ∈ l, ∃ b, f a = some b := by
  induction l generalizing bs with
  | nil => exact fun a ha => absurd ha List.not_mem_nil
  | cons a l ih =>
    rw [List.mapM_cons] at h
    obtain ⟨b, hb, hrest⟩ := Option.bind_eq_some_iff.mp h
    obtain ⟨bs', hbs, -⟩ := Option.bind_eq_some_iff.mp hrest
    intro x hx
    rcases List.mem_cons.mp hx with rfl | hx
    · exact ⟨b, hb⟩
    · exact ih hbs x hx

theorem inHeap_of_loadBytes {length : Nat} {bytes : List UInt8}
    (h : e.loadBytes ptr length = some bytes) : ∀ i < length, e.InHeap (ptr + i / 4) := by
  intro i hi
  obtain ⟨b, hb⟩ := mem_of_mapM h i (List.mem_range.mpr hi)
  obtain ⟨word, hword, -⟩ := Option.bind_eq_some_iff.mp hb
  exact inHeap_of_load hword

structure Keeps (S : Nat → Prop) (e e' : Engine) : Prop where
  lstHeap : e'.lstHeap = e.lstHeap
  head : e'.head = e.head
  tail : e'.tail = e.tail
  words : ∀ i, ¬ S i → e'.words i = e.words i

variable {S : Nat → Prop}

theorem Keeps.refl : Keeps S e e := ⟨rfl, rfl, rfl, fun _ _ => rfl⟩

theorem Keeps.trans {e'' : Engine} (h : Keeps S e e') (h' : Keeps S e' e'') :
    Keeps S e e'' :=
  ⟨h'.lstHeap.trans h.lstHeap, h'.head.trans h.head, h'.tail.trans h.tail,
    fun i hi => (h'.words i hi).trans (h.words i hi)⟩

theorem Keeps.mono {S' : Nat → Prop} (h : Keeps S e e') (hsub : ∀ i, S i → S' i) :
    Keeps S' e e' :=
  ⟨h.lstHeap, h.head, h.tail, fun i hi => h.words i fun hS => hi (hsub i hS)⟩

theorem Keeps.inHeap (h : Keeps S e e') : e'.InHeap i ↔ e.InHeap i := by
  rw [InHeap, InHeap, h.lstHeap]

theorem store_spec {S : Nat → Prop} {i : Nat} (h : e.InHeap i) (hi : S i) (value : UInt32) :
    ∃ e', e.store i value = some e' ∧ Keeps S e e' ∧
      e'.m_weakReferences = e.m_weakReferences ∧ e'.words i = value := by
  refine ⟨_, store_eq h value, ⟨rfl, rfl, rfl, fun j hj => ?_⟩, rfl, Range.set_self i value⟩
  exact Range.set_of_ne value fun hji => hj (hji ▸ hi)

variable {node : Nat}

theorem storeLink_spec {S : Nat → Prop} {node offset : Nat}
    (h : (node ≠ e.head ∧ node ≠ e.tail) → e.InHeap (node + offset) ∧ S (node + offset))
    (value : UInt32) :
    ∃ e', e.storeLink node offset value = some e' ∧ Keeps S e e' ∧
      e'.m_weakReferences = e.m_weakReferences := by
  rw [storeLink]
  split
  · exact ⟨e, rfl, Keeps.refl, rfl⟩
  · rename_i hne
    rw [not_or] at hne
    obtain ⟨hheap, hS⟩ := h hne
    obtain ⟨e', hstore, hkeeps, hlinked, -⟩ := store_spec hheap hS value
    exact ⟨e', hstore, hkeeps, hlinked⟩

/-! ### The list of weak references -/

theorem head?_getD_mem (l : List Nat) (d : Nat) : l.head?.getD d = d ∨ l.head?.getD d ∈ l := by
  cases l with
  | nil => exact Or.inl rfl
  | cons a l => exact Or.inr List.mem_cons_self

theorem getLast?_getD_mem (l : List Nat) (d : Nat) :
    l.getLast?.getD d = d ∨ l.getLast?.getD d ∈ l := by
  rcases List.eq_nil_or_concat l with rfl | ⟨front, a, rfl⟩
  · exact Or.inl rfl
  · rw [List.concat_eq_append, List.getLast?_append]
    exact Or.inr (List.mem_append_right _ (List.mem_singleton_self a))

def LinkOf (e : Engine) (node i : Nat) : Prop :=
  ∃ y, (y = node ∨ y ∈ e.m_weakReferences) ∧ (i = y + 1 ∨ i = y + 2)

theorem insert_spec {node : Nat} (k : Nat) (hheap : ∀ i, e.LinkOf node i → e.InHeap i) :
    ∃ e', e.insert k node = some e' ∧ Keeps (e.LinkOf node) e e' ∧
      ∀ y ∈ e'.m_weakReferences, y = node ∨ y ∈ e.m_weakReferences := by
  have hself (i : Nat) (hi : i = node + 1 ∨ i = node + 2) : e.LinkOf node i :=
    ⟨node, Or.inl rfl, hi⟩
  set next := (e.m_weakReferences.drop k).head?.getD e.tail with hnext
  set prev := (e.m_weakReferences.take k).getLast?.getD e.head with hprev
  have hnextLink (hne : next ≠ e.tail) : e.LinkOf node (next + 2) :=
    ⟨next, Or.inr (List.mem_of_mem_drop ((head?_getD_mem _ _).resolve_left hne)), Or.inr rfl⟩
  have hprevLink (hne : prev ≠ e.head) : e.LinkOf node (prev + 1) :=
    ⟨prev, Or.inr (List.mem_of_mem_take ((getLast?_getD_mem _ _).resolve_left hne)), Or.inl rfl⟩
  obtain ⟨e₁, hrun₁, hkeeps₁, hlinked₁, -⟩ := store_spec (hheap _ (hself _ (Or.inl rfl)))
    (hself _ (Or.inl rfl)) (address next)
  obtain ⟨e₂, hrun₂, hkeeps₂, hlinked₂, -⟩ := store_spec
    (hkeeps₁.inHeap.mpr (hheap _ (hself _ (Or.inr rfl)))) (hself _ (Or.inr rfl)) (address prev)
  have hkeeps₂ := hkeeps₁.trans hkeeps₂
  obtain ⟨e₃, hrun₃, hkeeps₃, hlinked₃⟩ := @storeLink_spec e₂ (e.LinkOf node) next 2
    (fun hne => by
      have hlink := hnextLink (hkeeps₂.tail ▸ hne.2)
      exact ⟨hkeeps₂.inHeap.mpr (hheap _ hlink), hlink⟩) (address node)
  have hkeeps₃ := hkeeps₂.trans hkeeps₃
  obtain ⟨e₄, hrun₄, hkeeps₄, hlinked₄⟩ := @storeLink_spec e₃ (e.LinkOf node) prev 1
    (fun hne => by
      have hlink := hprevLink (hkeeps₃.head ▸ hne.1)
      exact ⟨hkeeps₃.inHeap.mpr (hheap _ hlink), hlink⟩) (address node)
  have hkeeps₄ := hkeeps₃.trans hkeeps₄
  have hlinked : e₄.m_weakReferences = e.m_weakReferences :=
    hlinked₄.trans (hlinked₃.trans (hlinked₂.trans hlinked₁))
  refine ⟨{ e₄ with m_weakReferences :=
    e₄.m_weakReferences.take k ++ node :: e₄.m_weakReferences.drop k }, ?_, ?_, ?_⟩
  · simp only [insert, Option.bind_eq_bind, ← hnext, ← hprev, hrun₁, Option.bind_some, hrun₂,
      hrun₃, hrun₄]
  · exact ⟨hkeeps₄.lstHeap, hkeeps₄.head, hkeeps₄.tail, hkeeps₄.words⟩
  · intro y hy
    rw [hlinked] at hy
    rcases List.mem_append.mp hy with hy | hy
    · exact Or.inr (List.mem_of_mem_take hy)
    · rcases List.mem_cons.mp hy with hy | hy
      · exact Or.inl hy
      · exact Or.inr (List.mem_of_mem_drop hy)

/-- A node without links is in no list. -/
theorem unlink_spec (hnext : e.words (node + 1) = 0) (hprev : e.words (node + 2) = 0)
    (hheap₁ : e.InHeap (node + 1)) (hheap₂ : e.InHeap (node + 2)) :
    ∃ e', e.unlink node = some e' ∧ Keeps (fun _ => False) e e' ∧
      e'.m_weakReferences = e.m_weakReferences.erase node := by
  refine ⟨{ e with
    words := (e.words.set (node + 2) 0).set (node + 1) 0
    m_weakReferences := e.m_weakReferences.erase node }, ?_, ⟨rfl, rfl, rfl, fun i _ => ?_⟩, rfl⟩
  · simp only [unlink, Option.bind_eq_bind, load_eq hheap₁, load_eq hheap₂, Option.bind_some, hnext,
      hprev, if_true, store_eq hheap₂]
    have hheap : ({ e with words := e.words.set (node + 2) 0 } : Engine).InHeap (node + 1) := hheap₁
    rw [store_eq hheap]
    rfl
  · dsimp only
    by_cases h₁ : i = node + 1
    · rw [h₁, Range.set_self, hnext]
    by_cases h₂ : i = node + 2
    · rw [Range.set_of_ne _ h₁, h₂, Range.set_self, hprev]
    · rw [Range.set_of_ne _ h₁, Range.set_of_ne _ h₂]

theorem countBefore_isSome (pri : Int) (l : List Nat) (h : ∀ y ∈ l, e.InHeap (y + 8)) :
    ∃ k, e.countBefore pri l = some k := by
  induction l with
  | nil => exact ⟨0, rfl⟩
  | cons y l ih =>
    obtain ⟨k, hk⟩ := ih fun z hz => h z (List.mem_cons_of_mem y hz)
    rw [countBefore, load_eq (h y List.mem_cons_self)]
    simp only [Option.bind_eq_bind, Option.bind_some, hk]
    split
    · exact ⟨0, rfl⟩
    · exact ⟨k + 1, rfl⟩

variable {weak : Nat}

/-- Linking a reference that is in no list writes links only. -/
theorem insertInPriorityOrder_spec (hnext : e.words (weak + 1) = 0)
    (hprev : e.words (weak + 2) = 0) (hnew : weak ∉ e.m_weakReferences)
    (hheap : ∀ y, y = weak ∨ y ∈ e.m_weakReferences → ∀ k < 12, e.InHeap (y + k)) :
    ∃ e', e.insertInPriorityOrder weak = some e' ∧ Keeps (e.LinkOf weak) e e' ∧
      ∀ y ∈ e'.m_weakReferences, y = weak ∨ y ∈ e.m_weakReferences := by
  have hown := hheap weak (Or.inl rfl)
  obtain ⟨e₁, hrun₁, hkeeps₁, hlinked₁⟩ :=
    unlink_spec hnext hprev (hown 1 (by decide)) (hown 2 (by decide))
  rw [List.erase_of_not_mem hnew] at hlinked₁
  have hinsert (k : Nat) : ∃ e', e₁.insert k weak = some e' ∧ Keeps (e.LinkOf weak) e e' ∧
      ∀ y ∈ e'.m_weakReferences, y = weak ∨ y ∈ e.m_weakReferences := by
    have hlinks (i : Nat) : e₁.LinkOf weak i ↔ e.LinkOf weak i := by
      rw [LinkOf, LinkOf, hlinked₁]
    obtain ⟨e', hrun, hkeeps, hlinked⟩ := @insert_spec e₁ weak k (by
      rintro i ⟨y, hy, hi⟩
      rw [hlinked₁] at hy
      rw [hkeeps₁.inHeap]
      rcases hi with rfl | rfl
      · exact hheap y hy 1 (by decide)
      · exact hheap y hy 2 (by decide))
    refine ⟨e', hrun, ?_, fun y hy => hlinked₁ ▸ hlinked y hy⟩
    exact (hkeeps₁.mono fun _ => False.elim).trans (hkeeps.mono fun i => (hlinks i).mp)
  rw [insertInPriorityOrder, hrun₁]
  simp only [Option.bind_eq_bind, Option.bind_some, load_eq (hkeeps₁.inHeap.mpr (hown 4 (by decide))),
    load_eq (hkeeps₁.inHeap.mpr (hown 8 (by decide)))]
  split
  · obtain ⟨k, hk⟩ := @countBefore_isSome e₁ (int32 (e₁.words (weak + 8)).toNat)
      e₁.m_weakReferences fun y hy => hkeeps₁.inHeap.mpr
        (hheap y (Or.inr (hlinked₁ ▸ hy)) 8 (by decide))
    rw [hk, Option.bind_some]
    exact hinsert k
  · exact hinsert _

/-! ### Looking for the target -/

variable {g_buildCRC : UInt32}

theorem computeCRC_isSome {g_buildCRC : UInt32} {weak ptr : Nat} {len : UInt32}
    (hown : ∀ k < 12, e.InHeap (weak + k))
    (hheap : ∀ i < (int32 len.toNat).toNat, e.InHeap (ptr + i / 4)) :
    ∃ crc, e.computeCRC g_buildCRC weak ptr len = some crc := by
  obtain ⟨bytes, hbytes⟩ := loadBytes_isSome hheap
  obtain ⟨sel, hsel⟩ := @loadBytes_isSome e (weak + 6) 4 fun i hi => by
    rw [Nat.div_eq_of_lt hi]
    exact hown 6 (by decide)
  obtain ⟨ident, hident⟩ := @loadBytes_isSome e (weak + 7) 4 fun i hi => by
    rw [Nat.div_eq_of_lt hi]
    exact hown 7 (by decide)
  rw [computeCRC]
  simp only [Option.bind_eq_bind, hbytes, hsel, hident, Option.bind_some]
  exact ⟨_, rfl⟩

/-- Comparing with a block reads its element count, and as many bytes as the reference claims when
    the count agrees. -/
theorem remembers_isSome {ptr2 : Nat}
    (hown : ∀ k < 12, e.InHeap (weak + k)) (hcount : e.InHeap (ptr2 + 3))
    (hheap : e.words (ptr2 + 3) = e.words (weak + 5) →
      ∀ i < (int32 (e.words (weak + 5)).toNat).toNat, e.InHeap (ptr2 + 5 + i / 4)) :
    ∃ b, e.remembers g_buildCRC weak ptr2 = some b := by
  rw [remembers, load_eq hcount, load_eq (hown 5 (by decide)), Option.bind_eq_bind,
    Option.bind_some, Option.bind_some]
  by_cases heq : e.words (ptr2 + 3) = e.words (weak + 5)
  · obtain ⟨crc, hcrc⟩ := @computeCRC_isSome e g_buildCRC weak (ptr2 + 5) (e.words (weak + 5)) hown
      (hheap heq)
    rw [if_pos heq, load_eq (hown 3 (by decide)), Option.bind_some, hcrc, Option.bind_some]
    exact ⟨_, rfl⟩
  · rw [if_neg heq]
    exact ⟨false, rfl⟩

variable {b : Bool}

theorem inHeap_of_remembers {ptr2 : Nat}
    (hown : ∀ k < 12, e.InHeap (weak + k)) (h : e.remembers g_buildCRC weak ptr2 = some b) :
    e.InHeap (ptr2 + 3) ∧ (e.words (ptr2 + 3) = e.words (weak + 5) →
      ∀ i < (int32 (e.words (weak + 5)).toNat).toNat, e.InHeap (ptr2 + 5 + i / 4)) := by
  rw [remembers] at h
  obtain ⟨count, hcount, h⟩ := Option.bind_eq_some_iff.mp h
  have hin := inHeap_of_load hcount
  refine ⟨hin, fun heq => ?_⟩
  obtain rfl : e.words (ptr2 + 3) = count := Option.some.inj ((load_eq hin).symm.trans hcount)
  rw [load_eq (hown 5 (by decide)), Option.bind_eq_bind, Option.bind_some, if_pos heq,
    load_eq (hown 3 (by decide)), Option.bind_some, computeCRC] at h
  rcases hbytes : e.loadBytes (ptr2 + 5) (int32 (e.words (weak + 5)).toNat).toNat with _ | bytes
  · rw [hbytes] at h
    exact nomatch h
  · exact inHeap_of_loadBytes hbytes

variable {ys : List Nat}

/-- The walk over a tiled range ends; what it finds is a tile. -/
theorem walkTo_spec {size : Nat → Nat} {target : UInt32} {stop : Nat}
    (htiles : Tiles size ptr ys stop) (hheap : ∀ y ∈ ys, e.InHeap y ∧ y < stop)
    (hsize : ∀ y ∈ ys, advance y (dataSize (e.words y)) = y + size y) :
    ∀ {fuel : Nat}, ys.length < fuel → ∃ found, e.walkTo target fuel (ptr, stop) = some found ∧
      (∀ t, found = some t → t ∈ ys ∧ address t = target) ∧
      (found = none → ∀ y ∈ ys, address y ≠ target) := by
  induction htiles with
  | nil ptr =>
    intro fuel hfuel
    obtain ⟨fuel, rfl⟩ := Nat.exists_eq_succ_of_ne_zero (Nat.ne_of_gt hfuel)
    exact ⟨none, if_neg (Nat.lt_irrefl ptr), nofun,
      fun _ y hy => absurd hy List.not_mem_nil⟩
  | @cons ptr stop ys hpos hrest ih =>
    intro fuel hfuel
    obtain ⟨fuel, rfl⟩ := Nat.exists_eq_succ_of_ne_zero (Nat.ne_of_gt (Nat.zero_lt_of_lt hfuel))
    obtain ⟨hin, hlt⟩ := hheap ptr List.mem_cons_self
    rw [Nat.succ_eq_add_one, walkTo, if_pos hlt]
    by_cases htarget : address ptr = target
    · refine ⟨some ptr, if_pos htarget, fun t ht => ?_, nofun⟩
      cases ht
      exact ⟨List.mem_cons_self, htarget⟩
    · rw [if_neg htarget, load_eq hin]
      simp only [Option.bind_eq_bind, Option.bind_some, hsize ptr List.mem_cons_self]
      obtain ⟨found, hrun, hfound, hnone⟩ := ih (fun y hy => hheap y (List.mem_cons_of_mem ptr hy))
        (fun y hy => hsize y (List.mem_cons_of_mem ptr hy)) (Nat.lt_of_succ_lt_succ hfuel)
      refine ⟨found, hrun, fun t ht => ?_, fun hno y hy => ?_⟩
      · exact ⟨List.mem_cons_of_mem ptr (hfound t ht).1, (hfound t ht).2⟩
      · rcases List.mem_cons.mp hy with rfl | hy
        · exact htarget
        · exact hnone hno y hy

end Engine

namespace Range

/-! ### The run -/

/-- What may stand behind the header of the block at `t` when the reference at `x` is looked at:
    behind a block of one heap block it is the next header, and a reference in front of `x` may
    have become free. -/
def Follows (r : Range) (words : Words) (x t : Nat) (v : UInt32) : Prop :=
  if r.span words t = 3 then
    v = r.headerAt words (t + 3) ∨ KeptWeak words (t + 3) ∧ t + 3 < x ∧
      v = changeDataType (r.headerAt words (t + 3)) DATATYPE_FREEBLOCK
  else v = words (t + 3)

/-- The reference at `x` does not claim more than there is when it names the block at `t`: the
    block has an element count inside the range, and as many bytes as the reference claims, unless
    the length is negative as an `int` or `other` holds. -/
def Fits (r : Range) (words : Words) (x t : Nat) (other : Prop) : Prop :=
  t + 3 < r.stop ∧ (2 ^ 31 ≤ (words (x + 5)).toNat ∨
    4 * (t + 5) + (words (x + 5)).toNat ≤ 4 * r.stop ∨ other)

/-- The references that name a block recovery comes to claim no more than there is, or the count
    of that block is certainly another one. -/
def TargetsFit (r : Range) (words : Words) : Prop :=
  ∀ x t, r.Reached words x → KeptWeak words x → r.Reached words t →
    address t = words (x + 10) → r.Fits words x t (∀ v, r.Follows words x t v → v ≠ words (x + 5))

/-- The same, or the count of that block is possibly another one -/
def TargetsMayFit (r : Range) (words : Words) : Prop :=
  ∀ x t, r.Reached words x → KeptWeak words x → r.Reached words t →
    address t = words (x + 10) → r.Fits words x t (∃ v, r.Follows words x t v ∧ v ≠ words (x + 5))

/-- Where `RecoverObjects` stands when it comes to `x` -/
structure Recovering (r : Range) (words p : Words) (xs : List Nat) (e : Engine) (x : Nat) :
    Prop where
  heap : e.lstHeap = [(r.start, r.stop)]
  linked : ∀ y ∈ e.m_weakReferences, y ∈ xs ∧ KeptWeak words y ∧ y < x
  memory : ∀ i, e.words i = p i ∨
    (∃ y ∈ xs, KeptWeak words y ∧ y < x ∧ (i = y + 1 ∨ i = y + 2 ∨ i = y + 4)) ∨
    i ∈ xs ∧ KeptWeak words i ∧ i < x ∧ e.words i = changeDataType (p i) DATATYPE_FREEBLOCK

variable {r : Range} {words p : Words} {xs : List Nat} {e : Engine} {x : Nat}

theorem span_weak {y : Nat} (h : KeptWeak words y) : r.span words y = 12 := by
  rw [span, sizeAt, if_pos (show r.Kept words y from Or.inl h), h.2.1]
  rfl

theorem Recovering.inHeap_iff (h : r.Recovering words p xs e x) :
    e.InHeap i ↔ r.start ≤ i ∧ i < r.stop := by
  rw [Engine.InHeap, h.heap]
  simp only [List.mem_singleton, exists_eq_left]

theorem Recovering.mono (h : r.Recovering words p xs e x) {x' : Nat} (hle : x ≤ x') :
    r.Recovering words p xs e x' where
  heap := h.heap
  linked y hy := by
    obtain ⟨hmem, hweak, hlt⟩ := h.linked y hy
    exact ⟨hmem, hweak, Nat.lt_of_lt_of_le hlt hle⟩
  memory i := by
    rcases h.memory i with heq | ⟨y, hy, hweak, hlt, hi⟩ | ⟨hi, hweak, hlt, heq⟩
    · exact Or.inl heq
    · exact Or.inr (Or.inl ⟨y, hy, hweak, Nat.lt_of_lt_of_le hlt hle, hi⟩)
    · exact Or.inr (Or.inr ⟨hi, hweak, Nat.lt_of_lt_of_le hlt hle, heq⟩)

variable {t : Nat}

theorem Recovering.word (h : r.Recovering words p xs e x) (hp : r.Prepared words p xs)
    (ht : t ∈ xs) (hlow : t ≤ i) (hhigh : i < t + r.span words t) :
    e.words i = p i ∨ KeptWeak words t ∧ t < x ∧ (i = t + 1 ∨ i = t + 2 ∨ i = t + 4 ∨
      i = t ∧ e.words i = changeDataType (p i) DATATYPE_FREEBLOCK) := by
  rcases h.memory i with heq | ⟨y, hy, hweak, hlt, hi⟩ | ⟨hi, hweak, hlt, heq⟩
  · exact Or.inl heq
  · have hspan := span_weak (r := r) hweak
    obtain rfl : y = t := hp.tiles.eq_of_overlap hy ht (by omega) (by omega)
    exact Or.inr ⟨hweak, hlt, by tauto⟩
  · have hspan := span_weak (r := r) hweak
    obtain rfl : i = t := hp.tiles.eq_of_overlap hi ht (by omega) (by omega)
    exact Or.inr ⟨hweak, hlt, Or.inr (Or.inr (Or.inr ⟨rfl, heq⟩))⟩

theorem Recovering.header (h : r.Recovering words p xs e x) (hp : r.Prepared words p xs)
    (ht : t ∈ xs) : e.words t = r.headerAt words t ∨ KeptWeak words t ∧ t < x ∧
      e.words t = changeDataType (r.headerAt words t) DATATYPE_FREEBLOCK := by
  have hpos := (hp.tiles.mem ht).2.1
  rw [← hp.header ht]
  rcases h.word hp ht (Nat.le_refl t) (by omega) with heq | ⟨hweak, hlt, hi⟩
  · exact Or.inl heq
  · refine Or.inr ⟨hweak, hlt, ?_⟩
    rcases hi with hi | hi | hi | ⟨-, heq⟩
    · omega
    · omega
    · omega
    · exact heq

theorem Recovering.move (h : r.Recovering words p xs e x) (hp : r.Prepared words p xs)
    (ht : t ∈ xs) : advance t (dataSize (e.words t)) = t + r.span words t := by
  have hsize : dataSize (e.words t) = dataSize (p t) := by
    rw [hp.header ht]
    rcases h.header hp ht with heq | ⟨-, -, heq⟩
    · rw [heq]
    · rw [heq, dataSize_changeDataType]
  rw [advance_eq (hp.aligned t ht).1 (dataSize_le _), hsize, hp.dataSize_eq ht]

theorem Recovering.fresh (h : r.Recovering words p xs e x) (hp : r.Prepared words p xs)
    (hx : x ∈ xs) (hweak : KeptWeak words x) {k : Nat} (hk : k < 12) :
    e.words (x + k) = keepWeak words x (x + k) := by
  have hspan := span_weak (r := r) hweak
  have hblock := hp.block x hx (x + k) (by omega) (by omega)
  rw [blockAt, if_pos hweak] at hblock
  rw [← hblock]
  refine (h.word hp hx (by omega) (by omega)).resolve_right fun hlater => ?_
  exact absurd hlater.2.1 (Nat.lt_irrefl x)

theorem dataType_headerAt (hp : r.Prepared words p xs) (hx : x ∈ xs) :
    dataType (r.headerAt words x) = DATATYPE_WEAKCLASS ↔ KeptWeak words x := by
  have hlt := Nat.not_le.mp (hp.goes x hx)
  rw [headerAt]
  by_cases hweak : KeptWeak words x
  · rw [if_pos (show r.Kept words x from Or.inl hweak), dataType_markAlive]
    exact iff_of_true hweak.1 hweak
  refine iff_of_false ?_ hweak
  by_cases harray : KeptArray words r.stop x
  · rw [if_pos (show r.Kept words x from Or.inr harray), dataType_markAlive, harray.1]
    decide
  · rw [if_neg fun hk : r.Kept words x => hk.elim hweak harray,
      dataType_freeBlockId (sizeAt_le (hp.aligned x hx) hlt)]
    decide

theorem Prepared.reached (hp : r.Prepared words p xs) (hx : x ∈ xs) : r.Reached words x :=
  (hp.tiles.mem_iff_visits (Nat.le_refl _) hp.goes).mp hx

theorem Recovering.follows (h : r.Recovering words p xs e x) (hp : r.Prepared words p xs)
    (ht : t ∈ xs) (hend : t + 3 < r.stop) : r.Follows words x t (e.words (t + 3)) := by
  have hpos := (hp.tiles.mem ht).2.1
  rw [Follows]
  by_cases hone : r.span words t = 3
  · rw [if_pos hone]
    have hnext : t + 3 ∈ xs := by
      have hmem := hp.tiles.next_mem ht
      rw [hone] at hmem
      exact hmem.resolve_right (Nat.ne_of_lt hend)
    exact h.header hp hnext
  · have hlong : t + 3 < t + r.span words t := by
      rw [span] at hone hpos ⊢
      omega
    rw [if_neg hone]
    have hword : e.words (t + 3) = p (t + 3) := by
      refine (h.word hp ht (Nat.le_add_right _ _) hlong).resolve_right ?_
      rintro ⟨-, -, hi⟩
      omega
    rw [hword, hp.block t ht _ (Nat.le_add_right _ _) hlong, blockAt]
    split
    · exact keepWeak_of_ne (by omega)
    · exact set_of_ne _ (by omega)

theorem int32_length (len : UInt32) :
    (2 ^ 31 ≤ len.toNat → (int32 len.toNat).toNat = 0) ∧ (int32 len.toNat).toNat ≤ len.toNat := by
  have hlt := len.toNat_lt
  rcases Nat.lt_or_ge len.toNat (2 ^ 31) with hsmall | hlarge
  · rw [int32_eq_self (by omega) (by omega)]
    exact ⟨fun hlarge => absurd hsmall (Nat.not_lt.mpr hlarge), Nat.le_refl _⟩
  · rw [int32_eq_sub (by omega) (by omega)]
    exact ⟨fun _ => by omega, by omega⟩

theorem Recovering.own (h : r.Recovering words p xs e x) (hp : r.Prepared words p xs) {y : Nat}
    (hy : y ∈ xs) (hweak : KeptWeak words y) {k : Nat} (hk : k < 12) : e.InHeap (y + k) := by
  have hspan := span_weak (r := r) hweak
  obtain ⟨hle, -, hend⟩ := hp.tiles.mem hy
  exact h.inHeap_iff.mpr ⟨by omega, by omega⟩

variable {fuel : Nat}

theorem Recovering.walkTo_spec (h : r.Recovering words p xs e x) (hp : r.Prepared words p xs)
    (target : UInt32) (hfuel : xs.length < fuel) :
    ∃ found, e.walkTo target fuel (r.start, r.stop) = some found ∧
      (∀ t, found = some t → t ∈ xs ∧ address t = target) ∧
      (found = none → ∀ y ∈ xs, address y ≠ target) := by
  refine Engine.walkTo_spec hp.tiles (fun y hy => ?_) (fun y hy => h.move hp hy) hfuel
  obtain ⟨hle, hpos, hend⟩ := hp.tiles.mem hy
  exact ⟨h.inHeap_iff.mpr ⟨hle, by omega⟩, by omega⟩

theorem Recovering.hasTarget_isSome (h : r.Recovering words p xs e x) (hp : r.Prepared words p xs)
    (hfit : r.TargetsFit words) (hx : x ∈ xs) (hweak : KeptWeak words x) (g_buildCRC : UInt32)
    (hfuel : xs.length < fuel) :
    ∃ b, e.hasTarget g_buildCRC fuel x (words (x + 10)) e.lstHeap = some b := by
  rw [h.heap, Engine.hasTarget]
  split
  · obtain ⟨found, hwalk, hfound, -⟩ := h.walkTo_spec hp (words (x + 10)) hfuel
    rw [hwalk, Option.bind_some]
    rcases found with _ | t
    · exact ⟨false, rfl⟩
    obtain ⟨ht, htarget⟩ := hfound t rfl
    have hstart := (hp.tiles.mem ht).1
    obtain ⟨hend, hlength⟩ := hfit x t (hp.reached hx) hweak (hp.reached ht) htarget
    refine Engine.remembers_isSome (fun k hk => h.own hp hx hweak hk)
      (h.inHeap_iff.mpr ⟨by omega, hend⟩) fun heq i hi => ?_
    have hlen : e.words (x + 5) = words (x + 5) :=
      (h.fresh hp hx hweak (by decide)).trans (keepWeak_of_ne (by omega))
    rw [hlen] at heq hi
    rw [h.inHeap_iff]
    obtain ⟨hnegative, hle⟩ := int32_length (words (x + 5))
    rcases hlength with hlarge | hfits | hother
    · rw [hnegative hlarge] at hi
      exact absurd hi (Nat.not_lt_zero i)
    · omega
    · exact absurd heq (hother _ (h.follows hp ht hend))
  · exact ⟨false, rfl⟩

theorem toNat_address (r : Range) (h : ptr ≤ r.stop) : (address ptr).toNat = 4 * ptr := by
  have hroom := r.room
  rw [address]
  exact UInt32.toNat_ofNat_of_lt' (by rw [UInt32.size]; omega)

theorem Recovering.fits_of_hasTarget (h : r.Recovering words p xs e x)
    (hp : r.Prepared words p xs) (hx : x ∈ xs) (hweak : KeptWeak words x)
    (hfuel : xs.length < fuel)
    (hb : e.hasTarget g_buildCRC fuel x (words (x + 10)) e.lstHeap = some b)
    (ht : t ∈ xs) (htarget : address t = words (x + 10)) :
    r.Fits words x t (∃ v, r.Follows words x t v ∧ v ≠ words (x + 5)) := by
  obtain ⟨hlow, hpos, hend⟩ := hp.tiles.mem ht
  have hrange : (address r.start).toNat ≤ (words (x + 10)).toNat ∧
      (words (x + 10)).toNat < (address r.stop).toNat := by
    rw [← htarget, r.toNat_address (by omega), r.toNat_address (by omega),
      r.toNat_address (Nat.le_refl _)]
    omega
  obtain ⟨found, hwalk, hfound, hnone⟩ := h.walkTo_spec hp (words (x + 10)) hfuel
  rw [h.heap, Engine.hasTarget, if_pos hrange, hwalk, Option.bind_some] at hb
  rcases found with _ | t'
  · exact absurd htarget (hnone rfl t ht)
  obtain ⟨ht', htarget'⟩ := hfound t' rfl
  obtain rfl : t' = t := by
    have hend' := (hp.tiles.mem ht').2.2
    have heq := congrArg UInt32.toNat (htarget'.trans htarget.symm)
    rw [r.toNat_address (by omega), r.toNat_address (by omega)] at heq
    omega
  have hlen : e.words (x + 5) = words (x + 5) :=
    (h.fresh hp hx hweak (by decide)).trans (keepWeak_of_ne (by omega))
  obtain ⟨hcount, hbytes⟩ := Engine.inHeap_of_remembers (fun k hk => h.own hp hx hweak hk) hb
  rw [hlen] at hbytes
  have hstop := (h.inHeap_iff.mp hcount).2
  refine ⟨hstop, ?_⟩
  by_cases heq : e.words (t' + 3) = words (x + 5)
  · obtain ⟨-, n, hn⟩ := hp.aligned t' ht
    rcases Nat.lt_or_ge (words (x + 5)).toNat (2 ^ 31) with hsmall | hlarge
    · refine Or.inr (Or.inl ?_)
      have hbytes := hbytes heq
      rw [int32_eq_self (by omega) (by omega), Int.toNat_natCast] at hbytes
      rcases Nat.eq_zero_or_pos (words (x + 5)).toNat with hzero | hpos
      · omega
      · have hlast := (h.inHeap_iff.mp (hbytes ((words (x + 5)).toNat - 1) (by omega))).2
        omega
    · exact Or.inl hlarge
  · exact Or.inr (Or.inr ⟨_, h.follows hp ht hstop, heq⟩)

/-- **One reference**: it is linked or becomes free, and nothing else changes. -/
theorem Recovering.recoverWeak_spec (h : r.Recovering words p xs e x)
    (hp : r.Prepared words p xs) (hx : x ∈ xs) (hweak : KeptWeak words x)
    (hb : e.hasTarget g_buildCRC fuel x (words (x + 10)) e.lstHeap = some b) :
    ∃ e', e.recoverWeak g_buildCRC fuel x = some e' ∧
      r.Recovering words p xs e' (x + r.span words x) := by
  have hspan := span_weak (r := r) hweak
  have hown {k : Nat} (hk : k < 12) : e.InHeap (x + k) := h.own hp hx hweak hk
  have hlt : x < x + r.span words x := by omega
  have htarget : e.words (x + 10) = words (x + 10) :=
    (h.fresh hp hx hweak (by decide)).trans (keepWeak_of_ne (by omega))
  have hhead : e.words x = p x := by
    rw [hp.header hx]
    exact (h.header hp hx).resolve_right fun hlater => absurd hlater.2.1 (Nat.lt_irrefl x)
  rw [Engine.recoverWeak, Engine.load_eq (hown (by decide)), htarget]
  simp only [Option.bind_eq_bind, Option.bind_some, hb]
  have hx0 : e.InHeap x := hown (k := 0) (by decide)
  cases b with
  | false =>
    rw [if_neg Bool.false_ne_true, Engine.load_eq hx0, Option.bind_some, Engine.store_eq hx0]
    refine ⟨_, rfl, h.heap, fun y hy => ?_, fun i => ?_⟩
    · obtain ⟨hmem, hw, hy⟩ := h.linked y hy
      exact ⟨hmem, hw, Nat.lt_trans hy hlt⟩
    · dsimp only
      by_cases hi : i = x
      · subst hi
        rw [set_self, hhead]
        exact Or.inr (Or.inr ⟨hx, hweak, hlt, rfl⟩)
      · rw [set_of_ne _ hi]
        exact (h.mono (Nat.le_of_lt hlt)).memory i
  | true =>
    have h4 : e.InHeap (x + 4) := hown (by decide)
    rw [if_pos rfl, Engine.load_eq h4, Option.bind_some]
    obtain ⟨e₁, hrun₁, hkeeps₁, hlinked₁, -⟩ := @Engine.store_spec e (· = x + 4) (x + 4) h4 rfl
      (e.words (x + 4) ||| WR_Restored)
    rw [hrun₁, Option.bind_some]
    have hzero (k : Nat) (hk : k = 1 ∨ k = 2) : e₁.words (x + k) = 0 := by
      rw [hkeeps₁.words (x + k) (by omega), h.fresh hp hx hweak (by omega), keepWeak,
        set_of_ne _ (by omega), set_of_ne _ (by omega), set_of_ne _ (by omega)]
      rcases hk with rfl | rfl
      · rw [set_of_ne _ (by omega), set_self]
      · rw [set_self]
    have hold {y : Nat} (hy : y = x ∨ y ∈ e₁.m_weakReferences) :
        y ∈ xs ∧ KeptWeak words y ∧ y < x + r.span words x := by
      rw [hlinked₁] at hy
      rcases hy with rfl | hy
      · exact ⟨hx, hweak, hlt⟩
      · obtain ⟨hmem, hw, hy⟩ := h.linked y hy
        exact ⟨hmem, hw, Nat.lt_trans hy hlt⟩
    have hnew : x ∉ e₁.m_weakReferences := by
      rw [hlinked₁]
      exact fun hmem => absurd (h.linked x hmem).2.2 (Nat.lt_irrefl x)
    obtain ⟨e₂, hrun₂, hkeeps₂, hlinked₂⟩ :=
      Engine.insertInPriorityOrder_spec (hzero 1 (Or.inl rfl)) (hzero 2 (Or.inr rfl)) hnew
        fun y hy k hk => hkeeps₁.inHeap.mpr (h.own hp (hold hy).1 (hold hy).2.1 hk)
    refine ⟨e₂, hrun₂, ?_, fun y hy => hold (hlinked₂ y hy), fun i => ?_⟩
    · rw [hkeeps₂.lstHeap, hkeeps₁.lstHeap, h.heap]
    · by_cases hlink : e₁.LinkOf x i
      · obtain ⟨y, hy, hi⟩ := hlink
        obtain ⟨hmem, hw, hlt⟩ := hold hy
        exact Or.inr (Or.inl ⟨y, hmem, hw, hlt, hi.imp_right Or.inl⟩)
      · rw [hkeeps₂.words i hlink]
        by_cases hi : i = x + 4
        · exact Or.inr (Or.inl ⟨x, hx, hweak, hlt, Or.inr (Or.inr hi)⟩)
        · rw [hkeeps₁.words i hi]
          exact (h.mono (Nat.le_of_lt hlt)).memory i

theorem Recovering.recoverBlock_spec (h : r.Recovering words p xs e x)
    (hp : r.Prepared words p xs) (hfit : r.TargetsFit words) (hx : x ∈ xs) (g_buildCRC : UInt32)
    (hfuel : xs.length < fuel) :
    ∃ e', e.recoverBlock g_buildCRC fuel x = some e' ∧
      r.Recovering words p xs e' (x + r.span words x) := by
  obtain ⟨hle, hpos, hend⟩ := hp.tiles.mem hx
  have hhead : e.words x = r.headerAt words x :=
    (h.header hp hx).resolve_right fun hlater => absurd hlater.2.1 (Nat.lt_irrefl x)
  rw [Engine.recoverBlock, Engine.load_eq (h.inHeap_iff.mpr ⟨hle, by omega⟩), Option.bind_eq_bind,
    Option.bind_some, hhead]
  by_cases hweak : KeptWeak words x
  · rw [if_pos ((dataType_headerAt hp hx).mpr hweak)]
    obtain ⟨b, hb⟩ := h.hasTarget_isSome hp hfit hx hweak g_buildCRC hfuel
    exact h.recoverWeak_spec hp hx hweak hb
  · rw [if_neg fun ht => hweak ((dataType_headerAt hp hx).mp ht)]
    exact ⟨e, rfl, h.mono (Nat.le_add_right _ _)⟩

theorem Recovering.fits_of_recoverBlock (h : r.Recovering words p xs e x)
    (hp : r.Prepared words p xs) (hx : x ∈ xs)
    (hfuel : xs.length < fuel) {e' : Engine}
    (hrun : e.recoverBlock g_buildCRC fuel x = some e') :
    r.Recovering words p xs e' (x + r.span words x) ∧ (KeptWeak words x → ∀ t ∈ xs,
      address t = words (x + 10) →
        r.Fits words x t (∃ v, r.Follows words x t v ∧ v ≠ words (x + 5))) := by
  obtain ⟨hle, hpos, hend⟩ := hp.tiles.mem hx
  have hhead : e.words x = r.headerAt words x :=
    (h.header hp hx).resolve_right fun hlater => absurd hlater.2.1 (Nat.lt_irrefl x)
  rw [Engine.recoverBlock, Engine.load_eq (h.inHeap_iff.mpr ⟨hle, by omega⟩), Option.bind_eq_bind,
    Option.bind_some, hhead] at hrun
  by_cases hweak : KeptWeak words x
  · rw [if_pos ((dataType_headerAt hp hx).mpr hweak)] at hrun
    have hcopy := hrun
    rw [Engine.recoverWeak, Engine.load_eq (h.own hp hx hweak (by decide)),
      h.fresh hp hx hweak (by decide), keepWeak_of_ne (by omega), Option.bind_eq_bind,
      Option.bind_some] at hcopy
    obtain ⟨b, hb, -⟩ := Option.bind_eq_some_iff.mp hcopy
    obtain ⟨e₁, hrun₁, h₁⟩ := h.recoverWeak_spec hp hx hweak hb
    obtain rfl : e₁ = e' := Option.some.inj (hrun₁.symm.trans hrun)
    exact ⟨h₁, fun _ t ht htarget => h.fits_of_hasTarget hp hx hweak hfuel hb ht htarget⟩
  · rw [if_neg fun ht => hweak ((dataType_headerAt hp hx).mp ht)] at hrun
    cases hrun
    exact ⟨h.mono (Nat.le_add_right _ _), fun hw => absurd hw hweak⟩

/-- **The loop over a cluster** -/
theorem Recovering.recoverCluster_spec (hp : r.Prepared words p xs) (hfit : r.TargetsFit words)
    (g_buildCRC : UInt32) (htiles : Tiles (r.span words) x ys r.stop)
    (hsub : ys ⊆ xs) :
    ∀ {e : Engine} {fuel : Nat}, r.Recovering words p xs e x → xs.length + ys.length < fuel →
      ∃ e', Engine.recoverCluster g_buildCRC fuel e (x, r.stop) = some e' ∧
        r.Recovering words p xs e' r.stop := by
  generalize hstop : r.stop = stop at htiles
  induction htiles with
  | nil x =>
    subst hstop
    intro e fuel h hfuel
    obtain ⟨fuel, rfl⟩ := Nat.exists_eq_succ_of_ne_zero (Nat.ne_of_gt (Nat.zero_lt_of_lt hfuel))
    exact ⟨e, if_neg (Nat.lt_irrefl r.stop), h⟩
  | @cons x stop ys hpos hrest ih =>
    subst hstop
    intro e fuel h hfuel
    rw [List.length_cons] at hfuel
    obtain ⟨fuel, rfl⟩ := Nat.exists_eq_succ_of_ne_zero (Nat.ne_of_gt (Nat.zero_lt_of_lt hfuel))
    have hx : x ∈ xs := hsub List.mem_cons_self
    obtain ⟨hle, -, hend⟩ := hp.tiles.mem hx
    have hlt : x < r.stop := by omega
    obtain ⟨e₁, hrun, h₁⟩ := h.recoverBlock_spec hp hfit hx g_buildCRC
      (by omega : xs.length < fuel + 1)
    obtain ⟨e', hrun', h'⟩ := ih (fun y hy => hsub (List.mem_cons_of_mem x hy)) rfl h₁
      (by omega : xs.length + ys.length < fuel)
    refine ⟨e', ?_, h'⟩
    rw [Nat.succ_eq_add_one, Engine.recoverCluster, if_pos hlt]
    simp only [Option.bind_eq_bind, hrun, Option.bind_some,
      Engine.load_eq (h₁.inHeap_iff.mpr ⟨hle, hlt⟩), h₁.move hp hx]
    exact hrun'

theorem Recovering.fits_of_recoverCluster (hp : r.Prepared words p xs)
    (htiles : Tiles (r.span words) x ys r.stop) (hsub : ys ⊆ xs) :
    ∀ {e e' : Engine} {fuel : Nat}, r.Recovering words p xs e x → xs.length + ys.length < fuel →
      Engine.recoverCluster g_buildCRC fuel e (x, r.stop) = some e' →
      ∀ y ∈ ys, KeptWeak words y → ∀ t ∈ xs, address t = words (y + 10) →
        r.Fits words y t (∃ v, r.Follows words y t v ∧ v ≠ words (y + 5)) := by
  generalize hstop : r.stop = stop at htiles
  induction htiles with
  | nil x => exact fun _ _ _ y hy => absurd hy List.not_mem_nil
  | @cons x stop ys hpos hrest ih =>
    subst hstop
    intro e e' fuel h hfuel hrun
    rw [List.length_cons] at hfuel
    obtain ⟨fuel, rfl⟩ := Nat.exists_eq_succ_of_ne_zero (Nat.ne_of_gt (Nat.zero_lt_of_lt hfuel))
    have hx : x ∈ xs := hsub List.mem_cons_self
    obtain ⟨hle, -, hend⟩ := hp.tiles.mem hx
    have hlt : x < r.stop := by omega
    rw [Nat.succ_eq_add_one, Engine.recoverCluster, if_pos hlt] at hrun
    obtain ⟨e₁, hblock, hrun⟩ := Option.bind_eq_some_iff.mp hrun
    obtain ⟨h₁, hfits⟩ := h.fits_of_recoverBlock hp hx (by omega : xs.length < fuel + 1) hblock
    rw [Engine.load_eq (h₁.inHeap_iff.mpr ⟨hle, hlt⟩), Option.bind_eq_bind, Option.bind_some,
      h₁.move hp hx] at hrun
    intro y hy
    rcases List.mem_cons.mp hy with rfl | hy
    · exact hfits
    · exact ih (fun z hz => hsub (List.mem_cons_of_mem x hz)) rfl h₁
        (by omega : xs.length + ys.length < fuel) hrun y hy

/-! ### Recovery as a whole -/

/-- The engine after the reset: one cluster, and no weak reference in the list -/
def reset (r : Range) (words : Words) (head tail : Nat) : Engine where
  lstHeap := [(r.start, r.stop)]
  words := words
  m_weakReferences := []
  head := head
  tail := tail

/-- Recovery re-tiles the range, and `RecoverObjects` over it ends, however many rounds it is
    allowed beyond some bound, and touches nothing else. -/
def RecoversWell (r : Range) (words : Words) : Prop :=
  ∃ words', r.Prepares words words' ∧ r.Retiled words words' ∧ ∀ g_buildCRC head tail,
    ∃ bound, ∀ fuel ≥ bound, ∃ e',
      (r.reset words' head tail).recoverObjects g_buildCRC fuel = some e'

theorem recovering_start (words p : Words) (xs : List Nat) (head tail : Nat) :
    r.Recovering words p xs (r.reset p head tail) r.start :=
  ⟨rfl, fun _ hy => absurd hy List.not_mem_nil, fun _ => Or.inl rfl⟩

theorem recoversWell_of_fits (hc : r.Contained words) (hfit : r.TargetsFit words) :
    r.RecoversWell words := by
  obtain ⟨words', xs, hprepares, hp⟩ := prepares_of_contained hc
  refine ⟨words', hprepares, hp.retiled, fun g_buildCRC head tail =>
    ⟨xs.length + xs.length + 1, fun fuel hfuel => ?_⟩⟩
  obtain ⟨e', hrun, -⟩ := Recovering.recoverCluster_spec hp hfit g_buildCRC hp.tiles
    (List.Subset.refl xs) (recovering_start words words' xs head tail) hfuel
  refine ⟨e', ?_⟩
  rw [Engine.recoverObjects, show (r.reset words' head tail).lstHeap = [(r.start, r.stop)] from rfl,
    List.foldlM_cons, hrun]
  rfl

theorem fits_of_recoversWell (h : r.RecoversWell words) :
    r.Contained words ∧ r.TargetsMayFit words := by
  obtain ⟨words', hprepares, hretiled, hruns⟩ := h
  have hc := preparesWell_iff.mp ⟨words', hprepares, hretiled⟩
  obtain ⟨xs, hp⟩ := prepared_of_run hc hprepares fun i hi => hretiled.2 i (Or.inr hi)
  obtain ⟨bound, hruns⟩ := hruns 0 0 0
  obtain ⟨e', hrun⟩ := hruns (bound + (xs.length + xs.length + 1)) (Nat.le_add_right _ _)
  rw [Engine.recoverObjects, show (r.reset words' 0 0).lstHeap = [(r.start, r.stop)] from rfl,
    List.foldlM_cons] at hrun
  obtain ⟨e₁, hcluster, -⟩ := Option.bind_eq_some_iff.mp hrun
  have hmem {y : Nat} (hy : r.Reached words y) : y ∈ xs :=
    (hp.tiles.mem_iff_visits (Nat.le_refl _) hp.goes).mpr hy
  refine ⟨hc, fun x t hx hweak ht htarget => ?_⟩
  exact Recovering.fits_of_recoverCluster hp hp.tiles (List.Subset.refl xs)
    (recovering_start words words' xs 0 0) (by omega) hcluster x (hmem hx) hweak t (hmem ht) htarget

/-- **Recovery re-tiles arbitrary RAM** when the blocks that stay are contained in the range and
    the references claim no more than there is; and only then, up to what has become of a
    reference in front. -/
theorem recovery_retiles (r : Range) (words : Words) :
    (r.Contained words ∧ r.TargetsFit words → r.RecoversWell words) ∧
    (r.RecoversWell words → r.Contained words ∧ r.TargetsMayFit words) :=
  ⟨fun h => recoversWell_of_fits h.1 h.2, fits_of_recoversWell⟩

/-! ### A reference at the end of the range -/

/-- One heap block, with the header of a weak reference, and memory behind it that is not zero -/
def lastBlock : Range where
  start := 0
  stop := 3
  blockSize := 1
  blocks := ⟨1, rfl⟩
  blockSize_pos := Nat.one_pos
  blockSize_le := by decide
  room := by decide

/-- The content of `lastBlock` and of what is behind it -/
def cutReference : Words := fun i => if i = 0 then 24 + 4 * 2 ^ 16 else 1

/-- The reference stays although nine of its words lie behind the range. -/
theorem cut_reference_stays : ¬ lastBlock.RecoversWell cutReference := by
  intro h
  have hc := (fits_of_recoversWell h).1 0 (.here (by decide))
  exact absurd (hc.1 (by decide)) (by decide)

end Range

end TinyClr.Recovery
