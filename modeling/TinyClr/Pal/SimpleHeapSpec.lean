import Mathlib.Data.List.Chain
import TinyClr.Pal.SimpleHeapLayout

/-!
# What the operations of the simple heap keep

`Valid`: the layout, a signature in every header, the guards of the blocks in use, and no two free
blocks side by side.  Allocating takes a free block and leaves the blocks in use alone; releasing
makes a block free and joins it with its neighbours.
-/

namespace TinyClr.SimpleHeap

open TinyClr.Library

variable {m m' : Memory} {a e x y z : Nat} {xs front back : List Nat}

namespace Memory

def Free (m : Memory) (x : Nat) : Prop := m.signature x = c_Free

/-- A block in use, with both guards in place -/
structure Busy (m : Memory) (x : Nat) : Prop where
  signature : m.signature x = c_Busy
  length : sizeof_BlockHeader + 4 ≤ m.length x
  headGuard : m.headGuard x = c_Guard
  tailGuard : m.tailGuard x = c_Guard

def NotBothFree (m : Memory) (x y : Nat) : Prop := ¬ (m.Free x ∧ m.Free y)

structure Valid (m : Memory) (a e : Nat) (xs : List Nat) : Prop where
  layout : m.Layout a e xs
  status : ∀ x ∈ xs, m.Free x ∨ m.Busy x
  merged : xs.IsChain m.NotBothFree

theorem Busy.not_free (h : m.Busy x) : ¬ m.Free x := by
  intro hfree
  have hsame : c_Busy = c_Free := h.signature.symm.trans hfree
  exact absurd hsame (by decide)

theorem SameBlock.free_iff (h : SameBlock m m' x) : m'.Free x ↔ m.Free x := by
  rw [Free, Free, h.signature]

theorem Busy.of_same (h : m.Busy x) (hsame : SameBlock m m' x) : m'.Busy x := by
  have hlen : 20 + 4 ≤ m.length x := h.length
  refine ⟨hsame.signature.trans h.signature, ?_, hsame.headGuard.trans h.headGuard, ?_⟩
  · rw [hsame.length]
    exact h.length
  · rw [← h.tailGuard]
    unfold Memory.tailGuard
    rw [hsame.length]
    refine word32_congr fun i hi => hsame.payload _ ?_ (by omega)
    unfold sizeof_BlockHeader
    omega

theorem status_of_same (h : m.Free x ∨ m.Busy x) (hsame : SameBlock m m' x) :
    m'.Free x ∨ m'.Busy x :=
  h.imp hsame.free_iff.mpr fun hbusy => hbusy.of_same hsame

theorem chain_of_free (h : xs.IsChain m.NotBothFree) (hfree : ∀ x ∈ xs, m'.Free x → m.Free x) :
    xs.IsChain m'.NotBothFree :=
  h.imp_of_mem_imp fun x y hx hy hnot hboth => hnot ⟨hfree x hx hboth.1, hfree y hy hboth.2⟩

/-! ### The arena -/

theorem Layout.length_lt (h : m.Layout a e xs) (hne : xs ≠ []) : xs.length < e - a := by
  have hle : a + xs.length * 20 ≤ e := h.tiles.length_mul_le h.header
  have hpos := List.length_pos_of_ne_nil hne
  omega

theorem initializeHeap_valid (m : Memory) (arena : Arena) :
    (m.initializeHeap arena.buffer arena.length).Valid arena.buffer (arena.buffer + arena.length)
      [arena.buffer] := by
  have hend := arena.end_le
  have hpos := arena.buffer_pos
  have hlt : arena.length < 2 ^ 32 := by omega
  generalize arena.buffer = b at *
  have hlength : (m.initializeHeap b arena.length).length b = arena.length := by
    simp (disch := omega) only [initializeHeap, length, setNext, setPrev, setLength, setSignature,
      setHeadGuard, word32_bytes32_of_disjoint, word32_memcpy, Nat.mod_eq_of_lt]
  have hheader : 0 < arena.length := lt_of_lt_of_le (by decide) arena.header_le
  refine ⟨⟨hpos, hend, ?_, ⟨?_, ?_, trivial⟩, ?_⟩, ?_, List.isChain_singleton b⟩
  · exact Tiles.single_iff.mpr ⟨rfl, by rwa [hlength], by rw [hlength]⟩
  · simp (disch := omega) only [initializeHeap, prev, setNext, setPrev, setLength, setSignature,
      setHeadGuard, word32_bytes32_of_disjoint, word32_memcpy, Nat.zero_mod]
  · simp (disch := omega) only [initializeHeap, next, setNext, setPrev, setLength, setSignature,
      setHeadGuard, word32_bytes32_of_disjoint, word32_memcpy, Nat.zero_mod, List.headD_nil]
  · intro x hx
    rw [List.mem_singleton.mp hx, hlength]
    exact arena.header_le
  · intro x hx
    rw [List.mem_singleton.mp hx, Free]
    left
    simp (disch := omega) only [initializeHeap, signature, setNext, setPrev, setLength,
      setSignature, setHeadGuard, word32_bytes32_of_disjoint, word32_memcpy]
    rfl

/-! ### `SimpleHeap_Allocate` -/

def Fits (m : Memory) (len x : Nat) : Prop := m.Free x ∧ len ≤ m.length x

instance (m : Memory) (len x : Nat) : Decidable (m.Fits len x) :=
  inferInstanceAs (Decidable (m.signature x = c_Free ∧ len ≤ m.length x))

theorem findFree_eq (len : Nat) : ∀ {xs : List Nat} {p fuel : Nat}, Linked m.next m.prev p xs 0 →
    (∀ x ∈ xs, x ≠ 0) → xs.length < fuel →
    m.findFree len fuel (xs.headD 0) = some ((xs.find? fun x => m.Fits len x).getD 0) := by
  intro xs
  induction xs with
  | nil =>
    intro p fuel _ _ hfuel
    obtain ⟨fuel, rfl⟩ := Nat.exists_eq_succ_of_ne_zero (Nat.ne_of_gt hfuel)
    rfl
  | cons x xs ih =>
    intro p fuel hlinked hne hfuel
    obtain ⟨fuel, rfl⟩ := Nat.exists_eq_succ_of_ne_zero (Nat.ne_of_gt (Nat.zero_lt_of_lt hfuel))
    obtain ⟨-, hnext, hrest⟩ := hlinked
    have hx : x ≠ 0 := hne x List.mem_cons_self
    rw [List.headD_cons, findFree, if_neg hx]
    by_cases hfits : m.Fits len x
    · rw [List.find?_cons, decide_eq_true hfits]
      exact if_pos hfits
    · rw [List.find?_cons, decide_eq_false hfits, hnext]
      refine (if_neg hfits).trans ?_
      exact ih hrest (fun y hy => hne y (List.mem_cons_of_mem x hy)) (Nat.lt_of_succ_lt_succ hfuel)

/-- The marks of a block in use change nothing outside the block and not its length. -/
theorem markBusy_spec (hlen : sizeof_BlockHeader + 4 ≤ m.length x) :
    Within m (m.markBusy x) x ∧ (m.markBusy x).signature x = c_Busy ∧
    (m.markBusy x).headGuard x = c_Guard ∧
    word32 (m.markBusy x) (x + m.length x - 4) = c_Guard := by
  have h24 : 24 ≤ word32 m (x + 8) := hlen
  have hbusy : c_Busy % 2 ^ 32 = c_Busy := by decide
  have hguard : c_Guard % 2 ^ 32 = c_Guard := by decide
  have heq : m.markBusy x =
      memcpy ((m.setSignature x c_Busy).setHeadGuard x c_Guard) (x + m.length x - 4)
        (bytes32 c_Guard) := by
    have hkeep : ((m.setSignature x c_Busy).setHeadGuard x c_Guard).length x = m.length x := by
      simp (disch := omega) only [length, setSignature, setHeadGuard, word32_bytes32_of_disjoint]
    unfold markBusy setTailGuard
    dsimp only
    rw [hkeep]
  rw [heq]
  refine ⟨fun i hi => ?_, ?_, ?_, ?_⟩
  · have hi' : i < x + 12 ∨ x + word32 m (x + 8) ≤ i := hi
    simp (disch := omega) only [length, setSignature, setHeadGuard, memcpy_bytes32_of_disjoint]
  · simp (disch := omega) only [signature, length, setSignature, setHeadGuard,
      word32_bytes32_of_disjoint, word32_memcpy, hbusy]
  · simp (disch := omega) only [headGuard, length, setSignature, setHeadGuard,
      word32_bytes32_of_disjoint, word32_memcpy, hguard]
  · simp only [word32_memcpy, hguard]

theorem markBusy_valid (h : m.Layout a e (front ++ x :: back))
    (hlen : sizeof_BlockHeader + 4 ≤ m.length x)
    (hstatus : ∀ z ∈ front ++ back, m.Free z ∨ m.Busy z) (hfront : front.IsChain m.NotBothFree)
    (hback : back.IsChain m.NotBothFree) :
    (m.markBusy x).Valid a e (front ++ x :: back) ∧ (m.markBusy x).Busy x ∧
    (m.markBusy x).length x = m.length x ∧ ∀ z ∈ front ++ back, SameBlock m (m.markBusy x) z := by
  have hx : x ∈ front ++ x :: back := by simp
  obtain ⟨hwithin, hsignature, hhead, htail⟩ := markBusy_spec hlen
  obtain ⟨hlayout, hlength, hsame⟩ := h.within hx hwithin
  have hother : ∀ z ∈ front ++ back, SameBlock m (m.markBusy x) z :=
    fun z hz => hsame z (h.ne_of_mem hz).1 (h.ne_of_mem hz).2
  have hbusy : (m.markBusy x).Busy x := by
    refine ⟨hsignature, by rwa [hlength], hhead, ?_⟩
    unfold Memory.tailGuard
    rw [hlength]
    exact htail
  refine ⟨⟨hlayout, fun z hz => ?_, ?_⟩, hbusy, hlength, hother⟩
  · rw [List.mem_append, List.mem_cons] at hz
    rcases hz with hz | rfl | hz
    · exact status_of_same (hstatus z (List.mem_append_left _ hz))
        (hother z (List.mem_append_left _ hz))
    · exact Or.inr hbusy
    · exact status_of_same (hstatus z (List.mem_append_right _ hz))
        (hother z (List.mem_append_right _ hz))
  · refine List.isChain_append.mpr ⟨?_, List.isChain_cons.mpr ⟨?_, ?_⟩, ?_⟩
    · exact chain_of_free hfront
        fun z hz => (hother z (List.mem_append_left _ hz)).free_iff.mp
    · exact fun _ _ hboth => hbusy.not_free hboth.1
    · exact chain_of_free hback
        fun z hz => (hother z (List.mem_append_right _ hz)).free_iff.mp
    · rintro _ _ _ ⟨⟩ hboth
      exact hbusy.not_free hboth.2

theorem carve_valid {len : Nat} (h : m.Valid a e (front ++ x :: back)) (hfits : m.Fits len x)
    (hlen : sizeof_BlockHeader + 4 ≤ len) (hwrap : len + sizeof_BlockHeader * 2 < 2 ^ 32) :
    ∃ p xs', (m.carve x len).1 = p ∧ p ∈ xs' ∧ ((m.carve x len).2.markBusy p).Valid a e xs' ∧
      ((m.carve x len).2.markBusy p).Busy p ∧ len ≤ ((m.carve x len).2.markBusy p).length p ∧
      ∀ z ∈ front ++ back,
        z ≠ p ∧ z ∈ xs' ∧ SameBlock m ((m.carve x len).2.markBusy p) z := by
  obtain ⟨hfree, hlong⟩ := hfits
  have hcopy : uint32 ((len : Int) + sizeof_BlockHeader * 2) = len + sizeof_BlockHeader * 2 := by
    have : len + 20 * 2 < 2 ^ 32 := hwrap
    rw [uint32_eq_toNat (by unfold sizeof_BlockHeader; omega) (by unfold sizeof_BlockHeader; omega)]
    unfold sizeof_BlockHeader
    omega
  have hstatus : ∀ z ∈ front ++ back, m.Free z ∨ m.Busy z :=
    fun z hz => h.status z (h.layout.ne_of_mem hz).1
  obtain ⟨hfront, hrest, -⟩ := List.isChain_append.mp h.merged
  obtain ⟨-, hback⟩ := List.isChain_cons.mp hrest
  by_cases hperfect : m.length x ≤ len + sizeof_BlockHeader * 2
  · have hcarve : m.carve x len = (x, m) := by rw [carve, hcopy, if_pos hperfect]
    obtain ⟨hvalid, hbusy, hlength, hsame⟩ :=
      markBusy_valid h.layout (le_trans hlen hlong) hstatus hfront hback
    rw [hcarve]
    refine ⟨x, front ++ x :: back, rfl, by simp, hvalid, hbusy, by rw [hlength]; exact hlong,
      fun z hz => ⟨(h.layout.ne_of_mem hz).2, (h.layout.ne_of_mem hz).1, hsame z hz⟩⟩
  · have hcarve : m.carve x len = m.split x len := by rw [carve, hcopy, if_neg hperfect]
    have hroom : len + sizeof_BlockHeader ≤ m.length x := by
      unfold sizeof_BlockHeader at hperfect ⊢
      omega
    obtain ⟨hp, hlayout, hlength, hsignature, hsame⟩ :=
      h.layout.split rfl (le_trans (Nat.le_add_right _ 4) hlen) hroom
    rw [hcarve, hp]
    generalize x + m.length x - len = p at hlayout hlength
    generalize (m.split x len).2 = m₁ at hlayout hlength hsignature hsame
    have hlist : front ++ x :: p :: back = (front ++ [x]) ++ p :: back := by simp
    have hx : m₁.Free x := hsignature.trans hfree
    have hstatus₁ : ∀ z ∈ (front ++ [x]) ++ back, m₁.Free z ∨ m₁.Busy z := by
      intro z hz
      rw [List.mem_append, List.mem_append, List.mem_singleton] at hz
      rcases hz with (hz | rfl) | hz
      · exact status_of_same (hstatus z (List.mem_append_left _ hz))
          (hsame z (List.mem_append_left _ hz))
      · exact Or.inl hx
      · exact status_of_same (hstatus z (List.mem_append_right _ hz))
          (hsame z (List.mem_append_right _ hz))
    have hfront₁ : (front ++ [x]).IsChain m₁.NotBothFree := by
      have hfrontx : (front ++ [x]).IsChain m.NotBothFree := by
        have hmerged := h.merged
        rw [List.append_cons] at hmerged
        exact hmerged.left_of_append
      refine chain_of_free hfrontx fun z hz hz' => ?_
      rw [List.mem_append, List.mem_singleton] at hz
      rcases hz with hz | rfl
      · exact (hsame z (List.mem_append_left _ hz)).free_iff.mp hz'
      · exact hfree
    have hback₁ : back.IsChain m₁.NotBothFree :=
      chain_of_free hback fun z hz => (hsame z (List.mem_append_right _ hz)).free_iff.mp
    rw [hlist] at hlayout
    obtain ⟨hvalid, hbusy, hlength₂, hsame₂⟩ :=
      markBusy_valid hlayout (by rw [hlength]; exact hlen) hstatus₁ hfront₁ hback₁
    refine ⟨p, _, rfl, by simp, hvalid, hbusy, by rw [hlength₂, hlength], fun z hz => ?_⟩
    have hz' : z ∈ (front ++ [x]) ++ back := by
      rw [List.mem_append, List.mem_append]
      exact (List.mem_append.mp hz).imp_left Or.inl
    exact ⟨(hlayout.ne_of_mem hz').2, (hlayout.ne_of_mem hz').1,
      (hsame z hz).trans (hsame₂ z hz')⟩

theorem Layout.headD_eq (h : m.Layout a e xs) (hne : xs ≠ []) : xs.headD 0 = a := by
  have htiles := h.tiles
  cases xs with
  | nil => exact absurd rfl hne
  | cons x xs => exact (Tiles.cons_iff.mp htiles).1

/-- **Allocating.** -/
theorem allocate_spec (h : m.Valid a e xs) (hne : xs ≠ []) {fuel len : Nat}
    (hfuel : xs.length < fuel)
    (hwrap : sizeof_BlockHeader + 4 ≤ request len ∧ request len + sizeof_BlockHeader * 2 < 2 ^ 32 ∨
      ∀ x ∈ xs, ¬ m.Fits (request len) x) :
    ((∀ x ∈ xs, ¬ m.Fits (request len) x) ∧ m.allocate fuel a len = some (0, m)) ∨
    (∃ x ∈ xs, m.Fits (request len) x) ∧ ∃ p m' xs', p ∈ xs' ∧
      m.allocate fuel a len = some (p + sizeof_BlockHeader, m') ∧ m'.Valid a e xs' ∧ m'.Busy p ∧
      request len ≤ m'.length p ∧ ∀ z ∈ xs, m.Busy z → z ≠ p ∧ z ∈ xs' ∧ SameBlock m m' z := by
  have hpos : ∀ x ∈ xs, x ≠ 0 := fun x hx => Nat.ne_of_gt (h.layout.bounds hx).1
  have hfind := findFree_eq (request len) h.layout.linked hpos hfuel
  rw [h.layout.headD_eq hne] at hfind
  unfold allocate
  dsimp only
  rw [hfind]
  rcases hfound : xs.find? (fun x => m.Fits (request len) x) with _ | x
  · left
    exact ⟨fun x hx => by simpa using List.find?_eq_none.mp hfound x hx, rfl⟩
  · right
    obtain ⟨hfits, front, back, rfl, -⟩ := List.find?_eq_some_iff_append.mp hfound
    have hfits' : m.Fits (request len) x := of_decide_eq_true hfits
    have hx : x ∈ front ++ x :: back := by simp
    obtain ⟨hlen, hnowrap⟩ := hwrap.resolve_right fun hnone => hnone x hx hfits'
    obtain ⟨p, xs', hp, hmem, hvalid, hbusy, hlong, hsame⟩ :=
      carve_valid h hfits' hlen hnowrap
    refine ⟨⟨x, hx, hfits'⟩, p, _, xs', hmem, ?_, hvalid, hbusy, hlong, fun z hz hzbusy => ?_⟩
    · obtain ⟨x, rfl⟩ := Nat.exists_eq_succ_of_ne_zero (hpos x hx)
      rw [← hp]
      rfl
    · refine hsame z ?_
      rw [List.mem_append] at hz ⊢
      refine hz.imp_right fun hz => (List.mem_cons.mp hz).resolve_left fun heq => ?_
      exact hzbusy.not_free (heq ▸ hfits'.1)

/-! ### Payloads -/

theorem Valid.payload (h : m.Valid a e xs) (hx : x ∈ xs) (hbusy : m.Busy x)
    (hkeep : ∀ i, i < x + sizeof_BlockHeader ∨ x + m.length x ≤ i + 4 → m' i = m i) :
    m'.Valid a e xs ∧ m'.Busy x ∧ m'.length x = m.length x ∧
      ∀ z ∈ xs, z ≠ x → SameBlock m m' z := by
  have hlen : 20 + 4 ≤ m.length x := hbusy.length
  have hkeep' : ∀ i, i < x + 20 ∨ x + m.length x ≤ i + 4 → m' i = m i := hkeep
  obtain ⟨hlayout, hlength, hsame⟩ := h.layout.within hx fun i hi => hkeep' i (by omega)
  have hbusy' : m'.Busy x := by
    refine ⟨?_, by rw [hlength]; exact hbusy.length, ?_, ?_⟩
    · rw [← hbusy.signature]
      exact word_eq 12 fun i hi => hkeep' _ (by omega)
    · rw [← hbusy.headGuard]
      exact word_eq 16 fun i hi => hkeep' _ (by omega)
    · rw [← hbusy.tailGuard]
      unfold Memory.tailGuard
      rw [hlength]
      exact word32_congr fun i hi => hkeep' _ (by omega)
  refine ⟨⟨hlayout, fun z hz => ?_, ?_⟩, hbusy', hlength, hsame⟩
  · by_cases hne : z = x
    · exact Or.inr (hne ▸ hbusy')
    · exact status_of_same (h.status z hz) (hsame z hz hne)
  · refine chain_of_free h.merged fun z hz hfree => ?_
    by_cases hne : z = x
    · exact absurd (hne ▸ hfree) hbusy'.not_free
    · exact (hsame z hz hne).free_iff.mp hfree

/-! ### `SimpleHeap_Release` -/

theorem merge_next (h : m.Layout a e (front ++ x :: back)) (hfree : m.Free x)
    (hback : back.IsChain m.NotBothFree)
    (hm' : m' = if m.next x ≠ 0 ∧ m.signature (m.next x) = c_Free then m.absorb x (m.next x)
      else m) :
    ∃ back', m'.Layout a e (front ++ x :: back') ∧ m'.Free x ∧ back' <:+ back ∧
      (∀ z ∈ front ++ back', SameBlock m m' z) ∧ (∀ z ∈ back, m.Busy z → z ∈ back') ∧
      ∀ z ∈ back'.head?, ¬ m.Free z := by
  obtain ⟨-, -, hnext, -⟩ := Linked.append_iff.mp h.linked
  rw [hnext] at hm'
  cases back with
  | nil =>
    rw [if_neg (by simp)] at hm'
    exact ⟨[], hm' ▸ h, hm' ▸ hfree, List.suffix_rfl, fun z _ => hm' ▸ SameBlock.refl m z,
      fun z hz => absurd hz List.not_mem_nil, fun z hz => absurd hz (by simp)⟩
  | cons y back =>
    have hy : y ≠ 0 := Nat.ne_of_gt (h.bounds (by simp)).1
    rw [List.headD_cons] at hm'
    by_cases hyfree : m.Free y
    · rw [if_pos ⟨hy, hyfree⟩] at hm'
      obtain ⟨hlayout, hsignature, hsame⟩ := h.absorb
      rw [← hm'] at hlayout hsignature hsame
      refine ⟨back, hlayout, hsignature.trans hfree, List.suffix_cons y back, hsame, ?_, ?_⟩
      · intro z hz hbusy
        exact (List.mem_cons.mp hz).resolve_left fun heq => hbusy.not_free (heq ▸ hyfree)
      · exact fun z hz hzfree => (List.isChain_cons.mp hback).1 z hz ⟨hyfree, hzfree⟩
    · rw [if_neg fun hboth => hyfree hboth.2] at hm'
      refine ⟨y :: back, hm' ▸ h, hm' ▸ hfree, List.suffix_rfl,
        fun z _ => hm' ▸ SameBlock.refl m z, fun z hz _ => hz, ?_⟩
      rintro _ ⟨⟩
      exact hyfree

theorem merge_prev (h : m.Layout a e (front ++ x :: back)) (hfree : m.Free x)
    (hfront : front.IsChain m.NotBothFree)
    (hm' : m' = if m.prev x ≠ 0 ∧ m.signature (m.prev x) = c_Free then m.absorb (m.prev x) x
      else m) :
    ∃ front' w, m'.Layout a e (front' ++ w :: back) ∧ m'.Free w ∧ front' <+: front ∧
      (∀ z ∈ front' ++ back, SameBlock m m' z) ∧ (∀ z ∈ front, m.Busy z → z ∈ front') ∧
      ∀ z ∈ front'.getLast?, ¬ m.Free z := by
  obtain ⟨-, hprev, -⟩ := Linked.append_iff.mp h.linked
  rw [hprev] at hm'
  rcases List.eq_nil_or_concat front with rfl | ⟨front, w, rfl⟩
  · rw [if_neg (by simp)] at hm'
    exact ⟨[], x, hm' ▸ h, hm' ▸ hfree, List.prefix_rfl, fun z _ => hm' ▸ SameBlock.refl m z,
      fun z hz => absurd hz List.not_mem_nil, fun z hz => absurd hz (by simp)⟩
  · have hw : w ≠ 0 := Nat.ne_of_gt (h.bounds (by simp)).1
    rw [List.concat_eq_append, List.getLastD_concat] at hm'
    by_cases hwfree : m.Free w
    · rw [if_pos ⟨hw, hwfree⟩] at hm'
      have h' : m.Layout a e (front ++ w :: x :: back) := by simpa using h
      obtain ⟨hlayout, hsignature, hsame⟩ := h'.absorb
      rw [← hm'] at hlayout hsignature hsame
      refine ⟨front, w, hlayout, hsignature.trans hwfree, by simp, hsame, ?_, ?_⟩
      · intro z hz hbusy
        rw [List.concat_eq_append, List.mem_append, List.mem_singleton] at hz
        exact hz.resolve_right fun heq => hbusy.not_free (heq ▸ hwfree)
      · rw [List.concat_eq_append] at hfront
        exact fun z hz hzfree => (List.isChain_append.mp hfront).2.2 z hz w rfl ⟨hzfree, hwfree⟩
    · rw [if_neg fun hboth => hwfree hboth.2] at hm'
      refine ⟨front.concat w, x, hm' ▸ h, hm' ▸ hfree, List.prefix_rfl,
        fun z _ => hm' ▸ SameBlock.refl m z, fun z hz _ => hz, fun z hz => ?_⟩
      rw [List.concat_eq_append, List.getLast?_concat, Option.mem_some_iff] at hz
      exact hz ▸ hwfree

theorem merge_valid (h : m.Layout a e (front ++ x :: back)) (hfree : m.Free x)
    (hstatus : ∀ z ∈ front ++ back, m.Free z ∨ m.Busy z) (hfront : front.IsChain m.NotBothFree)
    (hback : back.IsChain m.NotBothFree) :
    ∃ xs', (m.merge x).Valid a e xs' ∧
      ∀ z ∈ front ++ back, m.Busy z → z ∈ xs' ∧ SameBlock m (m.merge x) z := by
  obtain ⟨back', hlayout₁, hfree₁, hsuffix, hsame₁, hkept₁, hhead⟩ :=
    merge_next h hfree hback rfl
  unfold merge
  dsimp only
  generalize (if m.next x ≠ 0 ∧ m.signature (m.next x) = c_Free then m.absorb x (m.next x)
    else m) = m₁ at hlayout₁ hfree₁ hsame₁ ⊢
  have hfront₁ : front.IsChain m₁.NotBothFree :=
    chain_of_free hfront fun z hz => (hsame₁ z (List.mem_append_left _ hz)).free_iff.mp
  obtain ⟨front', w, hlayout₂, hfree₂, hprefix, hsame₂, hkept₂, hlast⟩ :=
    merge_prev hlayout₁ hfree₁ hfront₁ rfl
  generalize (if m₁.prev x ≠ 0 ∧ m₁.signature (m₁.prev x) = c_Free then m₁.absorb (m₁.prev x) x
    else m₁) = m₂ at hlayout₂ hfree₂ hsame₂ ⊢
  have hsame : ∀ z ∈ front' ++ back', SameBlock m m₂ z := by
    intro z hz
    refine (hsame₁ z ?_).trans (hsame₂ z hz)
    rw [List.mem_append] at hz ⊢
    exact hz.imp_left fun hz => hprefix.subset hz
  have hsub : ∀ z ∈ front' ++ back', z ∈ front ++ back := by
    intro z hz
    rw [List.mem_append] at hz ⊢
    exact hz.imp (fun hz => hprefix.subset hz) fun hz => hsuffix.subset hz
  refine ⟨front' ++ w :: back', ⟨hlayout₂, fun z hz => ?_, ?_⟩, fun z hz hbusy => ?_⟩
  · rw [List.mem_append, List.mem_cons] at hz
    rcases hz with hz | rfl | hz
    · have hz' := List.mem_append_left back' hz
      exact status_of_same (hstatus z (hsub z hz')) (hsame z hz')
    · exact Or.inl hfree₂
    · have hz' := List.mem_append_right front' hz
      exact status_of_same (hstatus z (hsub z hz')) (hsame z hz')
  · -- neither neighbour of the joined block is free
    refine List.isChain_append.mpr ⟨?_, List.isChain_cons.mpr ⟨?_, ?_⟩, ?_⟩
    · have hfront' : front'.IsChain m.NotBothFree := by
        obtain ⟨t, rfl⟩ := hprefix
        exact hfront.left_of_append
      exact chain_of_free hfront' fun z hz => (hsame z (List.mem_append_left _ hz)).free_iff.mp
    · intro z hz hboth
      have hmem := List.mem_append_right front' (List.mem_of_mem_head? hz)
      exact hhead z hz ((hsame z hmem).free_iff.mp hboth.2)
    · have hback₂ : back'.IsChain m.NotBothFree := by
        obtain ⟨t, rfl⟩ := hsuffix
        exact hback.right_of_append
      exact chain_of_free hback₂ fun z hz => (hsame z (List.mem_append_right _ hz)).free_iff.mp
    · rintro z hz _ ⟨⟩ hboth
      have hmem := List.mem_append_left back' (List.mem_of_mem_getLast? hz)
      exact hlast z hz ((hsame₂ z hmem).free_iff.mp hboth.1)
  · have hmem : z ∈ front' ++ back' := by
      rcases List.mem_append.mp hz with hz | hz
      · have hbusy₁ := hbusy.of_same (hsame₁ z (List.mem_append_left _ hz))
        exact List.mem_append_left _ (hkept₂ z hz hbusy₁)
      · exact List.mem_append_right _ (hkept₁ z hz hbusy)
    refine ⟨?_, hsame z hmem⟩
    rw [List.mem_append, List.mem_cons]
    exact (List.mem_append.mp hmem).imp_right Or.inr

/-- **Releasing** -/
theorem release_spec (h : m.Valid a e xs) (hx : x ∈ xs) (hbusy : m.Busy x) :
    ∃ m' xs', m.release (x + sizeof_BlockHeader) = some m' ∧ m'.Valid a e xs' ∧
      ∀ z ∈ xs, m.Busy z → z ≠ x → z ∈ xs' ∧ SameBlock m m' z := by
  obtain ⟨front, back, rfl⟩ := List.append_of_mem hx
  have hlen : 20 + 4 ≤ m.length x := hbusy.length
  have hwithin : Within m (m.setSignature x c_Free) x := by
    intro i hi
    exact memcpy_bytes32_of_disjoint (by omega)
  obtain ⟨hlayout, -, hsame⟩ := h.layout.within hx hwithin
  have hother : ∀ z ∈ front ++ back, SameBlock m (m.setSignature x c_Free) z :=
    fun z hz => hsame z (h.layout.ne_of_mem hz).1 (h.layout.ne_of_mem hz).2
  have hfree : (m.setSignature x c_Free).Free x := word32_memcpy c_Free
  obtain ⟨hfront, hrest, -⟩ := List.isChain_append.mp h.merged
  obtain ⟨-, hback⟩ := List.isChain_cons.mp hrest
  obtain ⟨xs', hvalid, hkept⟩ := merge_valid hlayout hfree
    (fun z hz => status_of_same (h.status z (h.layout.ne_of_mem hz).1) (hother z hz))
    (chain_of_free hfront fun z hz => (hother z (List.mem_append_left _ hz)).free_iff.mp)
    (chain_of_free hback fun z hz => (hother z (List.mem_append_right _ hz)).free_iff.mp)
  refine ⟨_, xs', ?_, hvalid, fun z hz hzbusy hne => ?_⟩
  · have hpos : x + sizeof_BlockHeader ≠ 0 := Nat.ne_of_gt (Nat.add_pos_right x (by decide))
    rw [release, if_neg hpos]
    dsimp only
    rw [Nat.add_sub_cancel, if_neg (not_not.mpr hbusy.headGuard),
      if_neg (not_not.mpr hbusy.tailGuard)]
  · have hz' : z ∈ front ++ back := by
      rw [List.mem_append] at hz ⊢
      exact hz.imp_right fun hz => (List.mem_cons.mp hz).resolve_left hne
    obtain ⟨hmem, hsame'⟩ := hkept z hz' (hzbusy.of_same (hother z hz'))
    exact ⟨hmem, (hother z hz').trans hsame'⟩

end Memory

end TinyClr.SimpleHeap
