import Mathlib.Data.List.Pairwise
import TinyClr.Library.LinkedNodes
import TinyClr.Library.Tiling
import TinyClr.Pal.SimpleHeap

/-!
# The blocks of the simple heap

The headers in memory form a doubly linked list that tiles the arena (`Layout`).  Writes behind the
length field of a block, splitting a block and joining two of them keep the layout and leave every
other block as it was (`SameBlock`).
-/

namespace TinyClr.SimpleHeap

open TinyClr.Library

variable {m m' : Memory} {a e x y z : Nat} {xs front back : List Nat}

namespace Memory

/-- The blocks `xs` lie side by side from `a` to `e` and are linked in this order. -/
structure Layout (m : Memory) (a e : Nat) (xs : List Nat) : Prop where
  pos : 0 < a
  end_le : e ≤ 2 ^ 32
  tiles : Tiles m.length a xs e
  linked : Linked m.next m.prev 0 xs 0
  header : ∀ x ∈ xs, sizeof_BlockHeader ≤ m.length x

structure SameBlock (m m' : Memory) (x : Nat) : Prop where
  length : m'.length x = m.length x
  signature : m'.signature x = m.signature x
  headGuard : m'.headGuard x = m.headGuard x
  payload : ∀ i, x + sizeof_BlockHeader ≤ i → i < x + m.length x → m' i = m i

theorem SameBlock.refl (m : Memory) (x : Nat) : SameBlock m m x := ⟨rfl, rfl, rfl, fun _ _ _ => rfl⟩

theorem SameBlock.trans {m'' : Memory} (h : SameBlock m m' x) (h' : SameBlock m' m'' x) :
    SameBlock m m'' x :=
  ⟨h'.length.trans h.length, h'.signature.trans h.signature, h'.headGuard.trans h.headGuard,
    fun i hlow hhigh => (h'.payload i hlow (by rwa [h.length])).trans (h.payload i hlow hhigh)⟩

/-- Nothing but the part of a block behind its length field is changed. -/
def Within (m m' : Memory) (x : Nat) : Prop :=
  ∀ i, i < x + 12 ∨ x + m.length x ≤ i → m' i = m i

/-! ### The layout -/

namespace Layout

theorem bounds (h : Layout m a e xs) (hx : x ∈ xs) :
    0 < x ∧ 20 ≤ m.length x ∧ x + m.length x ≤ e ∧ e ≤ 2 ^ 32 := by
  have hmem := h.tiles.mem hx
  have hpos := h.pos
  have hheader : 20 ≤ m.length x := h.header x hx
  exact ⟨by omega, hheader, hmem.2.2, h.end_le⟩

theorem nodup (h : Layout m a e xs) : xs.Nodup := h.tiles.sorted.imp fun hlt => Nat.ne_of_lt hlt

theorem apart (h : Layout m a e xs) (hx : x ∈ xs) (hy : y ∈ xs) (hne : x ≠ y) :
    x + m.length x ≤ y ∨ y + m.length y ≤ x := by
  let R : Nat → Nat → Prop := fun x y => x + m.length x ≤ y ∨ y + m.length y ≤ x
  have : Std.Symm R := ⟨fun _ _ => Or.symm⟩
  exact (h.tiles.pairwise.imp Or.inl : xs.Pairwise R).forall hx hy hne

theorem of_fields (h : Layout m a e xs) (hlength : ∀ x ∈ xs, m'.length x = m.length x)
    (hnext : ∀ x ∈ xs, m'.next x = m.next x) (hprev : ∀ x ∈ xs, m'.prev x = m.prev x) :
    Layout m' a e xs where
  pos := h.pos
  end_le := h.end_le
  tiles := h.tiles.congr hlength
  linked := h.linked.congr hnext hprev
  header := fun x hx => by
    rw [hlength x hx]
    exact h.header x hx

end Layout

/-! ### Bytes and fields -/

section Fields

variable (h : ∀ i, x + 8 ≤ i → i < x + m.length x → m' i = m i)

theorem word_eq (k : Nat) (h : ∀ i < 4, m' (x + k + i) = m (x + k + i)) :
    word32 m' (x + k) = word32 m (x + k) := word32_congr h

include h in
theorem SameBlock.of_bytes (hheader : sizeof_BlockHeader ≤ m.length x) : SameBlock m m' x := by
  have h20 : 20 ≤ m.length x := hheader
  have hword : ∀ k, 8 ≤ k → k ≤ 16 → word32 m' (x + k) = word32 m (x + k) :=
    fun k hlow hhigh => word_eq k fun i hi => h _ (by omega) (by omega)
  exact ⟨hword 8 (by decide) (by decide), hword 12 (by decide) (by decide),
    hword 16 (by decide) (by decide), fun i hlow hhigh => h i
      (le_trans (Nat.add_le_add_left (by decide) x) hlow) hhigh⟩

end Fields

theorem block_clear {P : Prop} (hheader : sizeof_BlockHeader ≤ m.length x)
    (hclear : ∀ i, x ≤ i → i < x + m.length x → (P → i < x + 4 ∨ x + 8 ≤ i) → m' i = m i) :
    SameBlock m m' x ∧ m'.next x = m.next x ∧ (¬ P → m'.prev x = m.prev x) := by
  have h20 : 20 ≤ m.length x := hheader
  refine ⟨SameBlock.of_bytes (fun i hlow hhigh => hclear i (by omega) hhigh fun _ => Or.inr hlow)
    hheader, ?_, fun hP => ?_⟩
  · exact word_eq 0 fun i hi => hclear _ (by omega) (by omega) fun _ => Or.inl (by omega)
  · exact word_eq 4 fun i hi => hclear _ (by omega) (by omega) fun h => absurd h hP

theorem Layout.within (h : Layout m a e xs) (hx : x ∈ xs) (hw : Within m m' x) :
    Layout m' a e xs ∧ m'.length x = m.length x ∧ ∀ z ∈ xs, z ≠ x → SameBlock m m' z := by
  obtain ⟨-, hxlen, -, -⟩ := h.bounds hx
  have hword : ∀ z ∈ xs, ∀ k ≤ 8, word32 m' (z + k) = word32 m (z + k) := by
    intro z hz k hk
    refine word_eq k fun i hi => hw _ ?_
    by_cases hne : z = x
    · omega
    · obtain ⟨-, hzlen, -, -⟩ := h.bounds hz
      have hapart := h.apart hz hx hne
      omega
  refine ⟨h.of_fields (fun z hz => hword z hz 8 le_rfl) (fun z hz => hword z hz 0 (by decide))
    (fun z hz => hword z hz 4 (by decide)), hword x hx 8 le_rfl, fun z hz hne => ?_⟩
  refine SameBlock.of_bytes (fun i hlow hhigh => hw i ?_) (h.header z hz)
  have hapart := h.apart hz hx hne
  omega

/-! ### Splitting -/

section Split

variable {len nx p : Nat} (hnx : m.next x = nx) (hp : p = x + m.length x - len)
  (hlen : sizeof_BlockHeader ≤ len) (hrest : len + sizeof_BlockHeader ≤ m.length x)
  (hend : x + m.length x ≤ 2 ^ 32)
  (hapart : nx ≠ 0 → nx + sizeof_BlockHeader ≤ x ∨ x + m.length x ≤ nx)

include hnx hp hlen hrest hend hapart

theorem split_eq : ∃ m₁ : Memory,
    m₁ = (if nx ≠ 0 then (((m.setNext p nx).setPrev p x).setNext x p).setPrev nx p
      else ((m.setNext p nx).setPrev p x).setNext x p) ∧
    m.split x len = (p, (m₁.setLength p len).setLength x (m.length x - len)) := by
  have h20 : 20 ≤ len := hlen
  have hrest' : len + 20 ≤ m.length x := hrest
  have hkeep : nx ≠ 0 → nx + 20 ≤ x ∨ x + m.length x ≤ nx := hapart
  refine ⟨_, rfl, ?_⟩
  have hlength : ((if nx ≠ 0 then (((m.setNext p nx).setPrev p x).setNext x p).setPrev nx p
      else ((m.setNext p nx).setPrev p x).setNext x p).setLength p len).length x = m.length x := by
    split
    · rename_i hne
      have hsides := hkeep hne
      simp (disch := omega) only [length, setNext, setPrev, setLength, word32_bytes32_of_disjoint]
    · simp (disch := omega) only [length, setNext, setPrev, setLength, word32_bytes32_of_disjoint]
  have hwrap : uint32 ((m.length x : Int) - len) = m.length x - len := by
    rw [uint32_eq_toNat (by omega) (by omega)]
    omega
  unfold split
  dsimp only
  rw [← hp, hnx, hlength, hwrap]

theorem split_values :
    (m.split x len).2.next x = p ∧ (m.split x len).2.length x = m.length x - len ∧
    (m.split x len).2.next p = nx ∧ (m.split x len).2.prev p = x ∧
    (m.split x len).2.length p = len ∧ (nx ≠ 0 → (m.split x len).2.prev nx = p) := by
  have h20 : 20 ≤ len := hlen
  have hrest' : len + 20 ≤ m.length x := hrest
  have hkeep : nx ≠ 0 → nx + 20 ≤ x ∨ x + m.length x ≤ nx := hapart
  have hnxlt : nx < 2 ^ 32 := hnx ▸ word32_lt m x
  have hlenlt := word32_lt m (x + 8)
  obtain ⟨m₁, rfl, heq⟩ := split_eq hnx hp hlen hrest hend hapart
  rw [heq]
  by_cases hne : nx ≠ 0
  · have hsides := hkeep hne
    rw [if_pos hne]
    refine ⟨?_, ?_, ?_, ?_, ?_, fun _ => ?_⟩ <;>
    · simp (disch := omega) only [length, next, prev, setNext, setPrev, setLength,
        word32_bytes32_of_disjoint, word32_memcpy, Nat.mod_eq_of_lt]
  · rw [if_neg hne]
    refine ⟨?_, ?_, ?_, ?_, ?_, fun h => absurd h hne⟩ <;>
    · simp (disch := omega) only [length, next, prev, setNext, setPrev, setLength,
        word32_bytes32_of_disjoint, word32_memcpy, Nat.mod_eq_of_lt]

theorem split_frame (i : Nat) (hx : i < x ∨ x + 4 ≤ i) (hx' : i < x + 8 ∨ x + 12 ≤ i)
    (hnew : i < p ∨ p + 12 ≤ i) (hnext : nx ≠ 0 → i < nx + 4 ∨ nx + 8 ≤ i) :
    (m.split x len).2 i = m i := by
  obtain ⟨m₁, rfl, heq⟩ := split_eq hnx hp hlen hrest hend hapart
  rw [heq]
  by_cases hne : nx ≠ 0
  · have hsides := hnext hne
    rw [if_pos hne]
    simp (disch := omega) only [setNext, setPrev, setLength, memcpy_bytes32_of_disjoint]
  · rw [if_neg hne]
    simp (disch := omega) only [setNext, setPrev, setLength, memcpy_bytes32_of_disjoint]

end Split

theorem Layout.next_apart (h : Layout m a e (front ++ x :: back)) (hne : m.next x ≠ 0) :
    ∃ nx back', back = nx :: back' ∧ m.next x = nx ∧
      (nx + sizeof_BlockHeader ≤ x ∨ x + m.length x ≤ nx) := by
  obtain ⟨-, -, hnext, -⟩ := Linked.append_iff.mp h.linked
  cases back with
  | nil => exact absurd hnext hne
  | cons nx back' =>
    have hmem : nx ∈ front ++ x :: nx :: back' := by simp
    have hx : x ∈ front ++ x :: nx :: back' := by simp
    have hxnx : nx ≠ x := by
      intro heq
      have hnodup := (List.nodup_append.mp h.nodup).2.1
      exact (List.nodup_cons.mp hnodup).1 (heq ▸ List.mem_cons_self)
    have hapart := h.apart hmem hx hxnx
    have hheader : 20 ≤ m.length nx := h.header nx hmem
    exact ⟨nx, back', rfl, hnext, by unfold sizeof_BlockHeader; omega⟩

theorem Layout.not_mem (h : Layout m a e (front ++ x :: back)) : x ∉ back :=
  (List.nodup_cons.mp (List.nodup_append.mp h.nodup).2.1).1

theorem Layout.ne_of_mem (h : Layout m a e (front ++ x :: back)) (hz : z ∈ front ++ back) :
    z ∈ front ++ x :: back ∧ z ≠ x := by
  rcases List.mem_append.mp hz with hz | hz
  · exact ⟨List.mem_append_left _ hz,
      (List.nodup_append.mp h.nodup).2.2 z hz x List.mem_cons_self⟩
  · exact ⟨List.mem_append_right _ (List.mem_cons_of_mem x hz), fun heq => h.not_mem (heq ▸ hz)⟩

theorem Layout.link_outside (h : Layout m a e (front ++ x :: back)) (hz : z ∈ front ++ x :: back)
    (hne : m.next x ≠ 0) {i : Nat} (hlow : z ≤ i) (hhigh : i < z + m.length z)
    (hlink : back.head? = some z → i < z + 4 ∨ z + 8 ≤ i) :
    i < m.next x + 4 ∨ m.next x + 8 ≤ i := by
  obtain ⟨nx, back', rfl, hnx, -⟩ := h.next_apart hne
  rw [hnx]
  by_cases hsame : z = nx
  · rw [← hsame]
    exact hlink (congrArg some hsame.symm)
  · have hmem : nx ∈ front ++ x :: nx :: back' := by simp
    have hapart := h.apart hz hmem hsame
    have hheader : 20 ≤ m.length nx := h.header nx hmem
    omega

theorem Layout.next_eq (h : Layout m a e (front ++ x :: back)) : ∀ z ∈ back.head?, m.next x = z := by
  intro z hz
  obtain ⟨-, -, hnext, -⟩ := Linked.append_iff.mp h.linked
  rw [hnext, List.headD_eq_head?_getD, Option.mem_def.mp hz]
  rfl

/-- **Splitting a block.** -/
theorem Layout.split (h : Layout m a e (front ++ x :: back)) {len p : Nat}
    (hp : p = x + m.length x - len) (hlen : sizeof_BlockHeader ≤ len)
    (hrest : len + sizeof_BlockHeader ≤ m.length x) :
    (m.split x len).1 = p ∧ Layout (m.split x len).2 a e (front ++ x :: p :: back) ∧
    (m.split x len).2.length p = len ∧ (m.split x len).2.signature x = m.signature x ∧
    ∀ z ∈ front ++ back, SameBlock m (m.split x len).2 z := by
  have hx : x ∈ front ++ x :: back := by simp
  have h20 : 20 ≤ len := hlen
  have hrest' : len + 20 ≤ m.length x := hrest
  obtain ⟨hxpos, -, hxend, he⟩ := h.bounds hx
  have hside : m.next x ≠ 0 → m.next x + sizeof_BlockHeader ≤ x ∨ x + m.length x ≤ m.next x := by
    intro hne
    obtain ⟨nx, -, -, hnx, hapart⟩ := h.next_apart hne
    rwa [hnx]
  obtain ⟨m₁, -, heq⟩ := split_eq rfl hp hlen hrest (by omega) hside
  obtain ⟨hvx, hvlx, hvp, hvpp, hvlp, hvn⟩ := split_values rfl hp hlen hrest (by omega) hside
  have hframe := split_frame rfl hp hlen hrest (by omega) hside
  -- a byte of another block is changed only in its link to the block before
  have hclear : ∀ z ∈ front ++ x :: back, z ≠ x → ∀ i, z ≤ i → i < z + m.length z →
      (back.head? = some z → i < z + 4 ∨ z + 8 ≤ i) → (m.split x len).2 i = m i := by
    intro z hz hne i hlow hhigh hlink
    have hapart := h.apart hz hx hne
    exact hframe i (by omega) (by omega) (by omega)
      fun hnext => h.link_outside hz hnext hlow hhigh hlink
  have hself : ∀ k, k = 4 ∨ k = 12 → word32 (m.split x len).2 (x + k) = word32 m (x + k) := by
    intro k hk
    refine word_eq k fun i hi => hframe _ (by omega) (by omega) (by omega) fun hnext => ?_
    exact h.link_outside hx hnext (by omega) (by omega)
      fun hhead => absurd (List.mem_of_mem_head? hhead) h.not_mem
  have hblock : ∀ z ∈ front ++ x :: back, z ≠ x → SameBlock m (m.split x len).2 z ∧
      (m.split x len).2.next z = m.next z ∧
      (back.head? ≠ some z → (m.split x len).2.prev z = m.prev z) :=
    fun z hz hne => block_clear (h.header z hz) (hclear z hz hne)
  have hother : ∀ z ∈ front ++ back, SameBlock m (m.split x len).2 z := fun z hz =>
    (hblock z (h.ne_of_mem hz).1 (h.ne_of_mem hz).2).1
  obtain ⟨b, hfront, hrestTiles⟩ := Tiles.of_append h.tiles
  obtain ⟨rfl, -, hback⟩ := Tiles.cons_iff.mp hrestTiles
  have hrest₂ : x + (m.length x - len) = p := by omega
  have hend₂ : p + len = x + m.length x := by omega
  refine ⟨by rw [heq], ⟨h.pos, h.end_le, ?_, ?_, ?_⟩, hvlp, hself 12 (Or.inr rfl), hother⟩
  · refine (hfront.congr fun z hz => (hother z (List.mem_append_left _ hz)).length).append ?_
    refine Tiles.cons_iff.mpr ⟨rfl, by omega, ?_⟩
    rw [hvlx, hrest₂]
    refine Tiles.cons_iff.mpr ⟨rfl, by omega, ?_⟩
    rw [hvlp, hend₂]
    exact hback.congr fun z hz => (hother z (List.mem_append_right _ hz)).length
  · refine h.linked.insert h.nodup (fun z hz hne => (hblock z hz hne).2.1) (fun z hz hhead => ?_)
      hvx hvpp hvp fun z hz => ?_
    · by_cases hne : z = x
      · rw [hne]
        exact hself 4 (Or.inl rfl)
      · exact (hblock z hz hne).2.2 hhead
    · have hnext := h.next_eq z hz
      have hzpos := (h.bounds (List.mem_append_right front
        (List.mem_cons_of_mem x (List.mem_of_mem_head? hz)))).1
      rw [← hnext]
      exact hvn (by omega)
  · intro z hz
    rw [List.mem_append, List.mem_cons, List.mem_cons] at hz
    rcases hz with hz | rfl | rfl | hz
    · rw [(hother z (List.mem_append_left _ hz)).length]
      exact h.header z (List.mem_append_left _ hz)
    · rw [hvlx]
      exact Nat.le_sub_of_add_le (by omega)
    · rw [hvlp]
      exact hlen
    · rw [(hother z (List.mem_append_right _ hz)).length]
      exact h.header z (List.mem_append_right _ (List.mem_cons_of_mem x hz))

/-! ### Joining -/

section Absorb

variable {nn : Nat} (hnn : m.next y = nn) (hxy : x + m.length x = y)
  (hxlen : sizeof_BlockHeader ≤ m.length x) (hylen : sizeof_BlockHeader ≤ m.length y)
  (hpos : 0 < x) (hend : y + m.length y ≤ 2 ^ 32)
  (hapart : nn ≠ 0 → nn + sizeof_BlockHeader ≤ x ∨ y + m.length y ≤ nn)

include hnn hxy hxlen

theorem absorb_eq :
    m.absorb x y = if nn ≠ 0 then
        ((m.setLength x (m.length x + m.length y)).setNext x nn).setPrev nn x
      else (m.setLength x (m.length x + m.length y)).setNext x nn := by
  have hx20 : 20 ≤ m.length x := hxlen
  have hnext : (m.setLength x (m.length x + m.length y)).next y = nn := by
    rw [← hnn]
    simp (disch := omega) only [next, setLength, word32_bytes32_of_disjoint]
  unfold absorb
  dsimp only
  rw [hnext]

include hylen hapart hpos hend in
theorem absorb_values :
    (m.absorb x y).next x = nn ∧ (m.absorb x y).length x = m.length x + m.length y ∧
    (nn ≠ 0 → (m.absorb x y).prev nn = x) := by
  have hx20 : 20 ≤ m.length x := hxlen
  have hy20 : 20 ≤ m.length y := hylen
  have hkeep : nn ≠ 0 → nn + 20 ≤ x ∨ y + m.length y ≤ nn := hapart
  have hnnlt : nn < 2 ^ 32 := hnn ▸ word32_lt m y
  rw [absorb_eq hnn hxy hxlen]
  have hsum : m.length x + m.length y < 2 ^ 32 := by omega
  by_cases hne : nn ≠ 0
  · have hsides := hkeep hne
    rw [if_pos hne]
    generalize m.length x + m.length y = total at hsum ⊢
    refine ⟨?_, ?_, fun _ => ?_⟩ <;>
    · simp (disch := omega) only [length, next, prev, setNext, setPrev, setLength,
        word32_bytes32_of_disjoint, word32_memcpy, Nat.mod_eq_of_lt]
  · rw [if_neg hne]
    generalize m.length x + m.length y = total at hsum ⊢
    refine ⟨?_, ?_, fun h => absurd h hne⟩ <;>
    · simp (disch := omega) only [length, next, setNext, setLength, word32_bytes32_of_disjoint,
        word32_memcpy, Nat.mod_eq_of_lt]

theorem absorb_frame (i : Nat) (hx : i < x ∨ x + 4 ≤ i) (hx' : i < x + 8 ∨ x + 12 ≤ i)
    (hnext : nn ≠ 0 → i < nn + 4 ∨ nn + 8 ≤ i) : (m.absorb x y) i = m i := by
  rw [absorb_eq hnn hxy hxlen]
  by_cases hne : nn ≠ 0
  · have hsides := hnext hne
    rw [if_pos hne]
    simp (disch := omega) only [setNext, setPrev, setLength, memcpy_bytes32_of_disjoint]
  · rw [if_neg hne]
    simp (disch := omega) only [setNext, setLength, memcpy_bytes32_of_disjoint]

end Absorb

/-- **Joining two blocks.** -/
theorem Layout.absorb (h : Layout m a e (front ++ x :: y :: back)) :
    Layout (m.absorb x y) a e (front ++ x :: back) ∧
    (m.absorb x y).signature x = m.signature x ∧
    ∀ z ∈ front ++ back, SameBlock m (m.absorb x y) z := by
  have hx : x ∈ front ++ x :: y :: back := by simp
  have hy : y ∈ front ++ x :: y :: back := by simp
  have hsplit : front ++ x :: y :: back = (front ++ [x]) ++ y :: back := by simp
  have h' : Layout m a e ((front ++ [x]) ++ y :: back) := hsplit ▸ h
  obtain ⟨b, hfront, hrest⟩ := Tiles.of_append h.tiles
  obtain ⟨rfl, -, hrest⟩ := Tiles.cons_iff.mp hrest
  obtain ⟨hxy, -, hback⟩ := Tiles.cons_iff.mp hrest
  obtain ⟨hxpos, hx20, -, -⟩ := h.bounds hx
  obtain ⟨-, hy20, hyend, he⟩ := h.bounds hy
  have hside : m.next y ≠ 0 →
      m.next y + sizeof_BlockHeader ≤ x ∨ y + m.length y ≤ m.next y := by
    intro hne
    obtain ⟨nn, back', rfl, hnn, hyside⟩ := h'.next_apart hne
    have hmem : nn ∈ front ++ x :: y :: nn :: back' := by simp
    have hapart := h.apart hmem hx fun heq => h.not_mem (heq ▸ by simp)
    have hnn20 : 20 ≤ m.length nn := h.header nn hmem
    rw [hnn]
    unfold sizeof_BlockHeader at hyside ⊢
    omega
  obtain ⟨hvx, hvlx, hvn⟩ := absorb_values rfl hxy.symm hx20 hy20 hxpos (by omega) hside
  have hframe := absorb_frame (m := m) (y := y) rfl hxy.symm hx20
  have hblock : ∀ z ∈ front ++ x :: y :: back, z ≠ x → SameBlock m (m.absorb x y) z ∧
      (m.absorb x y).next z = m.next z ∧
      (back.head? ≠ some z → (m.absorb x y).prev z = m.prev z) := by
    intro z hz hne
    refine block_clear (h.header z hz) fun i hlow hhigh hlink => ?_
    have hapart := h.apart hz hx hne
    exact hframe i (by omega) (by omega)
      fun hnext => h'.link_outside (hsplit ▸ hz) hnext hlow hhigh hlink
  have hself : ∀ k, k = 4 ∨ k = 12 → word32 (m.absorb x y) (x + k) = word32 m (x + k) := by
    intro k hk
    refine word_eq k fun i hi => hframe _ (by omega) (by omega) fun hnext => ?_
    refine h'.link_outside (hsplit ▸ hx) hnext (by omega) (by omega) fun hhead => absurd ?_ h.not_mem
    exact List.mem_cons_of_mem y (List.mem_of_mem_head? hhead)
  have hsub : ∀ {z}, z ∈ front ++ x :: back → z ∈ front ++ x :: y :: back := by
    intro z hz
    rw [List.mem_append, List.mem_cons] at hz ⊢
    exact hz.imp_right fun hz => hz.imp_right (List.mem_cons_of_mem y)
  have hnodup : (front ++ x :: back).Nodup :=
    h.nodup.sublist ((List.sublist_cons_self y back).cons_cons x |>.append_left front)
  have hother : ∀ z ∈ front ++ back, SameBlock m (m.absorb x y) z := by
    intro z hz
    have hz' : z ∈ front ++ y :: back := by
      rw [List.mem_append] at hz ⊢
      exact hz.imp_right (List.mem_cons_of_mem y)
    exact (hblock z (h.ne_of_mem hz').1 (h.ne_of_mem hz').2).1
  have hend₂ : x + (m.length x + m.length y) = x + m.length x + m.length y := by omega
  refine ⟨⟨h.pos, h.end_le, ?_, ?_, ?_⟩, hself 12 (Or.inr rfl), hother⟩
  · refine (hfront.congr fun z hz => (hother z (List.mem_append_left _ hz)).length).append ?_
    refine Tiles.cons_iff.mpr ⟨rfl, by omega, ?_⟩
    rw [hvlx, hend₂, ← hxy]
    exact (hxy ▸ hback).congr fun z hz => (hother z (List.mem_append_right _ hz)).length
  · refine h.linked.remove hnodup (fun z hz hne => (hblock z (hsub hz) hne).2.1)
      (fun z hz hhead => ?_) hvx fun z hz => ?_
    · by_cases hne : z = x
      · rw [hne]
        exact hself 4 (Or.inl rfl)
      · exact (hblock z (hsub hz) hne).2.2 hhead
    · have hnext := h'.next_eq z hz
      have hzpos := (h.bounds (List.mem_append_right front (List.mem_cons_of_mem x
        (List.mem_cons_of_mem y (List.mem_of_mem_head? hz))))).1
      rw [← hnext]
      exact hvn (by omega)
  · intro z hz
    rw [List.mem_append, List.mem_cons] at hz
    rcases hz with hz | rfl | hz
    · rw [(hother z (List.mem_append_left _ hz)).length]
      exact h.header z (List.mem_append_left _ hz)
    · rw [hvlx]
      exact le_trans hx20 (Nat.le_add_right _ _)
    · rw [(hother z (List.mem_append_right _ hz)).length]
      exact h.header z (List.mem_append_right _ (List.mem_cons_of_mem x (List.mem_cons_of_mem y hz)))

end Memory

end TinyClr.SimpleHeap
