import TinyClr.Pal.SimpleHeapSpec

/-!
# Runs of the simple heap

`Correct` is what the heap promises of every state and `Contract` what it promises of every call.  A
run keeps both as long as no length wraps around where a block would be found for it, and no
allocation grows in `SimpleHeap_ReAllocate`, which copies whole block lengths: those two are the
calls that are not `Sound`.
-/

namespace TinyClr.SimpleHeap

open TinyClr.Library

/-! ### Promises -/

namespace Memory

/-- The blocks in the order of their links -/
def blockList (m : Memory) : Nat → Nat → List Nat
  | 0, _ => []
  | fuel + 1, ptr => if ptr = 0 then [] else ptr :: m.blockList fuel (m.next ptr)

/-- The bytes between the header and the tail guard of an allocation -/
def payload (m : Memory) (ptr : Nat) : Nat :=
  m.length (ptr - sizeof_BlockHeader) - (sizeof_BlockHeader + 4)

/-- The length of a block for `len` bytes: whole words, with header and tail guard -/
def needed (len : Nat) : Nat := (len + sizeof_BlockHeader + 4 + 3) / 4 * 4

end Memory

namespace Heap

variable (arena : Arena) (h h' : Heap)

def blocks : List Nat := h.memory.blockList arena.length arena.buffer

/-- The blocks tile the arena in the order of their links, no two free blocks are neighbours, and
    every allocation in use lies before its tail guard and outside the others. -/
structure Correct : Prop where
  tiles : Tiles h.memory.length arena.buffer (h.blocks arena) (arena.buffer + arena.length)
  linked : Linked h.memory.next h.memory.prev 0 (h.blocks arena) 0
  merged : (h.blocks arena).IsChain h.memory.NotBothFree
  room : ∀ p len, (p, len) ∈ h.live → ∃ x ∈ h.blocks arena, p = x + sizeof_BlockHeader ∧
    h.memory.signature x = c_Busy ∧ p + len + 4 ≤ x + h.memory.length x
  disjoint : ∀ p len q n, (p, len) ∈ h.live → (q, n) ∈ h.live → p ≠ q → p + len ≤ q ∨ q + n ≤ p
  distinct : (h.live.map Prod.fst).Nodup

/-- The bytes of these allocations stay. -/
def Keeps (live : List (Nat × Nat)) : Prop :=
  ∀ p len, (p, len) ∈ live → ∀ i < len, h'.memory (p + i) = h.memory (p + i)

def Full (len : Nat) : Prop :=
  ∀ x ∈ h.blocks arena, h.memory.Free x → h.memory.length x < Memory.needed len

/-- What a call with its result promises -/
def Contract : Call → Heap → Nat → Prop
  | .allocate len, h', p =>
      (p = 0 → h' = h ∧ h.Full arena len.toNat) ∧
      (p ≠ 0 → h'.live = (p, len.toNat) :: h.live ∧ h.Keeps h' h.live)
  | .release ptr, h', _ => h'.live = h.drop ptr ∧ h.Keeps h' (h.drop ptr)
  | .reAllocate ptr len, h', p =>
      (p = 0 → h' = h ∧ h.Full arena len.toNat) ∧
      (p ≠ 0 → h'.live = (p, len.toNat) :: h.drop ptr ∧ h.Keeps h' (h.drop ptr) ∧
        (ptr ≠ 0 →
          h.memory.copyLength ptr len.toNat ≤ h.memory.payload ptr ∧
          h.memory.copyLength ptr len.toNat ≤ h'.memory.payload p ∧
          ∀ i < min (h.memory.payload ptr) len.toNat, h'.memory (p + i) = h.memory (ptr + i)))
  | .store ptr i value, h', _ =>
      h'.live = h.live ∧ h'.memory (ptr + i) = value ∧
      ∀ p len, (p, len) ∈ h.live → ∀ j < len, p + j ≠ ptr + i → h'.memory (p + j) = h.memory (p + j)

def Legal : Call → Prop
  | .allocate _ => True
  | .release ptr => h.Owns ptr
  | .reAllocate ptr _ => h.Owns ptr
  | .store ptr i _ => ∃ len, (ptr, len) ∈ h.live ∧ i < len

/-- The length does not wrap around, or no block is found for what it has become. -/
def NoWrap (len : Nat) : Prop :=
  Memory.needed len + sizeof_BlockHeader * 2 < 2 ^ 32 ∨
    ∀ x ∈ h.blocks arena, ¬ h.memory.Fits (Memory.request len) x

/-- The calls that the heap serves as promised -/
def Sound : Call → Prop
  | .allocate len => h.NoWrap arena len.toNat
  | .reAllocate ptr len =>
      h.NoWrap arena len.toNat ∧
      (ptr = 0 ∨ len.toNat ≤ h.memory.payload ptr ∨
        ∀ x ∈ h.blocks arena, ¬ h.memory.Fits (Memory.request len.toNat) x)
  | .release _ => True
  | .store _ _ _ => True

structure Inv (xs : List Nat) : Prop where
  valid : h.memory.Valid arena.buffer (arena.buffer + arena.length) xs
  live : ∀ p len, (p, len) ∈ h.live → ∃ x ∈ xs, p = x + sizeof_BlockHeader ∧ h.memory.Busy x ∧
    len + (sizeof_BlockHeader + 4) ≤ h.memory.length x
  distinct : (h.live.map Prod.fst).Nodup

/-! ### States -/

variable {arena : Arena} {h h' : Heap} {xs xs' : List Nat}

omit arena h h' in
theorem blockList_eq {m : Memory} : ∀ {xs : List Nat} {p fuel : Nat},
    Linked m.next m.prev p xs 0 → (∀ x ∈ xs, x ≠ 0) → xs.length ≤ fuel →
    m.blockList fuel (xs.headD 0) = xs := by
  intro xs
  induction xs with
  | nil =>
    intro p fuel _ _ _
    cases fuel <;> rfl
  | cons x xs ih =>
    intro p fuel hlinked hne hfuel
    obtain ⟨fuel, rfl⟩ := Nat.exists_eq_succ_of_ne_zero (Nat.ne_of_gt (Nat.zero_lt_of_lt hfuel))
    obtain ⟨-, hnext, hrest⟩ := hlinked
    rw [List.headD_cons, Memory.blockList, if_neg (hne x List.mem_cons_self), hnext]
    rw [ih hrest (fun y hy => hne y (List.mem_cons_of_mem x hy)) (Nat.le_of_succ_le_succ hfuel)]

namespace Inv

variable (hs : h.Inv arena xs)

include hs

theorem ne_nil : xs ≠ [] := by
  rintro rfl
  have hpos : 20 ≤ arena.length := arena.header_le
  have htiles := hs.valid.layout.tiles
  generalize hend : arena.buffer + arena.length = e at htiles
  cases htiles
  omega

theorem length_lt : xs.length < arena.length := by
  have hlt := hs.valid.layout.length_lt hs.ne_nil
  omega

theorem blocks_eq : h.blocks arena = xs := by
  have hpos : ∀ x ∈ xs, x ≠ 0 := fun x hx => Nat.ne_of_gt (hs.valid.layout.bounds hx).1
  have heq := blockList_eq hs.valid.layout.linked hpos hs.length_lt.le
  rwa [hs.valid.layout.headD_eq hs.ne_nil] at heq

/-- **What the invariant gives.** -/
theorem correct : h.Correct arena := by
  have hroom : ∀ p len, (p, len) ∈ h.live → ∃ x ∈ xs, p = x + sizeof_BlockHeader ∧
      h.memory.signature x = c_Busy ∧ p + len + 4 ≤ x + h.memory.length x := by
    intro p len hmem
    obtain ⟨x, hx, hp, hbusy, hlen⟩ := hs.live p len hmem
    exact ⟨x, hx, hp, hbusy.signature, by omega⟩
  refine ⟨hs.blocks_eq ▸ hs.valid.layout.tiles, hs.blocks_eq ▸ hs.valid.layout.linked,
    hs.blocks_eq ▸ hs.valid.merged, hs.blocks_eq ▸ hroom, ?_, hs.distinct⟩
  intro p len q n hp hq hne
  obtain ⟨x, hx, rfl, -, hlen⟩ := hroom p len hp
  obtain ⟨y, hy, rfl, -, hn⟩ := hroom q n hq
  have hapart := hs.valid.layout.apart hx hy fun heq => hne (by rw [heq])
  unfold sizeof_BlockHeader at *
  omega

theorem of_same {live : List (Nat × Nat)} {m' : Memory}
    (hvalid : m'.Valid arena.buffer (arena.buffer + arena.length) xs')
    (hsub : live.Sublist h.live)
    (hsame : ∀ x len, (x + sizeof_BlockHeader, len) ∈ live → x ∈ xs → h.memory.Busy x →
      x ∈ xs' ∧ h.memory.SameBlock m' x) :
    ({ memory := m', live := live } : Heap).Inv arena xs' ∧
      h.Keeps { memory := m', live := live } live := by
  refine ⟨⟨hvalid, fun p len hmem => ?_, hs.distinct.sublist (hsub.map _)⟩,
    fun p len hmem i hi => ?_⟩
  · obtain ⟨x, hx, rfl, hbusy, hlen⟩ := hs.live p len (hsub.subset hmem)
    obtain ⟨hx', hsame'⟩ := hsame x len hmem hx hbusy
    exact ⟨x, hx', rfl, hbusy.of_same hsame', by rw [hsame'.length]; exact hlen⟩
  · obtain ⟨x, hx, rfl, hbusy, hlen⟩ := hs.live p len (hsub.subset hmem)
    exact (hsame x len hmem hx hbusy).2.payload _ (by omega) (by omega)

theorem cons {p len : Nat} (hp : p ∈ xs) (hbusy : h.memory.Busy p)
    (hlen : len + (sizeof_BlockHeader + 4) ≤ h.memory.length p)
    (hnew : ∀ n, (p + sizeof_BlockHeader, n) ∉ h.live) :
    ({ h with live := (p + sizeof_BlockHeader, len) :: h.live } : Heap).Inv arena xs := by
  refine ⟨hs.valid, fun q n hmem => ?_, List.nodup_cons.mpr ⟨fun hmem => ?_, hs.distinct⟩⟩
  · rcases List.mem_cons.mp hmem with heq | hmem
    · obtain ⟨rfl, rfl⟩ := Prod.mk.inj heq
      exact ⟨p, hp, rfl, hbusy, hlen⟩
    · exact hs.live q n hmem
  · obtain ⟨⟨q, n⟩, hmem, heq⟩ := List.mem_map.mp hmem
    have hq : q = p + sizeof_BlockHeader := heq
    exact hnew n (hq ▸ hmem)

end Inv

/-! ### Calls -/

omit arena h h' in
theorem request_eq {len : Nat} (h : len + 27 < 2 ^ 32) :
    Memory.request len = Memory.needed len := by
  have hself : ∀ x : Nat, x < 2 ^ 32 → uint32 x = x := fun _ hx => uint32_nat hx
  have hheader := hself (len + sizeof_BlockHeader) (by unfold sizeof_BlockHeader; omega)
  have hguard := hself (len + sizeof_BlockHeader + 4) (by unfold sizeof_BlockHeader; omega)
  have hround := hself (len + sizeof_BlockHeader + 4 + 3) (by unfold sizeof_BlockHeader; omega)
  push_cast at hheader hguard hround
  have hless : ((len : Int) + sizeof_BlockHeader + 4 + 4 - 1) = len + sizeof_BlockHeader + 4 + 3 := by
    omega
  unfold Memory.request Memory.needed
  dsimp only
  rw [hheader]
  push_cast
  rw [hguard]
  push_cast
  rw [hless, hround]

section Calls

variable (hs : h.Inv arena xs)

include hs

theorem Inv.full {len : Nat}
    (hnone : ∀ x ∈ xs, ¬ h.memory.Fits (Memory.request len) x) : h.Full arena len := by
  intro x hx hfree
  rw [hs.blocks_eq] at hx
  have hlt : h.memory.length x < Memory.request len :=
    Nat.lt_of_not_le fun hle => hnone x hx ⟨hfree, hle⟩
  by_cases hwrap : len + 27 < 2 ^ 32
  · rwa [← request_eq hwrap]
  · have hlength := word32_lt h.memory (x + 8)
    unfold Memory.needed sizeof_BlockHeader Memory.length
    omega

theorem Inv.noWrap {len : Nat} (hsound : h.NoWrap arena len) :
    sizeof_BlockHeader + 4 ≤ Memory.request len ∧
        Memory.request len + sizeof_BlockHeader * 2 < 2 ^ 32 ∨
      ∀ x ∈ xs, ¬ h.memory.Fits (Memory.request len) x := by
  refine hsound.imp (fun hneeded => ?_) fun hnone => hs.blocks_eq ▸ hnone
  have hlen : len + 27 < 2 ^ 32 := by
    unfold Memory.needed sizeof_BlockHeader at hneeded
    omega
  rw [request_eq hlen]
  refine ⟨?_, hneeded⟩
  unfold Memory.needed sizeof_BlockHeader
  omega

theorem Inv.allocate {len : Nat} (hsound : h.NoWrap arena len) :
    ((∀ x ∈ xs, ¬ h.memory.Fits (Memory.request len) x) ∧
      h.memory.allocate arena.length arena.buffer len = some (0, h.memory)) ∨
    (∃ x ∈ xs, h.memory.Fits (Memory.request len) x) ∧ ∃ p m' xs', p ∈ xs' ∧
      h.memory.allocate arena.length arena.buffer len = some (p + sizeof_BlockHeader, m') ∧
      m'.Busy p ∧ len + (sizeof_BlockHeader + 4) ≤ m'.length p ∧
      (∀ z ∈ xs, h.memory.Busy z → z ≠ p ∧ z ∈ xs' ∧ h.memory.SameBlock m' z) ∧
      ({ h with memory := m' } : Heap).Inv arena xs' ∧
      (∀ n, (p + sizeof_BlockHeader, n) ∉ h.live) := by
  rcases Memory.allocate_spec hs.valid hs.ne_nil hs.length_lt (hs.noWrap hsound) with hfull | hfits
  · exact Or.inl hfull
  · obtain ⟨hfits, p, m', xs', hp, heq, hvalid, hbusy, hlong, hsame⟩ := hfits
    have hlen : len + (sizeof_BlockHeader + 4) ≤ m'.length p := by
      refine le_trans ?_ hlong
      obtain ⟨x, hx, hfitsx⟩ := hfits
      have hneeded := hsound.resolve_right
        fun hnone => hnone x (hs.blocks_eq.symm ▸ hx) hfitsx
      have hlt : len + 27 < 2 ^ 32 := by
        unfold Memory.needed sizeof_BlockHeader at hneeded
        omega
      rw [request_eq hlt]
      unfold Memory.needed sizeof_BlockHeader
      omega
    obtain ⟨hinv, -⟩ := hs.of_same hvalid (List.Sublist.refl h.live)
      fun x _ _ hx hxbusy => (hsame x hx hxbusy).2
    refine Or.inr ⟨hfits, p, m', xs', hp, heq, hbusy, hlen, hsame, hinv, fun n hmem => ?_⟩
    obtain ⟨x, hx, hxp, hxbusy, -⟩ := hs.live _ n hmem
    exact (hsame x hx hxbusy).1 (Nat.add_right_cancel hxp).symm

variable {ptr : Nat}

theorem Inv.block (howns : h.Owns ptr) (hne : ptr ≠ 0) :
    ∃ x ∈ xs, ∃ len, (ptr, len) ∈ h.live ∧ ptr = x + sizeof_BlockHeader ∧ h.memory.Busy x ∧
      len + (sizeof_BlockHeader + 4) ≤ h.memory.length x := by
  obtain ⟨len, hmem⟩ := howns.resolve_left hne
  obtain ⟨x, hx, hp, hbusy, hlen⟩ := hs.live ptr len hmem
  exact ⟨x, hx, len, hmem, hp, hbusy, hlen⟩

theorem Inv.drop_zero : h.drop 0 = h.live := by
  refine List.filter_eq_self.mpr fun ⟨p, len⟩ hmem => ?_
  obtain ⟨x, -, hp, -⟩ := hs.live p len hmem
  refine decide_eq_true (Nat.ne_of_gt ?_)
  show 0 < p
  rw [hp]
  exact Nat.add_pos_right x (by decide)

theorem Inv.release (howns : h.Owns ptr) : ∃ m' xs',
    h.memory.release ptr = some m' ∧
    ({ memory := m', live := h.drop ptr } : Heap).Inv arena xs' ∧
    h.Keeps { memory := m', live := h.drop ptr } (h.drop ptr) ∧
    (ptr ≠ 0 → ∀ z ∈ xs, h.memory.Busy z → z + sizeof_BlockHeader ≠ ptr →
      z ∈ xs' ∧ h.memory.SameBlock m' z) := by
  by_cases hne : ptr = 0
  · subst hne
    refine ⟨h.memory, xs, by rw [Memory.release, if_pos rfl], ?_, ?_, fun h => absurd rfl h⟩
    · rw [hs.drop_zero]
      exact hs
    · exact fun _ _ _ _ _ => rfl
  · obtain ⟨x, hx, -, -, rfl, hbusy, -⟩ := hs.block howns hne
    obtain ⟨m', xs', heq, hvalid, hsame⟩ := Memory.release_spec hs.valid hx hbusy
    have hother : ∀ z len, (z + sizeof_BlockHeader, len) ∈ h.drop (x + sizeof_BlockHeader) →
        z ∈ xs → h.memory.Busy z → z ∈ xs' ∧ h.memory.SameBlock m' z := by
      intro z len hmem hz hzbusy
      refine hsame z hz hzbusy fun heq => ?_
      have hdrop := of_decide_eq_true (List.mem_filter.mp hmem).2
      exact hdrop (by rw [heq])
    obtain ⟨hinv, hkeeps⟩ := hs.of_same hvalid List.filter_sublist hother
    exact ⟨m', xs', heq, hinv, hkeeps, fun _ z hz hzbusy hzne =>
      hsame z hz hzbusy fun heq => hzne (by rw [heq])⟩

theorem Inv.payload {x : Nat} {m' : Memory} (hx : x ∈ xs) (hbusy : h.memory.Busy x)
    (hkeep : ∀ i, i < x + sizeof_BlockHeader ∨ x + h.memory.length x ≤ i + 4 →
      m' i = h.memory i) :
    ({ h with memory := m' } : Heap).Inv arena xs ∧ m'.Busy x ∧
      m'.length x = h.memory.length x ∧ ∀ z ∈ xs, z ≠ x → h.memory.SameBlock m' z := by
  obtain ⟨hvalid, hbusy', hlength, hsame⟩ := hs.valid.payload hx hbusy hkeep
  refine ⟨⟨hvalid, fun p n hp => ?_, hs.distinct⟩, hbusy', hlength, hsame⟩
  obtain ⟨z, hz, rfl, hzbusy, hn⟩ := hs.live p n hp
  by_cases hne : z = x
  · subst hne
    exact ⟨z, hz, rfl, hbusy', by rw [hlength]; exact hn⟩
  · have hsame' := hsame z hz hne
    exact ⟨z, hz, rfl, hzbusy.of_same hsame', by rw [hsame'.length]; exact hn⟩

theorem Inv.copy_release {p x len oldLen : Nat} (hp : p ∈ xs) (hbusy : h.memory.Busy p)
    (hlen : len + (sizeof_BlockHeader + 4) ≤ h.memory.length p) (hxp : x ≠ p)
    (hnew : ∀ n, (p + sizeof_BlockHeader, n) ∉ h.live)
    (hmem : (x + sizeof_BlockHeader, oldLen) ∈ h.live) : ∃ m' xs',
    Memory.release (overlay h.memory (p + sizeof_BlockHeader) len
      fun i => h.memory (x + sizeof_BlockHeader + i)) (x + sizeof_BlockHeader) = some m' ∧
    ({ memory := m', live := h.drop (x + sizeof_BlockHeader) } : Heap).Inv arena xs' ∧
    p ∈ xs' ∧ m'.Busy p ∧ m'.length p = h.memory.length p ∧
    h.Keeps { memory := m', live := h.drop (x + sizeof_BlockHeader) }
      (h.drop (x + sizeof_BlockHeader)) ∧
    ∀ i < len, m' (p + sizeof_BlockHeader + i) = h.memory (x + sizeof_BlockHeader + i) := by
  obtain ⟨m₂, hm₂⟩ : ∃ m₂ : Memory, m₂ = overlay h.memory (p + sizeof_BlockHeader) len
      fun i => h.memory (x + sizeof_BlockHeader + i) := ⟨_, rfl⟩
  have houtside : ∀ i, i < p + sizeof_BlockHeader ∨ p + h.memory.length p ≤ i + 4 →
      m₂ i = h.memory i := by
    intro i hi
    rw [hm₂]
    exact overlay_outside (by omega)
  have hinside : ∀ i < len,
      m₂ (p + sizeof_BlockHeader + i) = h.memory (x + sizeof_BlockHeader + i) := by
    intro i hi
    rw [hm₂, overlay_inside (Nat.le_add_right _ i) (by omega), Nat.add_sub_cancel_left]
  obtain ⟨hs₂, hbusy₂, hlength₂, hsame₂⟩ := hs.payload hp hbusy houtside
  have hne : x + sizeof_BlockHeader ≠ 0 := Nat.ne_of_gt (Nat.add_pos_right x (by decide))
  obtain ⟨m₃, xs₃, heq₃, hs₃, hkeeps₃, hsame₃⟩ := hs₂.release (Or.inr ⟨oldLen, hmem⟩)
  obtain ⟨hp₃, hsamep⟩ := hsame₃ hne p hp hbusy₂ fun h' => hxp (Nat.add_right_cancel h').symm
  rw [← hm₂]
  refine ⟨m₃, xs₃, heq₃, hs₃, hp₃, hbusy₂.of_same hsamep, hsamep.length.trans hlength₂, ?_, ?_⟩
  · intro q n hq i hi
    obtain ⟨z, hz, rfl, hzbusy, hn⟩ := hs.live q n (List.mem_filter.mp hq).1
    have hzp : z ≠ p := fun h' => hnew n (h' ▸ (List.mem_filter.mp hq).1)
    exact (hkeeps₃ _ n hq i hi).trans ((hsame₂ z hz hzp).payload _ (by omega) (by omega))
  · intro i hi
    refine (hsamep.payload _ (by omega) ?_).trans (hinside i hi)
    have hlength : m₂.length p = h.memory.length p := hlength₂
    show _ < p + m₂.length p
    rw [hlength]
    omega

/-! ### One call -/

theorem step_allocate {len : UInt32} (hsound : h.Sound arena (.allocate len)) :
    ∃ h' p xs', step arena h (.allocate len) = some (h', p) ∧
      h.Contract arena (.allocate len) h' p ∧ h'.Inv arena xs' := by
  rcases hs.allocate hsound with ⟨hnone, heq⟩ | ⟨-, p, m', xs', hp, heq, hbusy, hlen, hsame, hinv,
      hnew⟩
  · refine ⟨h, 0, xs, ?_, ⟨fun _ => ⟨rfl, hs.full hnone⟩, fun hne => absurd rfl hne⟩, hs⟩
    simp only [step, heq, if_true]
  · have hne : p + sizeof_BlockHeader ≠ 0 := Nat.ne_of_gt (Nat.add_pos_right p (by decide))
    refine ⟨{ memory := m', live := (p + sizeof_BlockHeader, len.toNat) :: h.live },
      p + sizeof_BlockHeader, xs', ?_, ⟨fun h0 => absurd h0 hne, fun _ => ⟨rfl, ?_⟩⟩,
      hinv.cons hp hbusy hlen hnew⟩
    · simp only [step, heq, if_neg hne]
    · intro q n hmem i hi
      obtain ⟨x, hx, rfl, hxbusy, hn⟩ := hs.live q n hmem
      exact (hsame x hx hxbusy).2.2.payload _ (by omega) (by omega)

theorem step_release (hlegal : h.Legal (.release ptr)) :
    ∃ h' p xs', step arena h (.release ptr) = some (h', p) ∧
      h.Contract arena (.release ptr) h' p ∧ h'.Inv arena xs' := by
  obtain ⟨m', xs', heq, hinv, hkeeps, -⟩ := hs.release hlegal
  refine ⟨{ memory := m', live := h.drop ptr }, 0, xs', ?_, ⟨rfl, hkeeps⟩, hinv⟩
  simp only [step, heq]

theorem step_store {i : Nat} {value : UInt8} (hlegal : h.Legal (.store ptr i value)) :
    ∃ h' p xs', step arena h (.store ptr i value) = some (h', p) ∧
      h.Contract arena (.store ptr i value) h' p ∧ h'.Inv arena xs' := by
  obtain ⟨len, hmem, hi⟩ := hlegal
  have houtside : ∀ a, a ≠ ptr + i → memcpy h.memory (ptr + i) [value] a = h.memory a := by
    intro a ha
    refine memcpy_outside ?_
    rw [List.length_singleton]
    omega
  obtain ⟨x, hx, rfl, hbusy, hlen⟩ := hs.live ptr len hmem
  refine ⟨_, 0, xs, rfl, ⟨rfl, memcpy_head value, fun p n hp j hj hne => houtside _ hne⟩,
    (hs.payload hx hbusy fun j hj => houtside j ?_).1⟩
  omega

theorem step_reAllocate {len : UInt32} (hlegal : h.Legal (.reAllocate ptr len))
    (hsound : h.Sound arena (.reAllocate ptr len)) :
    ∃ h' p xs', step arena h (.reAllocate ptr len) = some (h', p) ∧
      h.Contract arena (.reAllocate ptr len) h' p ∧ h'.Inv arena xs' := by
  obtain ⟨hwrap, hroom⟩ := hsound
  rcases hs.allocate hwrap with ⟨hnone, heq⟩ | ⟨hfits, p, m₁, xs₁, hp, heq, hbusy, hlen, hsame,
      hs₁, hnew⟩
  · refine ⟨h, 0, xs, ?_, ⟨fun _ => ⟨rfl, hs.full hnone⟩, fun hne => absurd rfl hne⟩, hs⟩
    simp only [step, Memory.reAllocate, heq, if_true]
  · have hne : p + sizeof_BlockHeader ≠ 0 := Nat.ne_of_gt (Nat.add_pos_right p (by decide))
    have hkeeps : h.Keeps { h with memory := m₁ } h.live := by
      intro q n hmem i hi
      obtain ⟨x, hx, rfl, hxbusy, hn⟩ := hs.live q n hmem
      exact (hsame x hx hxbusy).2.2.payload _ (by omega) (by omega)
    by_cases hptr : ptr = 0
    · subst hptr
      refine ⟨{ memory := m₁, live := (p + sizeof_BlockHeader, len.toNat) :: h.live },
        p + sizeof_BlockHeader, xs₁, ?_, ⟨fun h0 => absurd h0 hne,
          fun _ => ⟨by rw [hs.drop_zero], by rw [hs.drop_zero]; exact hkeeps,
            fun h0 => absurd rfl h0⟩⟩, hs₁.cons hp hbusy hlen hnew⟩
      simp only [step, Memory.reAllocate, heq, ne_eq, not_true_eq_false, if_false, if_neg hne,
        hs.drop_zero]
    · obtain ⟨x, hx, oldLen, hmem, rfl, hxbusy, hxlen⟩ := hs.block hlegal hptr
      have hpayload : h.memory.payload (x + sizeof_BlockHeader) =
          h.memory.length x - (sizeof_BlockHeader + 4) := by
        rw [Memory.payload, Nat.add_sub_cancel]
      have hle : len.toNat ≤ h.memory.payload (x + sizeof_BlockHeader) := by
        refine (hroom.resolve_left hptr).resolve_right fun hnone => ?_
        obtain ⟨z, hz, hzfits⟩ := hfits
        exact hnone z (hs.blocks_eq.symm ▸ hz) hzfits
      obtain ⟨hxp, hx₁, hsame₁⟩ := hsame x hx hxbusy
      have hcopy : ∀ m : Memory, m.length x = h.memory.length x →
          m.copyLength (x + sizeof_BlockHeader) len.toNat = len.toNat := by
        intro m hm
        rw [Memory.copyLength, Nat.add_sub_cancel, hm, if_neg (by omega)]
      obtain ⟨m₃, xs₃, heq₃, hs₃, hp₃, hbusy₃, hlength₃, hkeeps₃, hcopied⟩ :=
        hs₁.copy_release hp hbusy hlen hxp hnew hmem
      have hlength₃' : m₃.length p = m₁.length p := hlength₃
      refine ⟨{ memory := m₃, live := (p + sizeof_BlockHeader, len.toNat) ::
          h.drop (x + sizeof_BlockHeader) }, p + sizeof_BlockHeader, xs₃, ?_,
        ⟨fun h0 => absurd h0 hne, fun _ => ⟨rfl, ?_, fun _ => ⟨?_, ?_, ?_⟩⟩⟩,
        hs₃.cons hp₃ hbusy₃ (by rw [hlength₃]; exact hlen)
          fun n hn => hnew n (List.mem_filter.mp hn).1⟩
      · have hreAllocate : h.memory.reAllocate arena.length arena.buffer (x + sizeof_BlockHeader)
            len.toNat = some (p + sizeof_BlockHeader, m₃) := by
          simp only [Memory.reAllocate, heq]
          rw [if_pos hptr, hcopy m₁ hsame₁.length, heq₃]
        simp only [step, hreAllocate, if_neg hne]
      · intro q n hq i hi
        exact (hkeeps₃ q n hq i hi).trans (hkeeps q n (List.mem_filter.mp hq).1 i hi)
      · rwa [hcopy h.memory rfl]
      · rw [hcopy h.memory rfl, Memory.payload, Nat.add_sub_cancel, hlength₃']
        exact Nat.le_sub_of_add_le hlen
      · intro i hi
        have hi' := Nat.lt_min.mp hi
        rw [hpayload] at hi'
        exact (hcopied i hi'.2).trans (hsame₁.payload _ (by omega) (by omega))

/-- **A sound call does what the heap promises.** -/
theorem Inv.step_spec {call : Call} (hlegal : h.Legal call) (hsound : h.Sound arena call) :
    ∃ h' p xs', step arena h call = some (h', p) ∧ h.Contract arena call h' p ∧
      h'.Inv arena xs' := by
  cases call with
  | allocate len => exact step_allocate hs hsound
  | release ptr => exact step_release hs hlegal
  | reAllocate ptr len => exact step_reAllocate hs hlegal hsound
  | store ptr i value => exact step_store hs hlegal

end Calls

end Heap

/-! ### Runs -/

def Honoured (arena : Arena) (h : Heap) (call : Call) (h' : Heap) (p : Nat) : Prop :=
  h.Contract arena call h' p ∧ h'.Correct arena

theorem initial_inv (arena : Arena) (memory : Memory) :
    (initial arena memory).Inv arena [arena.buffer] where
  valid := Memory.initializeHeap_valid memory arena
  live := fun _ _ hmem => absurd hmem List.not_mem_nil
  distinct := List.nodup_nil

/-- **A run of legal and sound calls honours all of them.** -/
theorem run_honoured (arena : Arena) (memory : Memory) (calls : List Call)
    (hcalls : Meets (step arena) (fun h call => h.Legal call ∧ h.Sound arena call)
      (initial arena memory) calls) :
    (initial arena memory).Correct arena ∧ ∃ h ps,
      run (step arena) (initial arena memory) calls = some (h, ps) ∧
      SpecRuns (Honoured arena) (initial arena memory) calls h ps := by
  have hstep : ∀ (s t : Heap) (call : Call), (s = t ∧ ∃ xs, s.Inv arena xs) →
      (s.Legal call ∧ s.Sound arena call) →
      ∃ s' p t', step arena s call = some (s', p) ∧ Honoured arena t call t' p ∧
        (s' = t' ∧ ∃ xs, s'.Inv arena xs) := by
    rintro s _ call ⟨rfl, xs, hs⟩ ⟨hlegal, hsound⟩
    obtain ⟨h', p, xs', heq, hcontract, hinv⟩ := hs.step_spec hlegal hsound
    exact ⟨h', p, h', heq, ⟨hcontract, hinv.correct⟩, rfl, xs', hinv⟩
  obtain ⟨h, ps, _, hrun, hspec, rfl, -⟩ := run_refines (step arena) (Honoured arena) hstep calls
    (initial arena memory) (initial arena memory) ⟨rfl, _, initial_inv arena memory⟩ hcalls
  exact ⟨(initial_inv arena memory).correct, h, ps, hrun, hspec⟩

/-- 200 bytes from address 100 on -/
def smallArena : Arena := ⟨100, 200, by decide, by decide, by decide⟩

/-- An allocation that is shrunk. -/
theorem run_honoured_shrink : ∃ h ps,
    run (step smallArena) (initial smallArena fun _ => 0) [.allocate 10, .reAllocate 284 4] =
      some (h, ps) ∧
    SpecRuns (Honoured smallArena) (initial smallArena fun _ => 0)
      [.allocate 10, .reAllocate 284 4] h ps := by
  refine (run_honoured smallArena (fun _ => 0) [.allocate 10, .reAllocate 284 4]
    ⟨⟨trivial, Or.inl (by decide)⟩, fun s r hstep => ⟨⟨Or.inr ⟨10, ?_⟩, Or.inl (by decide),
      Or.inr (Or.inl ?_)⟩, fun _ _ _ => trivial⟩⟩).2
  · have hlive : (step smallArena (initial smallArena fun _ => 0) (.allocate 10)).map
        (·.1.live) = some [(284, 10)] := by decide
    rw [hstep] at hlive
    have heq : s.live = [(284, 10)] := Option.some.inj hlive
    rw [heq]
    exact List.mem_singleton.mpr rfl
  · have hpayload : (step smallArena (initial smallArena fun _ => 0) (.allocate 10)).map
        (·.1.memory.payload 284) = some 12 := by decide
    rw [hstep] at hpayload
    have heq : s.memory.payload 284 = 12 := Option.some.inj hpayload
    rw [heq]
    decide

/-- A request of 0xFFFFFFF0 bytes gets a block of 8 bytes. -/
theorem huge_request_gets_block : ¬ ∀ calls : List Call,
    Meets (step smallArena) Heap.Legal (initial smallArena fun _ => 0) calls →
    ∃ h ps, run (step smallArena) (initial smallArena fun _ => 0) calls = some (h, ps) ∧
      SpecRuns (Honoured smallArena) (initial smallArena fun _ => 0) calls h ps := by
  intro hall
  obtain ⟨h, ps, hrun, hspec⟩ := hall [.allocate 0xFFFFFFF0] ⟨trivial, fun _ _ _ => trivial⟩
  have hfacts : (run (step smallArena) (initial smallArena fun _ => 0) [.allocate 0xFFFFFFF0]).map
      (fun r => (r.1.live, r.1.memory.length 292)) = some ([(312, 0xFFFFFFF0)], 8) := by
    decide
  rw [hrun] at hfacts
  obtain ⟨hlive, hlength⟩ := Prod.mk.inj (Option.some.inj hfacts)
  have hlive' : h.live = [(312, 0xFFFFFFF0)] := hlive
  have hlength' : h.memory.length 292 = 8 := hlength
  have hcorrect : h.Correct smallArena := by
    cases hspec with
    | cons hstep hrest =>
      cases hrest
      exact hstep.2
  obtain ⟨x, -, hx, -, hroom⟩ := hcorrect.room 312 0xFFFFFFF0 (hlive' ▸ List.mem_singleton.mpr rfl)
  have hx' : x = 292 := (Nat.add_right_cancel (m := 20) hx).symm
  rw [hx', hlength'] at hroom
  exact absurd hroom (by decide)

end TinyClr.SimpleHeap
