import TinyClr.Core.HeapCluster
import TinyClr.Library.Tiling
import TinyClr.Library.Runs
import Mathlib.Tactic.Linarith

/-!
# The cluster invariant

The payload is tiled by blocks, and the free list is the list of the free blocks in the order of
the tiling, without those `EventCache_Cleanup` has relabelled.  Every call replaces a stretch of
the tiling by another that fills the same interval, and `RecoverFromGC` builds the tiling and the
list anew.
-/

namespace TinyClr.Heap

open TinyClr.Library

/-! ### The invariant -/

/-- Whether a block belongs in the free list. -/
def HeapCluster.listed (hc : HeapCluster) (a : Nat) : Bool :=
  (hc.headers a).dataType = .freeblock && a ∉ hc.relabelled

def HeapCluster.InUse (hc : HeapCluster) (a : Nat) : Prop :=
  (hc.headers a).dataType ≠ .freeblock ∧ (hc.headers a).dataType ≠ .cachedblock

structure WellFormed (hc : HeapCluster) (blocks : List Nat) : Prop where
  tiles : Tiles hc.headers.size hc.payloadStart blocks hc.payloadEnd
  payload_le : hc.payloadEnd ≤ hc.payloadStart + HB_MaxSize
  freeList_eq : hc.freeList = blocks.filter hc.listed
  free_dead : ∀ a ∈ blocks, (hc.headers a).dataType = .freeblock →
    (hc.headers a).flags.alive = false
  relabelled_free : ∀ a ∈ hc.relabelled, a ∈ blocks ∧ (hc.headers a).dataType = .freeblock
  events_cached : ∀ a ∈ hc.events, a ∈ blocks ∧ (hc.headers a).dataType = .cachedblock ∧
    (hc.headers a).flags = eventFlags

variable {hc hc' : HeapCluster} {blocks front mid mid' back : List Nat} {m n : Nat}

variable {a : Nat}

theorem WellFormed.size_le (h : WellFormed hc blocks) (ha : a ∈ blocks) :
    0 < hc.headers.size a ∧ hc.headers.size a ≤ HB_MaxSize := by
  obtain ⟨hstart, hpos, hend⟩ := h.tiles.mem ha
  have hle := h.payload_le
  exact ⟨hpos, by omega⟩

theorem WellFormed.replace (h : WellFormed hc (front ++ mid ++ back))
    (hstart : hc'.payloadStart = hc.payloadStart) (hend : hc'.payloadEnd = hc.payloadEnd)
    (hrelabelled : hc'.relabelled = hc.relabelled)
    (hfront : Tiles hc.headers.size hc.payloadStart front m)
    (hback : Tiles hc.headers.size n back hc.payloadEnd)
    (hmid' : Tiles hc'.headers.size m mid' n)
    (hkeep : ∀ a, a < m ∨ n ≤ a → hc'.headers a = hc.headers a)
    (hfree : hc'.freeList =
      front.filter hc.listed ++ mid'.filter hc'.listed ++ back.filter hc.listed)
    (hdead : ∀ a ∈ mid', (hc'.headers a).dataType = .freeblock →
      (hc'.headers a).flags.alive = false)
    (hmid : ∀ a ∈ mid, a ∉ hc.relabelled)
    (hevents : ∀ a ∈ hc'.events, (a ∈ hc.events ∧ a ∉ mid) ∨
      (a ∈ mid' ∧ (hc'.headers a).dataType = .cachedblock ∧
        (hc'.headers a).flags = eventFlags)) :
    WellFormed hc' (front ++ mid' ++ back) := by
  have hfront' : ∀ a ∈ front, hc'.headers a = hc.headers a := by
    intro a ha
    obtain ⟨_, hpos, hle⟩ := hfront.mem ha
    exact hkeep a (Or.inl (by omega))
  have hback' : ∀ a ∈ back, hc'.headers a = hc.headers a := by
    intro a ha
    exact hkeep a (Or.inr (hback.mem ha).1)
  have hsplit : ∀ a, a ∈ front ++ mid ++ back → a ∉ mid → a ∈ front ∨ a ∈ back := by
    intro a ha hnot
    rcases List.mem_append.mp ha with ha | ha
    · rcases List.mem_append.mp ha with ha | ha
      · exact Or.inl ha
      · exact absurd ha hnot
    · exact Or.inr ha
  have hjoin : ∀ a, a ∈ front ∨ a ∈ back → a ∈ front ++ mid' ++ back := by
    rintro a (ha | ha)
    · exact List.mem_append_left _ (List.mem_append_left _ ha)
    · exact List.mem_append_right _ ha
  have hlisted : ∀ a, hc'.headers a = hc.headers a → hc'.listed a = hc.listed a := by
    intro a ha
    rw [HeapCluster.listed, HeapCluster.listed, ha, hrelabelled]
  refine ⟨?_, ?_, ?_, ?_, ?_, ?_⟩
  · rw [hstart, hend]
    exact Tiles.replace hfront hmid' hback fun a ha => congrArg Header.dataSize (hkeep a ha)
  · rw [hstart, hend]
    exact h.payload_le
  · rw [hfree, List.filter_append, List.filter_append]
    congr 1
    · congr 1
      exact List.filter_congr fun a ha => (hlisted a (hfront' a ha)).symm
    · exact List.filter_congr fun a ha => (hlisted a (hback' a ha)).symm
  · intro a ha hfreeblock
    rcases List.mem_append.mp ha with ha | ha
    · rcases List.mem_append.mp ha with ha | ha
      · rw [hfront' a ha] at hfreeblock ⊢
        exact h.free_dead a (List.mem_append_left _ (List.mem_append_left _ ha)) hfreeblock
      · exact hdead a ha hfreeblock
    · rw [hback' a ha] at hfreeblock ⊢
      exact h.free_dead a (List.mem_append_right _ ha) hfreeblock
  · intro a ha
    rw [hrelabelled] at ha
    obtain ⟨hmem, hfreeblock⟩ := h.relabelled_free a ha
    have hside := hsplit a hmem fun hin => hmid a hin ha
    refine ⟨hjoin a hside, ?_⟩
    rw [hside.elim (hfront' a) (hback' a)]
    exact hfreeblock
  · intro a ha
    rcases hevents a ha with ⟨hold, hnot⟩ | ⟨hnew, hcached⟩
    · obtain ⟨hmem, hcached⟩ := h.events_cached a hold
      have hside := hsplit a hmem hnot
      refine ⟨hjoin a hside, ?_⟩
      rw [hside.elim (hfront' a) (hback' a)]
      exact hcached
    · exact ⟨List.mem_append_left _ (List.mem_append_right _ hnew), hcached⟩

/-! ### `ExtractBlocks` -/

theorem listed_iff :
    hc.listed a = true ↔ (hc.headers a).dataType = .freeblock ∧ a ∉ hc.relabelled := by
  rw [HeapCluster.listed, Bool.and_eq_true, decide_eq_true_eq, decide_eq_true_eq]

variable {res : Nat}

theorem WellFormed.split_at (h : WellFormed hc (front ++ [res] ++ back)) :
    Tiles hc.headers.size hc.payloadStart front res ∧ 0 < hc.headers.size res ∧
      Tiles hc.headers.size (res + hc.headers.size res) back hc.payloadEnd := by
  obtain ⟨n, hleft, hback⟩ := h.tiles.of_append
  obtain ⟨m, hfront, hone⟩ := hleft.of_append
  obtain ⟨rfl, hpos, rfl⟩ := Tiles.single_iff.mp hone
  exact ⟨hfront, hpos, hback⟩

theorem WellFormed.inside {res a : Nat} (h : WellFormed hc (front ++ [res] ++ back))
    (ha : a ∈ front ++ [res] ++ back) (hle : res ≤ a) (hlt : a < res + hc.headers.size res) :
    a = res := by
  obtain ⟨hfront, _, hback⟩ := h.split_at
  rcases List.mem_append.mp ha with ha | ha
  · rcases List.mem_append.mp ha with ha | ha
    · obtain ⟨_, hpos, hend⟩ := hfront.mem ha
      omega
    · exact List.mem_singleton.mp ha
  · have hafter := (hback.mem ha).1
    omega

theorem WellFormed.take (h : WellFormed hc (front ++ [res] ++ back))
    (mid' : List Nat) (headers' : Headers) (free' : List Nat) (hlisted : hc.listed res = true)
    (hmid' : Tiles headers'.size res mid' (res + hc.headers.size res))
    (hkeep : ∀ a, a < res ∨ res + hc.headers.size res ≤ a → headers' a = hc.headers a)
    (hfree : free' = mid'.filter { hc with headers := headers' }.listed)
    (hdead : ∀ a ∈ mid', (headers' a).dataType = .freeblock → (headers' a).flags.alive = false) :
    WellFormed { hc with
      headers := headers'
      freeList := front.filter hc.listed ++ free' ++ back.filter hc.listed }
      (front ++ mid' ++ back) := by
  obtain ⟨hfront, hpos, hback⟩ := h.split_at
  obtain ⟨htype, hnot⟩ := listed_iff.mp hlisted
  refine h.replace rfl rfl rfl hfront hback hmid' hkeep ?_ hdead ?_ fun a ha => Or.inl ⟨ha, ?_⟩
  · rw [hfree]
    rfl
  · intro a ha
    rw [List.mem_singleton.mp ha]
    exact hnot
  · intro hin
    rw [List.mem_singleton.mp hin] at ha
    have hcached := (h.events_cached res ha).2.1
    rw [htype] at hcached
    exact absurd hcached (by decide)

variable {length : Nat}

theorem findBlock_some {event : Bool}
    (h : hc.findBlock event length = some res) :
    res ∈ hc.freeList ∧ length ≤ hc.headers.size res := by
  rw [HeapCluster.findBlock] at h
  cases event with
  | true =>
    have hfound := List.find?_some h
    exact ⟨List.mem_reverse.mp (List.mem_of_find?_eq_some h), of_decide_eq_true hfound⟩
  | false =>
    have hfound := List.find?_some h
    exact ⟨List.mem_of_find?_eq_some h, of_decide_eq_true hfound⟩

theorem findBlock_none {event : Bool} :
    hc.findBlock event length = none ↔ ∀ a ∈ hc.freeList, hc.headers.size a < length := by
  rw [HeapCluster.findBlock]
  cases event with
  | true => simp [List.find?_eq_none]
  | false => simp [List.find?_eq_none]

theorem WellFormed.freeList_at (h : WellFormed hc (front ++ [res] ++ back))
    (hlisted : hc.listed res = true) :
    hc.freeList = front.filter hc.listed ++ [res] ++ back.filter hc.listed := by
  rw [h.freeList_eq, List.filter_append, List.filter_append, List.filter_cons_of_pos hlisted,
    List.filter_nil]

theorem WellFormed.ne_of_free (h : WellFormed hc (front ++ [res] ++ back))
    (ha : a ∈ front.filter hc.listed ∨ a ∈ back.filter hc.listed) : a ≠ res := by
  obtain ⟨hfront, hpos, hback⟩ := h.split_at
  rintro rfl
  rcases ha with ha | ha
  · obtain ⟨_, hpos', hend⟩ := hfront.mem (List.mem_filter.mp ha).1
    omega
  · have hafter := (hback.mem (List.mem_filter.mp ha).1).1
    omega

/-- Splitting a free block in two: `first` becomes the header of the front, `second` the one of
    the back. -/
theorem tiles_two (headers : Headers) (res : Nat) {x y : Nat} (first second : Header) (hx : 0 < x)
    (hy : 0 < y) (hfirst : first.dataSize = x) (hsecond : second.dataSize = y) :
    Tiles ((headers.set (res + x) second).set res first).size res [res, res + x]
      (res + (x + y)) := by
  have hres : ((headers.set (res + x) second).set res first).size res = x := by
    rw [Headers.size, Headers.set_self, hfirst]
  have hnext : ((headers.set (res + x) second).set res first).size (res + x) = y := by
    rw [Headers.size, Headers.set_of_ne _ _ (by omega), Headers.set_self, hsecond]
  refine Tiles.cons (by rw [hres]; exact hx) ?_
  rw [hres]
  refine Tiles.single_iff.mpr ⟨rfl, by rw [hnext]; exact hy, ?_⟩
  rw [hnext, Nat.add_assoc]

variable {id : Header}

theorem WellFormed.take_front
    (h : WellFormed hc (front ++ [res] ++ back)) (hlisted : hc.listed res = true)
    (hlength : 1 ≤ length) (hless : length < hc.headers.size res) (hid : id.dataSize = length)
    (htype : id.dataType ≠ .freeblock) :
    WellFormed { hc with
      headers := (hc.headers.set (res + length) (freeId (hc.headers.size res - length))).set res id
      freeList := hc.freeList.map fun a => if a = res then res + length else a }
      (front ++ [res, res + length] ++ back) := by
  have hsize := h.size_le
    (List.mem_append_left _ (List.mem_append_right _ (List.mem_singleton_self res)))
  have hfreeSize : (freeId (hc.headers.size res - length)).dataSize =
      hc.headers.size res - length := rawId_dataSize (by omega)
  have hmap : (hc.freeList.map fun a => if a = res then res + length else a) =
      front.filter hc.listed ++ [res + length] ++ back.filter hc.listed := by
    have hid : ∀ l : List Nat, (∀ a ∈ l, a ≠ res) →
        (l.map fun a => if a = res then res + length else a) = l := by
      intro l hl
      have hsame : ∀ a ∈ l, (if a = res then res + length else a) = a :=
        fun a ha => if_neg (hl a ha)
      rw [List.map_congr_left hsame, List.map_id']
    rw [h.freeList_at hlisted, List.map_append, List.map_append,
      hid _ fun a ha => h.ne_of_free (Or.inl ha), hid _ fun a ha => h.ne_of_free (Or.inr ha),
      List.map_singleton, if_pos rfl]
  rw [hmap]
  have htiles := tiles_two hc.headers res id (freeId (hc.headers.size res - length)) hlength
    (by omega) hid hfreeSize
  have hnot : res + length ∉ hc.relabelled := by
    intro hin
    have heq := h.inside (h.relabelled_free _ hin).1 (by omega) (by omega)
    omega
  refine h.take _ _ _ hlisted (by rwa [Nat.add_sub_cancel' (by omega)] at htiles) ?_ ?_ ?_
  · intro a ha
    rw [Headers.set_of_ne _ _ (by omega), Headers.set_of_ne _ _ (by omega)]
  · rw [List.filter_cons_of_neg, List.filter_cons_of_pos, List.filter_nil]
    · refine listed_iff.mpr ⟨?_, hnot⟩
      simp only [Headers.set_of_ne _ _ (show res + length ≠ res by omega), Headers.set_self]
      rfl
    · rw [listed_iff]
      simp only [Headers.set_self]
      exact fun hfree => htype hfree.1
  · intro a ha hfree
    rcases List.mem_cons.mp ha with rfl | ha
    · rw [Headers.set_self] at hfree
      exact absurd hfree htype
    · rw [List.mem_singleton.mp ha, Headers.set_of_ne _ _ (by omega), Headers.set_self]
      rfl

theorem WellFormed.take_back
    (h : WellFormed hc (front ++ [res] ++ back)) (hlisted : hc.listed res = true)
    (hlength : 1 ≤ length) (hless : length < hc.headers.size res) (hid : id.dataSize = length)
    (htype : id.dataType ≠ .freeblock) :
    WellFormed { hc with
      headers := (hc.headers.set res (freeId (hc.headers.size res - length))).set
        (res + (hc.headers.size res - length)) id }
      (front ++ [res, res + (hc.headers.size res - length)] ++ back) := by
  have hsize := h.size_le
    (List.mem_append_left _ (List.mem_append_right _ (List.mem_singleton_self res)))
  have hfreeSize : (freeId (hc.headers.size res - length)).dataSize =
      hc.headers.size res - length := rawId_dataSize (by omega)
  generalize hrest : hc.headers.size res - length = available at *
  have hcomm : (hc.headers.set res (freeId available)).set (res + available) id =
      (hc.headers.set (res + available) id).set res (freeId available) := by
    funext a
    simp only [Headers.set]
    split_ifs <;> first | rfl | omega
  rw [hcomm]
  have htiles := tiles_two hc.headers res (freeId available) id (by omega) hlength hfreeSize hid
  have htake := h.take [res, res + available]
    ((hc.headers.set (res + available) id).set res (freeId available)) [res] hlisted
    (by rwa [show available + length = hc.headers.size res by omega] at htiles) ?_ ?_ ?_
  · rwa [← h.freeList_at hlisted] at htake
  · intro a ha
    rw [Headers.set_of_ne _ _ (by omega), Headers.set_of_ne _ _ (by omega)]
  · rw [List.filter_cons_of_pos, List.filter_cons_of_neg, List.filter_nil]
    · rw [listed_iff]
      simp only [Headers.set_of_ne _ _ (show res + available ≠ res by omega), Headers.set_self]
      exact fun hfree => htype hfree.1
    · refine listed_iff.mpr ⟨?_, (listed_iff.mp hlisted).2⟩
      simp only [Headers.set_self]
      rfl
  · intro a ha hfree
    rcases List.mem_cons.mp ha with rfl | ha
    · rw [Headers.set_self]
      rfl
    · rw [List.mem_singleton.mp ha, Headers.set_of_ne _ _ (by omega), Headers.set_self] at hfree
      exact absurd hfree htype

theorem WellFormed.take_whole
    (h : WellFormed hc (front ++ [res] ++ back)) (hlisted : hc.listed res = true)
    (hid : id.dataSize = hc.headers.size res) (htype : id.dataType ≠ .freeblock) :
    WellFormed { hc with headers := hc.headers.set res id, freeList := hc.freeList.erase res }
      (front ++ [res] ++ back) := by
  obtain ⟨_, hpos, _⟩ := h.split_at
  have herase : hc.freeList.erase res =
      front.filter hc.listed ++ [] ++ back.filter hc.listed := by
    rw [h.freeList_at hlisted, List.append_assoc,
      List.erase_append_right _ fun hin => h.ne_of_free (Or.inl hin) rfl, List.append_nil]
    simp
  rw [herase]
  have hsame : (hc.headers.set res id).size res = hc.headers.size res := by
    rw [Headers.size, Headers.set_self, hid]
  refine h.take _ _ _ hlisted (Tiles.single_iff.mpr ⟨rfl, by rw [hsame]; exact hpos, by rw [hsame]⟩)
    (fun a ha => Headers.set_of_ne _ _ (by omega)) ?_ ?_
  · rw [List.filter_cons_of_neg, List.filter_nil]
    rw [listed_iff]
    simp only [Headers.set_self]
    exact fun hfree => htype hfree.1
  · intro a ha hfree
    rw [List.mem_singleton.mp ha, Headers.set_self] at hfree
    exact absurd hfree htype

/-- What `ExtractBlocks` does to a cluster when it takes the block `res`. -/
structure Extracted (hc hc' : HeapCluster) (blocks blocks' : List Nat) (id : Header) (res : Nat) :
    Prop where
  wellFormed : WellFormed hc' blocks'
  taken : res ∈ blocks' ∧ hc'.headers res = id
  kept : ∀ a ∈ blocks, hc.InUse a → a ≠ res ∧ a ∈ blocks' ∧ hc'.headers a = hc.headers a

/-- Where only headers inside the free block `res` change, the blocks that are not free are
    kept. -/
theorem WellFormed.kept_outside (h : WellFormed hc (front ++ [res] ++ back))
    (mid' : List Nat) (headers' : Headers) (hlisted : hc.listed res = true)
    (hkeep : ∀ a, a < res ∨ res + hc.headers.size res ≤ a → headers' a = hc.headers a)
    (ha : a ∈ front ++ [res] ++ back) (hused : (hc.headers a).dataType ≠ .freeblock) :
    (a < res ∨ res + hc.headers.size res ≤ a) ∧ a ∈ front ++ mid' ++ back ∧
      headers' a = hc.headers a := by
  have hne : a ≠ res := fun heq => hused (heq ▸ (listed_iff.mp hlisted).1)
  have hout : a < res ∨ res + hc.headers.size res ≤ a := by
    by_contra hin
    rw [not_or, not_lt, not_le] at hin
    exact hne (h.inside ha hin.1 hin.2)
  refine ⟨hout, ?_, hkeep a hout⟩
  simp only [List.mem_append, List.mem_singleton] at ha ⊢
  rcases ha with (ha | ha) | ha
  · exact Or.inl (Or.inl ha)
  · exact absurd ha hne
  · exact Or.inr ha

/-- `ExtractBlocks` fails, or takes a block out of the free list and keeps all that are not
    free. -/
theorem extractBlocks_takes (h : WellFormed hc blocks) (dataType : DataType) (flags : Flags)
    (length : Nat) (htype : dataType ≠ .freeblock) (hlength : 1 ≤ length) :
    (hc.extractBlocks dataType flags length = (hc, none) ∧
      ∀ a ∈ hc.freeList, hc.headers.size a < length) ∨
    ∃ blocks' res, (hc.extractBlocks dataType flags length).2 = some res ∧ length ≤ HB_MaxSize ∧
      WellFormed (hc.extractBlocks dataType flags length).1 blocks' ∧
      (res ∈ blocks' ∧ (hc.extractBlocks dataType flags length).1.headers res =
        rawId dataType flags length) ∧
      ∀ a ∈ blocks, (hc.headers a).dataType ≠ .freeblock → a ≠ res ∧ a ∈ blocks' ∧
        (hc.extractBlocks dataType flags length).1.headers a = hc.headers a := by
  rw [HeapCluster.extractBlocks]
  cases hfind : hc.findBlock flags.event length with
  | none => exact Or.inl ⟨rfl, findBlock_none.mp hfind⟩
  | some res =>
    right
    obtain ⟨hmem, hlarge⟩ := findBlock_some hfind
    rw [h.freeList_eq] at hmem
    obtain ⟨hmem, hlisted⟩ := List.mem_filter.mp hmem
    obtain ⟨front, back, rfl⟩ := List.append_of_mem hmem
    rw [List.append_cons] at h ⊢
    have hsize := h.size_le
      (List.mem_append_left _ (List.mem_append_right _ (List.mem_singleton_self res)))
    have hid : (rawId dataType flags length).dataSize = length := rawId_dataSize (by omega)
    have hmax : length ≤ HB_MaxSize := by omega
    by_cases hexact : hc.headers.size res - length = 0
    · simp only [hexact, ne_eq, not_true_eq_false, if_false]
      refine ⟨_, res, rfl, hmax, h.take_whole hlisted (by rw [hid]; omega) htype, ⟨by simp, ?_⟩,
        fun a ha hused => ?_⟩
      · exact Headers.set_self _ _ _
      · obtain ⟨hout, hkept⟩ := h.kept_outside [res]
          (hc.headers.set res (rawId dataType flags length)) hlisted
          (fun a ha => Headers.set_of_ne _ _ (by omega)) ha hused
        exact ⟨by omega, hkept⟩
    · simp only [ne_eq, hexact, not_false_eq_true, if_true]
      cases flags.event with
      | true =>
        refine ⟨_, _, rfl, hmax, h.take_back hlisted hlength (by omega) hid htype, ⟨by simp, ?_⟩,
          fun a ha hused => ?_⟩
        · exact Headers.set_self _ _ _
        · obtain ⟨hout, hkept⟩ := h.kept_outside
            [res, res + (hc.headers.size res - length)]
            ((hc.headers.set res (freeId (hc.headers.size res - length))).set
              (res + (hc.headers.size res - length)) (rawId dataType flags length)) hlisted
            (fun a ha => by
              rw [Headers.set_of_ne _ _ (by omega), Headers.set_of_ne _ _ (by omega)]) ha hused
          exact ⟨by omega, hkept⟩
      | false =>
        refine ⟨_, res, rfl, hmax, h.take_front hlisted hlength (by omega) hid htype,
          ⟨by simp, ?_⟩, fun a ha hused => ?_⟩
        · exact Headers.set_self _ _ _
        · obtain ⟨hout, hkept⟩ := h.kept_outside [res, res + length]
            ((hc.headers.set (res + length)
              (freeId (hc.headers.size res - length))).set res (rawId dataType flags length))
            hlisted (fun a ha => by
              rw [Headers.set_of_ne _ _ (by omega), Headers.set_of_ne _ _ (by omega)]) ha hused
          exact ⟨by omega, hkept⟩

theorem extractBlocks_spec (h : WellFormed hc blocks) (dataType : DataType) (flags : Flags)
    (length : Nat) (htype : dataType ≠ .freeblock) (hlength : 1 ≤ length) :
    (hc.extractBlocks dataType flags length = (hc, none) ∧
      ∀ a ∈ hc.freeList, hc.headers.size a < length) ∨
    ∃ blocks' res, (hc.extractBlocks dataType flags length).2 = some res ∧ length ≤ HB_MaxSize ∧
      Extracted hc (hc.extractBlocks dataType flags length).1 blocks blocks'
        (rawId dataType flags length) res := by
  rcases extractBlocks_takes h dataType flags length htype hlength with
    hnone | ⟨blocks', res, hres, hmax, hwf, htaken, hkept⟩
  · exact Or.inl hnone
  · exact Or.inr ⟨blocks', res, hres, hmax, hwf, htaken, fun a ha huse => hkept a ha huse.1⟩

/-! ### `InsertInOrder` -/

/-- `node` up to `node + size` is allocated: blocks neither free nor in the event cache. -/
structure Allocated (hc : HeapCluster) (front mid back : List Nat) (node size : Nat) : Prop where
  front_tiles : Tiles hc.headers.size hc.payloadStart front node
  region_tiles : Tiles hc.headers.size node mid (node + size)
  back_tiles : Tiles hc.headers.size (node + size) back hc.payloadEnd
  size_pos : 0 < size
  not_free : ∀ a ∈ mid, (hc.headers a).dataType ≠ .freeblock
  not_cached : ∀ a ∈ mid, (hc.headers a).dataType ≠ .cachedblock

variable {node : Nat}

theorem Allocated.freeList_cut {size : Nat} (h : WellFormed hc (front ++ mid ++ back))
    (hreg : Allocated hc front mid back node size) :
    (hc.freeList.takeWhile fun ptr => ¬ ptr > node) = front.filter hc.listed ∧
      (hc.freeList.dropWhile fun ptr => ¬ ptr > node) = back.filter hc.listed := by
  have hmid : mid.filter hc.listed = [] := by
    refine List.filter_eq_nil_iff.mpr fun a ha => ?_
    rw [listed_iff]
    exact fun hfree => hreg.not_free a ha hfree.1
  have hfree : hc.freeList = front.filter hc.listed ++ back.filter hc.listed := by
    rw [h.freeList_eq, List.filter_append, List.filter_append, hmid, List.append_nil]
  have hfront : ∀ a ∈ front.filter hc.listed, decide (¬ a > node) = true := by
    intro a ha
    obtain ⟨_, _, hend⟩ := hreg.front_tiles.mem (List.mem_filter.mp ha).1
    exact decide_eq_true (by omega)
  have hback : ∀ a ∈ (back.filter hc.listed).head?, decide (¬ a > node) = false := by
    intro a ha
    have hafter := (hreg.back_tiles.mem (List.mem_filter.mp (List.mem_of_mem_head? ha)).1).1
    have hpos := hreg.size_pos
    exact decide_eq_false (by omega)
  rw [hfree, List.takeWhile_append_of_pos hfront, List.dropWhile_append_of_pos hfront]
  cases hcut : back.filter hc.listed with
  | nil => exact ⟨List.append_nil _, rfl⟩
  | cons a rest =>
    have hnot := hback a (by rw [hcut]; rfl)
    rw [List.takeWhile_cons_of_neg (by rw [hnot]; decide),
      List.dropWhile_cons_of_neg (by rw [hnot]; decide)]
    exact ⟨List.append_nil _, rfl⟩

variable {headers : Headers}

/-- The following free block is merged if it starts where the region ends. -/
theorem coalesceFollowing_spec {p : Nat → Bool} {next stop : Nat}
    (size : Nat) (hback : Tiles headers.size next back stop) :
    ∃ merged rest next', back = merged ++ rest ∧ Tiles headers.size next merged next' ∧
      Tiles headers.size next' rest stop ∧ (∀ a ∈ merged, p a = true) ∧
      coalesceFollowing headers next size (back.filter p) =
        (size + (next' - next), rest.filter p) := by
  cases hcut : back.filter p with
  | nil =>
    refine ⟨[], back, next, rfl, Tiles.nil next, hback, by simp, ?_⟩
    rw [coalesceFollowing, hcut, Nat.sub_self, Nat.add_zero]
  | cons ptr rest =>
    rw [coalesceFollowing]
    by_cases htouch : next = ptr
    · rw [if_pos htouch]
      cases hback with
      | nil => simp at hcut
      | @cons _ _ back' hpos hrest =>
        obtain ⟨hmem, hp⟩ := List.mem_filter.mp (show ptr ∈ (next :: back').filter p by
          rw [hcut]; exact List.mem_cons_self)
        rw [← htouch] at hp
        rw [List.filter_cons_of_pos hp] at hcut
        obtain ⟨rfl, rfl⟩ := List.cons.inj hcut
        refine ⟨[next], back', next + headers.size next, rfl,
          Tiles.single_iff.mpr ⟨rfl, hpos, rfl⟩, hrest, by simpa using hp, ?_⟩
        rw [Nat.add_sub_cancel_left]
    · refine ⟨[], back, next, rfl, Tiles.nil next, hback, by simp, ?_⟩
      rw [if_neg htouch, hcut, Nat.sub_self, Nat.add_zero]

/-- The preceding free block is merged if the region starts where it ends. -/
theorem coalescePreceding_spec {p : Nat → Bool} {start : Nat}
    (size : Nat) (hfront : Tiles headers.size start front node) :
    ∃ rest merged node', front = rest ++ merged ∧ Tiles headers.size start rest node' ∧
      Tiles headers.size node' merged node ∧ (∀ a ∈ merged, p a = true) ∧
      coalescePreceding headers node size (front.filter p) =
        (node', size + (node - node'), rest.filter p) := by
  cases hcut : (front.filter p).getLast? with
  | none =>
    refine ⟨front, [], node, (List.append_nil _).symm, hfront, Tiles.nil node, by simp, ?_⟩
    rw [coalescePreceding, hcut]
    simp
  | some ptr =>
    rw [coalescePreceding, hcut]
    by_cases htouch : ptr + headers.size ptr = node
    · obtain ⟨init, hinit⟩ := List.getLast?_eq_some_iff.mp hcut
      obtain ⟨hmem, hp⟩ := List.mem_filter.mp (show ptr ∈ front.filter p by
        rw [hinit]; exact List.mem_append_right _ (List.mem_singleton_self ptr))
      obtain ⟨rest, after, rfl⟩ := List.append_of_mem hmem
      obtain ⟨m, hrest, htail⟩ := hfront.of_append
      obtain ⟨rfl, hpos, hafter⟩ := Tiles.cons_iff.mp htail
      rw [htouch] at hafter
      have hnil : after = [] := by
        cases hafter with
        | nil => rfl
        | cons hpos' hrest' => exact absurd hrest'.le (by omega)
      subst hnil
      refine ⟨rest, [ptr], ptr, rfl, hrest, Tiles.single_iff.mpr ⟨rfl, hpos, htouch⟩,
        by simpa using hp, ?_⟩
      simp only [htouch, if_true, List.filter_append, List.filter_cons_of_pos hp, List.filter_nil,
        List.dropLast_concat]
      congr 2
      omega
    · refine ⟨front, [], node, (List.append_nil _).symm, hfront, Tiles.nil node, by simp, ?_⟩
      simp [htouch]

/-- An allocated region that is inserted becomes a free block, with the free blocks it touches;
    the blocks in use outside of it are kept. -/
theorem insertInOrder_spec {size : Nat} (h : WellFormed hc (front ++ mid ++ back))
    (hreg : Allocated hc front mid back node size) :
    ∃ blocks', WellFormed (hc.insertInOrder node size).1 blocks' ∧
      ∀ a ∈ front ++ mid ++ back, hc.InUse a → a < node ∨ node + size ≤ a → a ∈ blocks' ∧
        (hc.insertInOrder node size).1.headers a = hc.headers a := by
  obtain ⟨hbefore, hbehind⟩ := hreg.freeList_cut h
  obtain ⟨after, back', stop, rfl, hafter, hback, hafterListed, hfollowing⟩ :=
    coalesceFollowing_spec (p := hc.listed) size hreg.back_tiles
  obtain ⟨front', prior, start, rfl, hfront, hprior, hpriorListed, hpreceding⟩ :=
    coalescePreceding_spec (p := hc.listed) (size + (stop - (node + size))) hreg.front_tiles
  have hstart := hprior.le
  have hstop := hafter.le
  have hspan : size + (stop - (node + size)) + (node - start) = stop - start := by omega
  have hdef : hc.insertInOrder node size =
      ({ hc with
          headers := hc.headers.set start (freeId (stop - start))
          freeList := front'.filter hc.listed ++ start :: back'.filter hc.listed }, start) := by
    rw [HeapCluster.insertInOrder]
    simp only [hbefore, hbehind, hfollowing, hpreceding, hspan]
  rw [hdef]
  have hblocks : front' ++ prior ++ mid ++ (after ++ back') =
      front' ++ (prior ++ mid ++ after) ++ back' := by simp
  rw [hblocks] at h
  have hpos := hreg.size_pos
  have hle := h.payload_le
  have hbehind := hback.le
  have hahead := hfront.le
  have hid : (freeId (stop - start)).dataSize = stop - start := rawId_dataSize (by omega)
  have hsize : (hc.headers.set start (freeId (stop - start))).size start = stop - start := by
    rw [Headers.size, Headers.set_self, hid]
  have hinside : ∀ a ∈ prior ++ mid ++ after, a ∉ hc.relabelled ∧ a ∉ hc.events := by
    intro a ha
    have hlistedCase : hc.listed a = true → a ∉ hc.relabelled ∧ a ∉ hc.events := by
      intro hlisted
      obtain ⟨hfree, hnot⟩ := listed_iff.mp hlisted
      refine ⟨hnot, fun hin => ?_⟩
      rw [(h.events_cached a hin).2.1] at hfree
      exact absurd hfree (by decide)
    rcases List.mem_append.mp ha with ha | ha
    · rcases List.mem_append.mp ha with ha | ha
      · exact hlistedCase (hpriorListed a ha)
      · exact ⟨fun hin => hreg.not_free a ha (h.relabelled_free a hin).2,
          fun hin => hreg.not_cached a ha (h.events_cached a hin).2.1⟩
    · exact hlistedCase (hafterListed a ha)
  have hstartNot : start ∉ hc.relabelled := by
    have hregion := (hprior.append hreg.region_tiles).append hafter
    cases hwhole : prior ++ mid ++ after with
    | nil =>
      rw [hwhole] at hregion
      exact absurd (show start = stop by cases hregion; rfl) (by omega)
    | cons x xs =>
      rw [hwhole] at hregion
      have hx := (Tiles.cons_iff.mp hregion).1
      refine (hinside start ?_).1
      rw [hwhole, ← hx]
      exact List.mem_cons_self
  have hwf : WellFormed { hc with
      headers := hc.headers.set start (freeId (stop - start))
      freeList := front'.filter hc.listed ++ start :: back'.filter hc.listed }
      (front' ++ [start] ++ back') := by
    refine h.replace rfl rfl rfl hfront hback
      (Tiles.single_iff.mpr ⟨rfl, by rw [hsize]; omega, by rw [hsize]; omega⟩)
      (fun a ha => Headers.set_of_ne _ _ (by omega)) ?_ ?_ (fun a ha => (hinside a ha).1)
      fun a ha => Or.inl ⟨ha, fun hin => (hinside a hin).2 ha⟩
    · rw [List.filter_cons_of_pos, List.filter_nil, List.append_assoc]
      · rfl
      · refine listed_iff.mpr ⟨?_, hstartNot⟩
        simp only [Headers.set_self]
        rfl
    · intro a ha _
      rw [List.mem_singleton.mp ha]
      simp only [Headers.set_self]
      rfl
  refine ⟨_, hwf, fun a ha huse hout => ?_⟩
  have hnotListed : hc.listed a ≠ true := fun hlisted => huse.1 (listed_iff.mp hlisted).1
  have hside : a ∈ front' ∨ a ∈ back' := by
    rw [hblocks] at ha
    simp only [List.mem_append] at ha
    rcases ha with (ha | (ha | ha) | ha) | ha
    · exact Or.inl ha
    · exact absurd (hpriorListed a ha) hnotListed
    · have hin := hreg.region_tiles.mem ha
      omega
    · exact absurd (hafterListed a ha) hnotListed
    · exact Or.inr ha
  have hne : a ≠ start := by
    rcases hside with ha | ha
    · have hin := hfront.mem ha
      omega
    · have hin := hback.mem ha
      omega
  refine ⟨?_, Headers.set_of_ne _ _ hne⟩
  rcases hside with ha | ha
  · exact List.mem_append_left _ (List.mem_append_left _ ha)
  · exact List.mem_append_right _ ha

/-! ### The event cache -/

theorem WellFormed.relabel (h : WellFormed hc blocks) (hc' : HeapCluster)
    (hstart : hc'.payloadStart = hc.payloadStart)
    (hend : hc'.payloadEnd = hc.payloadEnd)
    (hsize : ∀ a ∈ blocks, hc'.headers.size a = hc.headers.size a) :
    Tiles hc'.headers.size hc'.payloadStart blocks hc'.payloadEnd ∧
      hc'.payloadEnd ≤ hc'.payloadStart + HB_MaxSize := by
  rw [hstart, hend]
  exact ⟨h.tiles.congr hsize, h.payload_le⟩

theorem appendNode_wellFormed (h : WellFormed hc blocks) (hmem : node ∈ blocks)
    (hused : (hc.headers node).dataType ≠ .freeblock) :
    WellFormed (hc.appendNode node) blocks := by
  have hnode : ∀ a, (hc.appendNode node).headers a =
      if a = node then { hc.headers node with dataType := .cachedblock, flags := eventFlags }
      else hc.headers a := fun _ => rfl
  have hfreeblock : ∀ a, ((hc.appendNode node).headers a).dataType = .freeblock ↔
      (hc.headers a).dataType = .freeblock := by
    intro a
    rw [hnode]
    by_cases ha : a = node
    · subst ha
      simp [hused]
    · rw [if_neg ha]
  obtain ⟨htiles, hle⟩ := h.relabel (hc.appendNode node) rfl rfl fun a _ => by
    rw [Headers.size, hnode]
    by_cases ha : a = node
    · rw [if_pos ha, ha]
      rfl
    · rw [if_neg ha]
      rfl
  refine ⟨htiles, hle, ?_, ?_, ?_, ?_⟩
  · refine h.freeList_eq.trans (List.filter_congr fun a _ => ?_)
    rw [Bool.eq_iff_iff, listed_iff, listed_iff, hfreeblock]
    rfl
  · intro a ha hfree
    rw [hfreeblock] at hfree
    rw [hnode, if_neg fun heq : a = node => hused (heq ▸ hfree)]
    exact h.free_dead a ha hfree
  · intro a ha
    rw [hfreeblock]
    exact h.relabelled_free a ha
  · intro a ha
    rw [hnode]
    by_cases heq : a = node
    · rw [if_pos heq, heq]
      exact ⟨hmem, rfl, rfl⟩
    · rw [if_neg heq]
      rcases List.mem_append.mp ha with ha | ha
      · exact h.events_cached a ha
      · exact absurd (List.mem_singleton.mp ha) heq

theorem appendNode_of_ne (hc : HeapCluster) (h : a ≠ node) :
    (hc.appendNode node).headers a = hc.headers a := Headers.set_of_ne _ _ h

theorem foldl_freeId (events : List Nat)
    (hsize : ∀ a ∈ events, headers.size a ≤ HB_MaxSize) (a : Nat) :
    events.foldl (fun headers ptr => headers.set ptr (freeId (headers.size ptr))) headers a =
      if a ∈ events then freeId (headers.size a) else headers a := by
  induction events generalizing headers with
  | nil => simp
  | cons ptr events ih =>
    have hid : (freeId (headers.size ptr)).dataSize = headers.size ptr :=
      rawId_dataSize (hsize ptr List.mem_cons_self)
    have hsame : ∀ x, (headers.set ptr (freeId (headers.size ptr))).size x = headers.size x := by
      intro x
      by_cases hx : x = ptr
      · rw [hx, Headers.size, Headers.set_self, hid]
      · rw [Headers.size, Headers.set_of_ne _ _ hx]
        rfl
    rw [List.foldl_cons, ih fun x hx => by
      rw [hsame]
      exact hsize x (List.mem_cons_of_mem ptr hx), hsame]
    by_cases ha : a ∈ events
    · rw [if_pos ha, if_pos (List.mem_cons_of_mem ptr ha)]
    · rw [if_neg ha]
      by_cases heq : a = ptr
      · rw [heq, Headers.set_self, if_pos List.mem_cons_self]
      · rw [Headers.set_of_ne _ _ heq, if_neg (by simp [heq, ha])]

theorem WellFormed.cleanup_headers (h : WellFormed hc blocks) (a : Nat) :
    hc.eventCacheCleanup.headers a =
      if a ∈ hc.events then freeId (hc.headers.size a) else hc.headers a :=
  foldl_freeId hc.events (fun a ha => (h.size_le (h.events_cached a ha).1).2) a

theorem WellFormed.cleanup_of_inUse (h : WellFormed hc blocks) (huse : hc.InUse a) :
    hc.eventCacheCleanup.headers a = hc.headers a := by
  rw [h.cleanup_headers, if_neg fun hin => huse.2 (h.events_cached a hin).2.1]

theorem eventCacheCleanup_wellFormed (h : WellFormed hc blocks) :
    WellFormed hc.eventCacheCleanup blocks := by
  have hheaders := h.cleanup_headers
  have hevent : ∀ a ∈ hc.events, (hc.headers a).dataType ≠ .freeblock := by
    intro a ha hfree
    rw [(h.events_cached a ha).2.1] at hfree
    exact absurd hfree (by decide)
  obtain ⟨htiles, hle⟩ := h.relabel hc.eventCacheCleanup rfl rfl fun a ha => by
    rw [Headers.size, hheaders]
    by_cases hin : a ∈ hc.events
    · rw [if_pos hin]
      exact rawId_dataSize (h.size_le ha).2
    · rw [if_neg hin]
      rfl
  refine ⟨htiles, hle, ?_, ?_, ?_, ?_⟩
  · refine h.freeList_eq.trans (List.filter_congr fun a _ => ?_)
    rw [Bool.eq_iff_iff, listed_iff, listed_iff, hheaders]
    change _ ↔ _ ∧ a ∉ hc.relabelled ++ hc.events
    rw [List.mem_append, not_or]
    by_cases hin : a ∈ hc.events
    · exact ⟨fun hlisted => absurd hlisted.1 (hevent a hin), fun hlisted => absurd hin hlisted.2.2⟩
    · rw [if_neg hin]
      exact ⟨fun hlisted => ⟨hlisted.1, hlisted.2, hin⟩, fun hlisted => ⟨hlisted.1, hlisted.2.1⟩⟩
  · intro a ha hfree
    rw [hheaders] at hfree ⊢
    by_cases hin : a ∈ hc.events
    · rw [if_pos hin]
      rfl
    · rw [if_neg hin] at hfree ⊢
      exact h.free_dead a ha hfree
  · intro a ha
    rw [hheaders]
    rcases List.mem_append.mp ha with ha | ha
    · obtain ⟨hmem, hfree⟩ := h.relabelled_free a ha
      rw [if_neg fun hin => hevent a hin hfree]
      exact ⟨hmem, hfree⟩
    · rw [if_pos ha]
      exact ⟨(h.events_cached a ha).1, rfl⟩
  · intro a ha
    exact absurd ha List.not_mem_nil

end TinyClr.Heap
