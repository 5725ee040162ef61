import TinyClr.Core.EventCacheSpec

/-!
# Runs of the event cache

`EventCache_Cleanup` and a collection keep the invariant, and so does every request; so the cache
is sound after every run whose requests in bytes do not overflow when they are rounded up, and
hands no block out twice.
-/

namespace TinyClr.Heap.EventCache

open TinyClr.Library

variable {s : EventCache} {blocks : Nat → List Nat}

/-! ### `EventCache_Cleanup` -/

variable {ptr : Ptr}

theorem CacheOk.drop (h : CacheOk s blocks) {rest : List (Block Nat)}
    (hb : s.extracted = (ptr, s.dataSize ptr) :: rest) :
    CacheOk { s.freeNode ptr with extracted := rest } blocks := by
  obtain ⟨hforget, hnot⟩ := h.forget hb
  have hheld : ptr ∈ s.held :=
    @mem_held_of_extracted s (ptr, s.dataSize ptr) (by rw [hb]; exact List.mem_cons_self)
  obtain ⟨hheap, hmem, hused, -, -⟩ := h.heldOk ptr hheld
  have hset := hforget.setCluster (c := ptr.1) ((h.wellFormed _ hheap).discard
    (h.events _ hheap) hmem hused) (h.events _ hheap) fun a ha => ?_
  · rwa [Function.update_eq_self] at hset
  · have hne : a ≠ ptr.2 := by
      intro heq
      subst heq
      exact hnot ha
    obtain ⟨-, hmemA, hnode⟩ := hforget.heldOk _ ha
    have hsame := Headers.set_of_ne (s.clusters ptr.1).headers (freeId (s.dataSize ptr)) hne
    exact ⟨hmemA, (congrArg IsNode hsame).mpr hnode, congrArg Header.dataSize hsame⟩

theorem freeNodes_ok {i : Nat} (hi : i < c_maxFastLists) : ∀ (ptrs : List Ptr) (t : EventCache)
    (tot : UInt32), CacheOk { t with m_events := Function.update t.m_events i ptrs } blocks →
    CacheOk { (freeNodes ptrs (t, tot)).1 with
      m_events := Function.update (freeNodes ptrs (t, tot)).1.m_events i [] } blocks := by
  intro ptrs
  induction ptrs with
  | nil => exact fun t tot h => h
  | cons ptr rest ih =>
    intro t tot h
    refine ih (t.freeNode ptr) _ ?_
    have hptr : ptr ∈ Function.update t.m_events i (ptr :: rest) i := by
      rw [Function.update_self]
      exact List.mem_cons_self
    have hdrop := (h.unfile hi hptr).drop rfl
    have hlists : Function.update (Function.update t.m_events i (ptr :: rest)) i
        ((Function.update t.m_events i (ptr :: rest) i).erase ptr) =
        Function.update t.m_events i rest := by
      rw [Function.update_idem, Function.update_self, List.erase_cons_head]
    exact (congrArg (fun m => CacheOk { t.freeNode ptr with m_events := m } blocks) hlists).mp hdrop

theorem freeNodes_extracted : ∀ (ptrs : List Ptr) (t : EventCache) (tot : UInt32),
    (freeNodes ptrs (t, tot)).1.extracted = t.extracted := by
  intro ptrs
  induction ptrs with
  | nil => exact fun t tot => rfl
  | cons ptr rest ih => exact fun t tot => ih (t.freeNode ptr) _

theorem cleanupLists_ok : ∀ (lists : List Nat) (t : EventCache) (tot : UInt32),
    (∀ i ∈ lists, i < c_maxFastLists) → CacheOk t blocks →
    CacheOk (cleanupLists lists (t, tot)).1 blocks ∧
      (cleanupLists lists (t, tot)).1.extracted = t.extracted := by
  intro lists
  induction lists with
  | nil => exact fun t tot _ h => ⟨h, rfl⟩
  | cons i rest ih =>
    intro t tot hlists h
    have hsame : { t with m_events := Function.update t.m_events i (t.m_events i) } = t := by
      rw [Function.update_eq_self]
    have hempty := freeNodes_ok (hlists i List.mem_cons_self) (t.m_events i) t tot
      ((congrArg (CacheOk · blocks) hsame).mpr h)
    have hrest := ih _ (freeNodes (t.m_events i) (t, tot)).2
      (fun j hj => hlists j (List.mem_cons_of_mem i hj)) hempty
    exact ⟨hrest.1, hrest.2.trans (freeNodes_extracted (t.m_events i) t tot)⟩

theorem CacheOk.cleanup (h : CacheOk s blocks) : CacheOk s.eventCacheCleanup.1 blocks ∧
    s.eventCacheCleanup.1.extracted = s.extracted := by
  rw [eventCacheCleanup]
  exact cleanupLists_ok (List.range c_maxFastLists) s 0 (fun _ hi => List.mem_range.mp hi) h

/-! ### `PerformGarbageCollection` -/

/-- What the callers keep to: the nodes given back in a collection are extracted. -/
def Releasable (s : EventCache) (gc : Collection) : Prop :=
  gc.released.Nodup ∧ ∀ ptr ∈ gc.released, ptr ∈ s.extracted.map Prod.fst

theorem CacheOk.mark (h : CacheOk s blocks) (gc : Collection) : CacheOk (s.mark gc) blocks := by
  refine h.frame _ (fun c hc => ⟨(h.wellFormed c hc).mark (h.events c hc) _, h.events c hc⟩)
    fun q hq => ?_
  obtain ⟨-, hmem, htype, halive, hevent⟩ := h.heldOk q hq
  obtain ⟨hsame, hsize, -, -⟩ := mark_spec (s.clusters q.1) (gc.aliveIn q.1) q.2
  refine ⟨hmem, ⟨fun hfree => htype (hsame.symm.trans hfree), ?_⟩, hsize⟩
  change (((s.clusters q.1).mark (gc.aliveIn q.1)).headers q.2).flags.alive = true ∧
    (((s.clusters q.1).mark (gc.aliveIn q.1)).headers q.2).flags.event = true
  rw [HeapCluster.mark]
  simp only
  split_ifs
  · exact ⟨rfl, hevent⟩
  · exact ⟨halive, hevent⟩

theorem giveBacks_ok : ∀ (ptrs : List Ptr) (t : EventCache), ptrs.Nodup →
    (∀ ptr ∈ ptrs, ptr ∈ t.extracted.map Prod.fst) → CacheOk t blocks →
    CacheOk (ptrs.foldl giveBack t) blocks := by
  intro ptrs
  induction ptrs with
  | nil => exact fun t _ _ h => h
  | cons ptr rest ih =>
    intro t hnodup hmem h
    obtain ⟨hnot, hrest⟩ := List.nodup_cons.mp hnodup
    obtain ⟨b, hb, rfl⟩ := List.mem_map.mp (hmem ptr List.mem_cons_self)
    rw [List.foldl_cons]
    refine ih _ hrest (fun q hq => ?_) (h.giveBack hb)
    obtain ⟨x, hx, rfl⟩ := List.mem_map.mp (hmem q (List.mem_cons_of_mem b.1 hq))
    refine List.mem_map_of_mem ((List.mem_eraseP_of_neg ?_).mpr hx)
    intro heq
    exact hnot (of_decide_eq_true heq ▸ hq)

theorem recoverFromGC_ok : ∀ (cs : List Nat) (t : EventCache), (∀ c ∈ cs, c ∈ t.m_heap) → t.Ok →
    ∃ t', recoverFromGC cs t = some t' ∧ t'.Ok := by
  intro cs
  induction cs with
  | nil => exact fun t _ h => ⟨t, rfl, h⟩
  | cons c rest ih =>
    rintro t hcs ⟨blocks, h⟩
    have hheap := hcs c List.mem_cons_self
    obtain ⟨hc', bs', heq, hwf, hevents, hkept⟩ :=
      (h.wellFormed c hheap).collect (h.events c hheap)
    have hnext := h.setCluster hwf hevents fun a ha => by
      obtain ⟨-, hmem, hnode⟩ := h.heldOk _ ha
      obtain ⟨hin, hsame⟩ := hkept a hmem hnode.2.1 hnode.2.2
      exact ⟨hin, (congrArg IsNode hsame).mpr hnode, congrArg Header.dataSize hsame⟩
    obtain ⟨t', hrec, hok⟩ := ih (t.setCluster c hc')
      (fun d hd => hcs d (List.mem_cons_of_mem c hd)) ⟨_, hnext⟩
    refine ⟨t', ?_, hok⟩
    rw [recoverFromGC, heq]
    exact hrec

variable {gc : Collection}

theorem performGarbageCollection_ok (h : s.Ok) (hgc : s.Releasable gc) :
    ∃ s', s.performGarbageCollection gc = some s' ∧ s'.Ok := by
  obtain ⟨blocks, h⟩ := h
  obtain ⟨hclean, hextracted⟩ := h.cleanup
  rw [performGarbageCollection]
  generalize s.eventCacheCleanup.1 = cleaned at hclean hextracted ⊢
  refine recoverFromGC_ok _ _ (fun c hc => hc) ⟨blocks, giveBacks_ok _ _ hgc.1 (fun ptr hptr => ?_)
    (hclean.mark gc)⟩
  change ptr ∈ cleaned.extracted.map Prod.fst
  rw [hextracted]
  exact hgc.2 ptr hptr

/-! ### Requests -/

variable {dataType : DataType} {length : Nat}

theorem extractBlocks_ok (htype : dataType ≠ .freeblock) {flags : Flags}
    (halive : flags.alive = true) (hevent : flags.event = true)
    (hlength : 1 ≤ length) : ∀ (cs : List Nat) (t : EventCache), (∀ c ∈ cs, c ∈ t.m_heap) → t.Ok →
    extractBlocks dataType flags length cs t = (t, none) ∨
      ∃ t' hb, extractBlocks dataType flags length cs t = (t', some hb) ∧
        { t' with
          extracted := (hb, length) :: t'.extracted
          taken := (hb, length) :: t'.taken }.Ok := by
  intro cs
  induction cs with
  | nil => exact fun t _ _ => Or.inl rfl
  | cons c rest ih =>
    rintro t hcs ⟨blocks, h⟩
    have hheap := hcs c List.mem_cons_self
    rw [extractBlocks]
    rcases extractBlocks_takes (h.wellFormed c hheap) dataType flags length htype hlength with
      ⟨hnone, -⟩ | ⟨bs', res, hres, hmax, hwf, ⟨hmem, hid⟩, hkept⟩
    · rw [hnone]
      exact ih t (fun d hd => hcs d (List.mem_cons_of_mem c hd)) ⟨blocks, h⟩
    · right
      have hevents := (extractBlocks_events dataType flags length).trans (h.events c hheap)
      generalize (t.clusters c).extractBlocks dataType flags length = taken at *
      obtain ⟨hc', found⟩ := taken
      obtain rfl : found = some res := hres
      refine ⟨t.setCluster c hc', (c, res), rfl, Function.update blocks c bs', ?_⟩
      have hkeptHeld : ∀ a, (c, a) ∈ t.held →
          a ≠ res ∧ a ∈ bs' ∧ hc'.headers a = (t.clusters c).headers a := by
        intro a ha
        obtain ⟨-, hmemA, htypeA, -, -⟩ := h.heldOk _ ha
        exact hkept a hmemA htypeA
      have hset := h.setCluster hwf hevents fun a ha => by
        obtain ⟨-, hin, hsame⟩ := hkeptHeld a ha
        obtain ⟨-, -, hnode⟩ := h.heldOk _ ha
        exact ⟨hin, (congrArg IsNode hsame).mpr hnode, congrArg Header.dataSize hsame⟩
      have hnew : (t.setCluster c hc').header (c, res) = rawId dataType flags length := by
        rw [header, setCluster]
        simp only [Function.update_self]
        exact hid
      have hin : res ∈ Function.update blocks c bs' c := by
        rw [Function.update_self]
        exact hmem
      have hnode : IsNode ((t.setCluster c hc').header (c, res)) := by
        rw [hnew]
        exact ⟨htype, halive, hevent⟩
      have htake := hset.take hheap hin hnode fun hheld => (hkeptHeld res hheld).1 rfl
      rw [dataSize, hnew, rawId_dataSize hmax] at htake
      exact htake

theorem extractHeapBlocks_ok (h : s.Ok) (htype : dataType ≠ .freeblock)
    (flags : RequestFlags) (halive : flags.header.alive = true) (hevent : flags.header.event = true)
    (hlength : 1 ≤ length) (hgc : s.Releasable gc) :
    ∃ s' found, s.extractHeapBlocks dataType flags length gc = some (s', found) ∧
      ((found = none ∧ s'.Ok) ∨ ∃ hb, found = some hb ∧
        { s' with
          extracted := (hb, length) :: s'.extracted
          taken := (hb, length) :: s'.taken }.Ok) := by
  have hloop := fun (t : EventCache) => extractBlocks_ok htype halive hevent hlength
    t.m_heap.reverse t fun _ hc => List.mem_reverse.mp hc
  rw [extractHeapBlocks]
  rcases hloop s h with hnone | ⟨s', hb, hsome, hok⟩
  · rw [hnone]
    simp only
    split_ifs
    · exact ⟨s, none, rfl, Or.inl ⟨rfl, h⟩⟩
    · obtain ⟨t, hcollect, hokT⟩ := performGarbageCollection_ok h hgc
      rw [hcollect]
      rcases hloop t hokT with hnone' | ⟨t', hb, hsome, hok⟩
      · exact ⟨t, none, congrArg some hnone', Or.inl ⟨rfl, hokT⟩⟩
      · exact ⟨t', some hb, congrArg some hsome, Or.inr ⟨hb, rfl, hok⟩⟩
  · rw [hsome]
    exact ⟨s', some hb, rfl, Or.inr ⟨hb, rfl, hok⟩⟩

/-- What a request leaves, with the block it returns in the caller's hands -/
def Serves (length : Nat) (answer : Option (EventCache × Option Ptr)) : Prop :=
  ∃ r, answer = some r ∧ (handOut length r).1.Ok

theorem extractHeapBlocksForEvents_serves (h : s.Ok)
    (htype : dataType ≠ .freeblock) (flags : RequestFlags) (hlength : 1 ≤ length)
    (hgc : s.Releasable gc) :
    Serves length (s.extractHeapBlocksForEvents dataType flags length gc) := by
  rw [extractHeapBlocksForEvents]
  by_cases hmax : length > HB_MaxSize
  · rw [if_pos hmax]
    exact ⟨(s, none), rfl, h⟩
  · rw [if_neg hmax]
    obtain ⟨s', found, hextract, ⟨rfl, hok⟩ | ⟨hb, rfl, hok⟩⟩ := extractHeapBlocks_ok h htype
      { flags with header := { flags.header with alive := true, event := true } } rfl rfl hlength
      hgc
    · simp only [hextract]
      exact ⟨(s', none), rfl, hok⟩
    · simp only [hextract]
      exact ⟨({ s' with taken := (hb, length) :: s'.taken }, some hb), rfl, hok⟩

theorem extractNodeFast_serves (h : s.Ok) (htype : dataType ≠ .freeblock)
    (flags : RequestFlags) {blocks : UInt32} (hpos : 1 ≤ blocks.toNat)
    (hless : blocks.toNat < c_maxFastLists) (hgc : s.Releasable gc) :
    Serves blocks.toNat (s.extractNodeFast dataType flags blocks gc) := by
  rw [extractNodeFast]
  cases hlist : s.m_events blocks.toNat with
  | nil => exact extractHeapBlocksForEvents_serves h htype flags hpos hgc
  | cons ptr rest =>
    obtain ⟨tiling, h⟩ := h
    have hptr : ptr ∈ s.m_events blocks.toNat := by rw [hlist]; exact List.mem_cons_self
    have htake := h.takeNode htype hless hptr
    have hsize : s.dataSize ptr = blocks.toNat := by
      have hclass := h.classes _ hless ptr hptr
      rw [listOf] at hclass
      split_ifs at hclass with hfast
      · exact hclass
      · omega
    rw [hsize] at htake
    exact ⟨(s.takeNode dataType blocks.toNat ptr, some ptr), rfl, tiling, htake⟩

theorem extractNodeSlow_serves (h : s.Ok) (htype : dataType ≠ .freeblock)
    (flags : RequestFlags) {blocks : UInt32} (hlarge : c_maxFastLists ≤ blocks.toNat)
    (hgc : s.Releasable gc) :
    Serves blocks.toNat (s.extractNodeSlow dataType flags blocks gc) := by
  have hzero : 0 < c_maxFastLists := by decide
  rw [extractNodeSlow]
  cases hbest : s.bestFit blocks (s.m_events 0) none with
  | none => exact extractHeapBlocksForEvents_serves h htype flags (by omega) hgc
  | some best =>
    obtain ⟨ptr, bestSize⟩ := best
    obtain ⟨tiling, h⟩ := h
    obtain ⟨hptr, rfl, hfits⟩ := bestFit_spec hbest
    simp only
    by_cases htail : s.dataSize ptr > blocks.toNat
    · rw [if_pos htail]
      obtain ⟨hheap, hmem, -⟩ := h.heldOk ptr (mem_held_of_filed hzero hptr)
      have hmax : s.dataSize ptr ≤ HB_MaxSize := ((h.wellFormed _ hheap).size_le hmem).2
      obtain ⟨⟨tiling', hok⟩, hptr', hsize, -⟩ := h.requeueTail hptr hlarge htail hmax
      have htake := hok.takeNode htype hzero hptr'
      rw [hsize] at htake
      exact ⟨_, rfl, tiling', htake⟩
    · rw [if_neg htail]
      have htake := h.takeNode htype hzero hptr
      rw [show s.dataSize ptr = blocks.toNat by omega] at htake
      exact ⟨_, rfl, tiling, htake⟩

theorem extractNode_serves (h : s.Ok) (htype : dataType ≠ .freeblock)
    (flags : RequestFlags) {blocks : UInt32} (hpos : 1 ≤ blocks.toNat)
    (hgc : s.Releasable gc) : Serves blocks.toNat (s.extractNode dataType flags blocks gc) := by
  rw [extractNode]
  split_ifs with hfast
  · exact extractNodeFast_serves h htype flags hpos hfast.2 hgc
  · have hnot : ¬ blocks.toNat < c_maxFastLists :=
      fun hless => hfast ⟨UInt32.lt_iff_toNat_lt.mpr hpos, hless⟩
    exact extractNodeSlow_serves h htype flags (Nat.le_of_not_lt hnot) hgc

/-! ### What the callers rely on -/

/-- The lists hold what they are for, no two blocks overlap, and the memory taken from the heap is
    extracted, in the lists, or freed. -/
structure Sound (s : EventCache) : Prop where
  fast : ∀ i, 1 ≤ i → i < c_maxFastLists → ∀ ptr ∈ s.m_events i, s.dataSize ptr = i
  slow : ∀ ptr ∈ s.m_events 0, c_maxFastLists ≤ s.dataSize ptr
  sized : ∀ b ∈ s.extracted, s.dataSize b.1 = b.2
  apart : (s.extracted ++ s.cached).Pairwise Block.Apart
  accounted : (s.taken.flatMap Block.cells).Perm (s.extracted.flatMap Block.cells ++
    s.cached.flatMap Block.cells ++ s.freed.flatMap Block.cells)

/-- A block that is returned has the size asked for, and overlaps no other block that is extracted
    or in a list. -/
structure HandedOut (s : EventCache) (ptr : Ptr) (request : Nat) : Prop where
  sized : s.dataSize ptr = request
  apart : ∃ others, s.extracted = (ptr, request) :: others ∧
    ∀ b ∈ others ++ s.cached, Block.Apart (ptr, request) b

theorem filed_eq_cached (s : EventCache) : s.filed = (s.cached : Multiset (Block Nat)) :=
  shelved_map c_maxFastLists s.m_events fun ptr => (ptr, s.dataSize ptr)

theorem CacheOk.apart (h : CacheOk s blocks) {p q : Ptr} (hp : p ∈ s.held) (hq : q ∈ s.held)
    (hne : p ≠ q) : Block.Apart (p, s.dataSize p) (q, s.dataSize q) := by
  obtain ⟨hheap, hpmem, -⟩ := h.heldOk p hp
  obtain ⟨-, hqmem, -⟩ := h.heldOk q hq
  by_cases hcluster : p.1 = q.1
  · right
    rw [← hcluster] at hqmem
    have htiles := (h.wellFormed _ hheap).tiles
    have hsizes : (s.clusters p.1).headers.size q.2 = s.dataSize q := by rw [hcluster]; rfl
    by_contra hover
    rw [not_or, not_le, not_le] at hover
    refine hne (Prod.ext hcluster (htiles.eq_of_overlap hpmem hqmem ?_ hover.1))
    rw [hsizes]
    exact hover.2
  · exact Or.inl hcluster

theorem Ok.sound (h : s.Ok) : s.Sound := by
  obtain ⟨blocks, h⟩ := h
  have hzero : 0 < c_maxFastLists := by decide
  have hall : ((s.extracted ++ s.cached : List (Block Nat)) : Multiset (Block Nat)).map Prod.fst =
      s.held := by
    rw [held_eq, filed_eq_cached, Multiset.coe_add]
  have hsized : ∀ b ∈ s.extracted ++ s.cached, b.1 ∈ s.held ∧ s.dataSize b.1 = b.2 := by
    intro b hb
    refine ⟨?_, ?_⟩
    · rw [← hall]
      exact Multiset.mem_map_of_mem _ hb
    · rcases List.mem_append.mp hb with hb | hb
      · exact h.sized b hb
      · obtain ⟨i, -, hb⟩ := List.mem_flatMap.mp hb
        obtain ⟨ptr, -, rfl⟩ := List.mem_map.mp hb
        rfl
  refine ⟨fun i hpos hi ptr hptr => ?_, fun ptr hptr => ?_, h.sized, ?_, ?_⟩
  · have hclass := h.classes i hi ptr hptr
    rw [listOf] at hclass
    split_ifs at hclass
    · exact hclass
    · omega
  · have hclass := h.classes 0 hzero ptr hptr
    rw [listOf] at hclass
    split_ifs at hclass with hless
    · obtain ⟨hheap, hmem, -⟩ := h.heldOk ptr (mem_held_of_filed hzero hptr)
      exact absurd hclass (Nat.ne_of_gt ((h.wellFormed _ hheap).size_le hmem).1)
    · exact Nat.le_of_not_lt hless
  · have hnodup := h.nodup
    rw [← hall, Multiset.map_coe, Multiset.coe_nodup] at hnodup
    refine (List.pairwise_map.mp hnodup).imp_of_mem fun {x y} hx hy hne => ?_
    obtain ⟨hxheld, hxsize⟩ := hsized x hx
    obtain ⟨hyheld, hysize⟩ := hsized y hy
    have hapart := h.apart hxheld hyheld hne
    rw [hxsize, hysize] at hapart
    exact hapart
  · have haccounts := h.accounts
    rw [filed_eq_cached, account_coe, account_coe, account_coe, account_coe, Multiset.coe_add,
      Multiset.coe_add] at haccounts
    exact Multiset.coe_eq_coe.mp haccounts

/-! ### Runs -/

/-- What the callers keep to: they ask for nodes of at least one block, and append what they have
    extracted. -/
def CallOk (s : EventCache) : Call → Prop
  | .extractNode dataType _ blocks gc => dataType ≠ .freeblock ∧ 0 < blocks ∧ s.Releasable gc
  | .extractNodeBytes dataType _ bytes gc => dataType ≠ .freeblock ∧ 0 < bytes ∧ s.Releasable gc
  | .appendNode node => node ∈ s.extracted.map Prod.fst
  | .eventCacheCleanup => True
  | .performGarbageCollection gc => s.Releasable gc

def Call.Rounds : Call → Prop
  | .extractNodeBytes _ _ bytes _ => bytes ≤ 0xFFFFFFF4
  | _ => True

theorem convertFromSizeToHeapBlocks_toNat {bytes : UInt32} (h : bytes ≤ 0xFFFFFFF4) :
    (convertFromSizeToHeapBlocks bytes).toNat = (bytes.toNat + 11) / 12 := by
  have hle : bytes.toNat ≤ 4294967284 := UInt32.le_iff_toNat_le.mp h
  rw [convertFromSizeToHeapBlocks, UInt32.toNat_div, UInt32.toNat_sub, UInt32.toNat_add]
  simp only [UInt32.reduceToNat]
  omega

theorem step_ok (s : EventCache) (call : Call) (h : s.Ok) (hcall : s.CallOk call ∧ call.Rounds) :
    ∃ s' r, s.step call = some (s', r) ∧ s'.Ok := by
  obtain ⟨hcall, hrounds⟩ := hcall
  cases call with
  | extractNode dataType flags blocks gc =>
    obtain ⟨htype, hpos, hgc⟩ := hcall
    obtain ⟨r, hr, hok⟩ := extractNode_serves h htype flags (UInt32.lt_iff_toNat_lt.mp hpos) hgc
    refine ⟨_, (handOut blocks.toNat r).2, ?_, hok⟩
    rw [step, hr]
    rfl
  | extractNodeBytes dataType flags bytes gc =>
    obtain ⟨htype, hpos, hgc⟩ := hcall
    have hblocks := convertFromSizeToHeapBlocks_toNat hrounds
    have hposBytes : 0 < bytes.toNat := UInt32.lt_iff_toNat_lt.mp hpos
    obtain ⟨r, hr, hok⟩ := extractNode_serves h htype flags
      (show 1 ≤ (convertFromSizeToHeapBlocks bytes).toNat by omega) hgc
    rw [hblocks] at hok
    refine ⟨_, (handOut ((bytes.toNat + 11) / 12) r).2, ?_, hok⟩
    rw [step, extractNodeBytes, hr]
    rfl
  | appendNode node =>
    obtain ⟨blocks, h⟩ := h
    obtain ⟨b, hb, rfl⟩ := List.mem_map.mp hcall
    exact ⟨_, _, rfl, blocks, h.giveBack hb⟩
  | eventCacheCleanup =>
    obtain ⟨blocks, h⟩ := h
    exact ⟨_, _, rfl, blocks, h.cleanup.1⟩
  | performGarbageCollection gc =>
    obtain ⟨s', hs', hok⟩ := performGarbageCollection_ok h hcall
    refine ⟨s', none, ?_, hok⟩
    rw [step, hs']
    rfl

theorem step_extracted {s' : EventCache} {call : Call}
    (h : s.step call = some (s', some ptr)) :
    ∃ others, s'.extracted = (ptr, call.request) :: others := by
  have hhandOut : ∀ (n : Nat) (answer : Option (EventCache × Option Ptr)),
      answer.map (handOut n) = some (s', some ptr) →
      ∃ others, s'.extracted = (ptr, n) :: others := by
    intro n answer hanswer
    obtain ⟨⟨t, found⟩, -, heq⟩ := Option.map_eq_some_iff.mp hanswer
    cases found with
    | none => simp [handOut] at heq
    | some hb =>
      simp only [handOut, Prod.mk.injEq, Option.some.injEq] at heq
      obtain ⟨rfl, rfl⟩ := heq
      exact ⟨t.extracted, rfl⟩
  cases call with
  | extractNode dataType flags blocks gc => exact hhandOut _ _ h
  | extractNodeBytes dataType flags bytes gc => exact hhandOut _ _ h
  | appendNode node => simp [step] at h
  | eventCacheCleanup => simp [step] at h
  | performGarbageCollection gc => simp [step] at h

theorem Sound.handedOut (h : s.Sound) {request : Nat}
    (hextracted : ∃ others, s.extracted = (ptr, request) :: others) : s.HandedOut ptr request := by
  obtain ⟨others, heq⟩ := hextracted
  have hapart := h.apart
  rw [heq, List.cons_append, List.pairwise_cons] at hapart
  exact ⟨h.sized (ptr, request) (by rw [heq]; exact List.mem_cons_self), others, heq, hapart.1⟩

/-- A heap no event has been taken from: the clusters are well formed. -/
def HeapOk (m_heap : List Nat) (clusters : Nat → HeapCluster) : Prop :=
  ∀ c ∈ m_heap, (∃ bs, WellFormed (clusters c) bs) ∧ (clusters c).events = []

theorem heapOk_of_initialize {m_heap : List Nat} {clusters : Nat → HeapCluster}
    (h : ∀ c ∈ m_heap, ∃ memory payloadStart heapSize size blockSize,
      (size, blockSize) ∈ allocateHeaps heapSize heapSize 0 1 ∧
      RemainsFit memory (payloadStart + (size - sizeofHeapCluster) / sizeofHeapBlock)
        (payloadStart, blockSize) ∧
      heapCluster_Initialize memory payloadStart size blockSize = some (clusters c)) :
    HeapOk m_heap clusters := by
  intro c hc
  obtain ⟨memory, payloadStart, heapSize, size, blockSize, hcluster, hremains, hinit⟩ := h c hc
  obtain ⟨-, hsize, hpos, hmax⟩ := allocateHeaps_bounds Nat.one_pos (by decide) _ hcluster
  obtain ⟨hc', bs, hinit', hwf, -⟩ := heapCluster_Initialize_spec hsize hpos hmax hremains
  rw [hinit, Option.some.injEq] at hinit'
  subst hinit'
  refine ⟨⟨bs, hwf⟩, ?_⟩
  rw [heapCluster_Initialize] at hinit
  obtain ⟨headers, -, hrecover⟩ := Option.bind_eq_some_iff.mp hinit
  exact recoverFromGC_events hrecover

theorem eventCacheInitialize_ok {m_heap : List Nat} {clusters : Nat → HeapCluster}
    (h : HeapOk m_heap clusters) : (eventCacheInitialize m_heap clusters).Ok := by
  classical
  refine ⟨fun c => if hc : c ∈ m_heap then (h c hc).1.choose else [], fun c hc => ?_,
    fun c hc => (h c hc).2, fun ptr hptr => ?_, ?_, fun i _ ptr hptr => ?_, fun b hb => ?_, ?_⟩
  · rw [dif_pos (show c ∈ m_heap from hc)]
    exact (h c hc).1.choose_spec
  · simp [held, eventCacheInitialize] at hptr
  · simp [held, eventCacheInitialize]
  · exact absurd hptr List.not_mem_nil
  · exact absurd hb List.not_mem_nil
  · simp [filed, eventCacheInitialize]

/-- **The event cache over whole runs.**  In every run whose requests in bytes do not overflow when
    they are rounded up, the cache is sound in every state, and every block that is returned has
    the size asked for and overlaps no other block that is extracted or in a list. -/
theorem runs_hand_out_once (m_heap : List Nat) (clusters : Nat → HeapCluster)
    (hheap : HeapOk m_heap clusters) (calls : List Call)
    (hmeets : Meets step (fun s call => s.CallOk call ∧ call.Rounds)
      (eventCacheInitialize m_heap clusters) calls) :
    ∃ s rs, run step (eventCacheInitialize m_heap clusters) calls = some (s, rs) ∧ s.Sound ∧
      ∀ call, s.CallOk call → call.Rounds → ∃ s' r, s.step call = some (s', r) ∧ s'.Sound ∧
        ∀ ptr, r = some ptr → s'.HandedOut ptr call.request := by
  obtain ⟨s, rs, hrun, hok⟩ :=
    run_invariant step step_ok calls _ (eventCacheInitialize_ok hheap) hmeets
  refine ⟨s, rs, hrun, hok.sound, fun call hcall hrounds => ?_⟩
  obtain ⟨s', r, hstep, hok'⟩ := step_ok s call hok ⟨hcall, hrounds⟩
  refine ⟨s', r, hstep, hok'.sound, fun ptr hptr => ?_⟩
  subst hptr
  exact hok'.sound.handedOut (step_extracted hstep)

theorem heapOk_fifty : ∃ hc, heapCluster_Initialize blankMemory 0 632 1 = some hc ∧
    HeapOk [0] fun _ => hc := by
  have hcluster : (632, 1) ∈ allocateHeaps 632 632 0 1 := by decide
  have hremains : RemainsFit blankMemory (0 + (632 - sizeofHeapCluster) / sizeofHeapBlock) (0, 1) :=
    fun _ _ _ _ _ hkept => absurd hkept (by simp [Remains.kept, blankMemory])
  obtain ⟨-, hsize, hpos, hmax⟩ := allocateHeaps_bounds Nat.one_pos (by decide) _ hcluster
  obtain ⟨hc, -, hinit, -⟩ := heapCluster_Initialize_spec hsize hpos hmax hremains
  exact ⟨hc, hinit, heapOk_of_initialize fun c _ => ⟨_, _, _, _, _, hcluster, hremains, hinit⟩⟩

/-- A block of fifty is given back; of it the next request gets forty-five in place, and one for
    bytes the tail. -/
def splitsBlock : List Call :=
  [.extractNode .timerHead {} 50 ⟨[], []⟩, .appendNode (0, 0),
    .extractNode .timerHead {} 45 ⟨[], []⟩, .extractNodeBytes .binaryBlobHead {} 58 ⟨[], []⟩,
    .performGarbageCollection ⟨[], []⟩]

theorem runs_hand_out_once_split : ∃ hc s,
    heapCluster_Initialize blankMemory 0 632 1 = some hc ∧
    run step (eventCacheInitialize [0] fun _ => hc) splitsBlock =
      some (s, [some (0, 0), none, some (0, 0), some (0, 45), none]) ∧ s.Sound := by
  obtain ⟨hc, hinit, hheap⟩ := heapOk_fifty
  have hanswers : (heapCluster_Initialize blankMemory 0 632 1).bind (fun hc =>
      (run step (eventCacheInitialize [0] fun _ => hc) splitsBlock).map Prod.snd) =
        some [some (0, 0), none, some (0, 0), some (0, 45), none] := by decide
  have hfirst : (heapCluster_Initialize blankMemory 0 632 1).bind (fun hc =>
      ((eventCacheInitialize [0] fun _ => hc).step (.extractNode .timerHead {} 50 ⟨[], []⟩)).map
        fun q => q.1.extracted) = some [((0, 0), 50)] := by decide
  rw [hinit, Option.bind_some] at hanswers hfirst
  obtain ⟨s, rs, hrun, hsound, -⟩ := runs_hand_out_once [0] (fun _ => hc) hheap splitsBlock <| by
    have hnone : ∀ s : EventCache, s.Releasable ⟨[], []⟩ := fun s => ⟨List.nodup_nil, by simp⟩
    refine ⟨⟨⟨by decide, by decide, hnone _⟩, trivial⟩, fun s' r hstep => ⟨⟨?_, trivial⟩,
      fun s₂ _ _ => ⟨⟨⟨by decide, by decide, hnone s₂⟩, trivial⟩,
        fun s₃ _ _ => ⟨⟨⟨by decide, by decide, hnone s₃⟩,
          show (58 : UInt32) ≤ 0xFFFFFFF4 by decide⟩,
          fun s₄ _ _ => ⟨⟨hnone s₄, trivial⟩, fun _ _ _ => trivial⟩⟩⟩⟩⟩
    rw [hstep, Option.map_some, Option.some.injEq] at hfirst
    change (0, 0) ∈ s'.extracted.map Prod.fst
    rw [hfirst]
    decide
  rw [hrun, Option.map_some, Option.some.injEq] at hanswers
  obtain rfl : rs = _ := hanswers
  exact ⟨hc, s, hinit, hrun, hsound⟩

set_option synthInstance.maxSize 256 in
/-- A request for so many bytes that rounding up overflows is taken for one of no blocks.  The
    heap answers it with the block behind the last free one, which is extracted already. -/
theorem overflowing_request_hands_out_twice : ∃ hc s s',
    heapCluster_Initialize blankMemory 0 80 1 = some hc ∧
    run step (eventCacheInitialize [0] fun _ => hc) [.extractNode .timerHead {} 1 ⟨[], []⟩] =
      some (s, [some (0, 3)]) ∧ s.extracted = [((0, 3), 1)] ∧
    s.CallOk (.extractNodeBytes .binaryBlobHead {} 0xFFFFFFFF ⟨[], []⟩) ∧
    s.step (.extractNodeBytes .binaryBlobHead {} 0xFFFFFFFF ⟨[], []⟩) =
      some (s', some (0, 3)) ∧ s'.dataSize (0, 3) = 0 ∧
    ¬ s'.HandedOut (0, 3)
      (Call.request (.extractNodeBytes .binaryBlobHead {} 0xFFFFFFFF ⟨[], []⟩)) := by
  have hrun : (heapCluster_Initialize blankMemory 0 80 1).bind (fun hc =>
      (run step (eventCacheInitialize [0] fun _ => hc)
        [.extractNode .timerHead {} 1 ⟨[], []⟩]).bind fun q =>
          (q.1.step (.extractNodeBytes .binaryBlobHead {} 0xFFFFFFFF ⟨[], []⟩)).map fun q' =>
            (q.2, q.1.extracted, q'.2, q'.1.dataSize (0, 3))) =
      some ([some (0, 3)], [((0, 3), 1)], some (0, 3), 0) := by decide
  obtain ⟨hc, hinit, hsteps⟩ := Option.bind_eq_some_iff.mp hrun
  obtain ⟨⟨s, rs⟩, hfirst, hsecond⟩ := Option.bind_eq_some_iff.mp hsteps
  obtain ⟨⟨s', r⟩, hstep, hobserved⟩ := Option.map_eq_some_iff.mp hsecond
  simp only [Prod.mk.injEq] at hobserved
  obtain ⟨rfl, hextracted, rfl, hsize⟩ := hobserved
  refine ⟨hc, s, s', hinit, hfirst, hextracted, ⟨by decide, by decide, List.nodup_nil, by simp⟩,
    hstep, hsize, fun hout => ?_⟩
  have hsized := hout.sized
  rw [hsize] at hsized
  exact absurd hsized (by decide)

end TinyClr.Heap.EventCache
