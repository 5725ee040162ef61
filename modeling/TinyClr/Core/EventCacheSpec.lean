import TinyClr.Core.EventCache
import TinyClr.Core.HeapClusterRuns
import Mathlib.Tactic.Abel

/-!
# The event cache's invariant

The blocks that are extracted and the blocks in the lists are different blocks of the clusters'
tilings, each with the header of a node; what the cache has taken from the heap is what is
extracted, what is in the lists, and what it has freed.  Every step of the code changes one
header, or moves one block from one account to another.
-/

namespace TinyClr.Heap

open TinyClr.Library

/-! ### Clusters -/

variable {hc : HeapCluster} {front back bs : List Nat}

theorem WellFormed.reheader (h : WellFormed hc bs) (headers : Headers) (relabelled : List Nat)
    (hevents : hc.events = []) (hsize : ∀ a ∈ bs, headers.size a = hc.headers.size a)
    (hlisted : ∀ a ∈ bs, ((headers a).dataType = .freeblock ∧ a ∉ relabelled) ↔
      ((hc.headers a).dataType = .freeblock ∧ a ∉ hc.relabelled))
    (hdead : ∀ a ∈ bs, (headers a).dataType = .freeblock → (headers a).flags.alive = false)
    (hrelabelled : ∀ a ∈ relabelled, a ∈ bs ∧ (headers a).dataType = .freeblock) :
    WellFormed { hc with headers := headers, relabelled := relabelled } bs := by
  obtain ⟨htiles, hle⟩ :=
    h.relabel { hc with headers := headers, relabelled := relabelled } rfl rfl hsize
  refine ⟨htiles, hle, ?_, hdead, hrelabelled, fun a ha => ?_⟩
  · refine h.freeList_eq.trans (List.filter_congr fun a ha => ?_)
    rw [Bool.eq_iff_iff, listed_iff, listed_iff]
    exact (hlisted a ha).symm
  · exact absurd (show a ∈ hc.events from ha) (by simp [hevents])

variable {id : Header}

theorem WellFormed.retag (h : WellFormed hc bs) (hevents : hc.events = []) {a : Nat}
    (hused : (hc.headers a).dataType ≠ .freeblock) (htype : id.dataType ≠ .freeblock)
    (hsize : id.dataSize = hc.headers.size a) :
    WellFormed { hc with headers := hc.headers.set a id } bs := by
  have hfree : ∀ x, ((hc.headers.set a id) x).dataType = .freeblock ↔
      (hc.headers x).dataType = .freeblock := by
    intro x
    by_cases hx : x = a
    · rw [hx, Headers.set_self]
      exact ⟨fun hfree => absurd hfree htype, fun hfree => absurd hfree hused⟩
    · rw [Headers.set_of_ne _ _ hx]
  refine h.reheader _ hc.relabelled hevents (fun x _ => ?_) (fun x _ => by rw [hfree x]) ?_ ?_
  · by_cases hx : x = a
    · rw [hx, Headers.size, Headers.set_self, hsize]
    · rw [Headers.size, Headers.set_of_ne _ _ hx, Headers.size]
  · intro x hx hfreeblock
    have hold := (hfree x).mp hfreeblock
    rw [Headers.set_of_ne _ _ fun heq : x = a => hused (heq ▸ hold)]
    exact h.free_dead x hx hold
  · intro x hx
    rw [hfree x]
    exact h.relabelled_free x hx

theorem WellFormed.discard (h : WellFormed hc bs) (hevents : hc.events = []) {a : Nat}
    (hmem : a ∈ bs) (hused : (hc.headers a).dataType ≠ .freeblock) :
    WellFormed { hc with
      headers := hc.headers.set a (freeId (hc.headers.size a))
      relabelled := hc.relabelled ++ [a] } bs := by
  refine h.reheader _ _ hevents (fun x _ => ?_) (fun x _ => ?_) (fun x hx hfree => ?_)
    fun x hx => ?_
  · by_cases hx : x = a
    · rw [hx, Headers.size, Headers.set_self]
      exact rawId_dataSize (h.size_le hmem).2
    · rw [Headers.size, Headers.set_of_ne _ _ hx, Headers.size]
  · rw [List.mem_append, List.mem_singleton, not_or]
    by_cases hx : x = a
    · rw [hx]
      exact ⟨fun hlisted => absurd rfl hlisted.2.2, fun hlisted => absurd hlisted.1 hused⟩
    · rw [Headers.set_of_ne _ _ hx]
      exact ⟨fun hlisted => ⟨hlisted.1, hlisted.2.1⟩, fun hlisted => ⟨hlisted.1, hlisted.2, hx⟩⟩
  · by_cases heq : x = a
    · rw [heq, Headers.set_self]
      rfl
    · rw [Headers.set_of_ne _ _ heq] at hfree ⊢
      exact h.free_dead x hx hfree
  · by_cases heq : x = a
    · rw [heq, Headers.set_self]
      exact ⟨hmem, rfl⟩
    · rw [Headers.set_of_ne _ _ heq]
      rcases List.mem_append.mp hx with hx | hx
      · exact h.relabelled_free x hx
      · exact absurd (List.mem_singleton.mp hx) heq

variable {size : Nat}

theorem WellFormed.split {res : Nat} {first second : Header}
    (h : WellFormed hc (front ++ [res] ++ back)) (hevents : hc.events = [])
    (hused : (hc.headers res).dataType ≠ .freeblock) (hpos : 0 < size)
    (hless : size < hc.headers.size res) (hfirst : first.dataSize = size)
    (hsecond : second.dataSize = hc.headers.size res - size)
    (hfirstType : first.dataType ≠ .freeblock) (hsecondType : second.dataType ≠ .freeblock) :
    WellFormed { hc with headers := (hc.headers.set res first).set (res + size) second }
      (front ++ [res, res + size] ++ back) := by
  obtain ⟨hfront, hsize, hback⟩ := h.split_at
  have hcomm : (hc.headers.set res first).set (res + size) second =
      (hc.headers.set (res + size) second).set res first := by
    funext a
    simp only [Headers.set]
    split_ifs <;> first | rfl | omega
  have htiles := tiles_two hc.headers res first second hpos (by omega) hfirst hsecond
  rw [Nat.add_sub_cancel' (by omega), ← hcomm] at htiles
  have hnot : hc.listed res ≠ true := fun hlisted => hused (listed_iff.mp hlisted).1
  have hres : ((hc.headers.set res first).set (res + size) second) res = first := by
    rw [Headers.set_of_ne _ _ (by omega), Headers.set_self]
  have htypes : ∀ a ∈ [res, res + size],
      (((hc.headers.set res first).set (res + size) second) a).dataType ≠ .freeblock := by
    intro a ha
    rcases List.mem_cons.mp ha with rfl | ha
    · rw [hres]
      exact hfirstType
    · rw [List.mem_singleton.mp ha, Headers.set_self]
      exact hsecondType
  refine h.replace rfl rfl rfl hfront hback htiles (fun a ha => ?_) ?_
    (fun a ha hfree => absurd hfree (htypes a ha)) (fun a ha hin => ?_) fun a ha => ?_
  · exact (Headers.set_of_ne _ _ (by omega)).trans (Headers.set_of_ne _ _ (by omega))
  · rw [List.filter_eq_nil_iff.mpr fun a ha hlisted => htypes a ha (listed_iff.mp hlisted).1]
    change hc.freeList = _
    rw [h.freeList_eq, List.filter_append, List.filter_append, List.filter_cons_of_neg hnot,
      List.filter_nil]
  · rw [List.mem_singleton.mp ha] at hin
    exact hused (h.relabelled_free res hin).2
  · exact absurd (show a ∈ hc.events from ha) (by simp [hevents])

theorem extractBlocks_events (dataType : DataType) (flags : Flags) (length : Nat) :
    (hc.extractBlocks dataType flags length).1.events = hc.events := by
  rw [HeapCluster.extractBlocks]
  cases hc.findBlock flags.event length with
  | none => rfl
  | some res =>
    simp only
    split_ifs <;> rfl

theorem recoverFromGC_events {hc' : HeapCluster} (h : hc.recoverFromGC = some hc') :
    hc'.events = hc.events := by
  rw [HeapCluster.recoverFromGC] at h
  obtain ⟨⟨headers, free⟩, -, heq⟩ := Option.bind_eq_some_iff.mp h
  rw [← Option.some.inj heq]

theorem WellFormed.mark (h : WellFormed hc bs) (hevents : hc.events = []) (alive : List Nat) :
    WellFormed (hc.mark alive) bs := by
  refine h.reheader _ hc.relabelled hevents (fun a _ => (mark_spec hc alive a).2.1) (fun a _ => ?_)
    (fun a ha hfree => ?_) fun a ha => ?_
  · exact and_congr_left fun _ => by
      change ((hc.mark alive).headers a).dataType = _ ↔ _
      rw [(mark_spec hc alive a).1]
  · change ((hc.mark alive).headers a).dataType = _ at hfree
    change ((hc.mark alive).headers a).flags.alive = _
    rw [(mark_spec hc alive a).1] at hfree
    rw [(mark_spec hc alive a).2.2.1 hfree]
    exact h.free_dead a ha hfree
  · change a ∈ bs ∧ ((hc.mark alive).headers a).dataType = _
    rw [(mark_spec hc alive a).1]
    exact h.relabelled_free a ha

theorem WellFormed.collect (h : WellFormed hc bs) (hevents : hc.events = []) :
    ∃ hc' bs', hc.recoverFromGC = some hc' ∧ WellFormed hc' bs' ∧ hc'.events = [] ∧
      ∀ a ∈ bs, (hc.headers a).flags.alive = true → (hc.headers a).flags.event = true →
        a ∈ bs' ∧ hc'.headers a = hc.headers a := by
  obtain ⟨hc', bs', heq, hwf, -, -, hkept⟩ := recoverFromGC_spec hc h.tiles h.payload_le
    h.free_dead h.events_cached
  have hnone : hc'.events = [] := (recoverFromGC_events heq).trans hevents
  refine ⟨hc', bs', heq, hwf, hnone, fun a ha halive hevent => ?_⟩
  obtain ⟨hmem, hsame⟩ := hkept a ha halive
  rw [if_pos hevent] at hsame
  exact ⟨hmem, hsame⟩

namespace EventCache

/-! ### Headers -/

variable {s : EventCache} {c : Nat}

def IsNode (id : Header) : Prop :=
  id.dataType ≠ .freeblock ∧ id.flags.alive = true ∧ id.flags.event = true

theorem header_setDataId (s : EventCache) (ptr : Ptr) (id : Header) (q : Ptr) :
    (s.setDataId ptr id).header q = if q = ptr then id else s.header q := by
  rw [header, setDataId, setCluster]
  by_cases hc : q.1 = ptr.1
  · simp only [hc, Function.update_self]
    by_cases ha : q.2 = ptr.2
    · rw [ha, Headers.set_self, if_pos (Prod.ext hc ha)]
    · rw [Headers.set_of_ne _ _ ha, if_neg fun heq => ha (congrArg Prod.snd heq), header, hc]
  · simp only [Function.update_of_ne hc]
    rw [if_neg fun heq => hc (congrArg Prod.fst heq), header]

theorem header_self (s : EventCache) (ptr : Ptr) (id : Header) :
    (s.setDataId ptr id).header ptr = id := by rw [header_setDataId, if_pos rfl]

variable {ptr : Ptr}

theorem header_of_ne (s : EventCache) {q : Ptr} (id : Header) (h : q ≠ ptr) :
    (s.setDataId ptr id).header q = s.header q := by rw [header_setDataId, if_neg h]

/-! ### The invariant -/

def held (s : EventCache) : Multiset Ptr :=
  ((s.extracted.map Prod.fst : List Ptr) : Multiset Ptr) + shelved c_maxFastLists s.m_events

def filed (s : EventCache) : Multiset (Block Nat) :=
  (shelved c_maxFastLists s.m_events).map fun ptr => (ptr, s.dataSize ptr)

/-- The cache is as it should be, and `blocks` are the blocks of the clusters. -/
structure CacheOk (s : EventCache) (blocks : Nat → List Nat) : Prop where
  wellFormed : ∀ c ∈ s.m_heap, WellFormed (s.clusters c) (blocks c)
  events : ∀ c ∈ s.m_heap, (s.clusters c).events = []
  heldOk : ∀ ptr ∈ s.held, ptr.1 ∈ s.m_heap ∧ ptr.2 ∈ blocks ptr.1 ∧ IsNode (s.header ptr)
  nodup : s.held.Nodup
  classes : ∀ i < c_maxFastLists, ∀ ptr ∈ s.m_events i, listOf (s.dataSize ptr) = i
  sized : ∀ b ∈ s.extracted, s.dataSize b.1 = b.2
  accounts : account (s.taken : Multiset (Block Nat)) =
    account (s.extracted : Multiset (Block Nat)) + account s.filed +
      account (s.freed : Multiset (Block Nat))

def Ok (s : EventCache) : Prop := ∃ blocks, CacheOk s blocks

variable {blocks blocks' : Nat → List Nat}

theorem listOf_lt (blocks : Nat) : listOf blocks < c_maxFastLists := by
  rw [listOf]
  split_ifs with h
  · exact h
  · decide

variable {b : Block Nat}

theorem mem_held_of_extracted {b : Block Nat} (h : b ∈ s.extracted) : b.1 ∈ s.held :=
  Multiset.mem_add.mpr (Or.inl (Multiset.mem_coe.mpr (List.mem_map_of_mem h)))

variable {i : Nat}

theorem mem_held_of_filed (hi : i < c_maxFastLists)
    (h : ptr ∈ s.m_events i) : ptr ∈ s.held :=
  Multiset.mem_add.mpr (Or.inr (mem_shelved.mpr ⟨i, hi, h⟩))

/-- Where the blocks that are held keep their sizes, the clusters may change. -/
theorem CacheOk.frame (h : CacheOk s blocks) (clusters : Nat → HeapCluster)
    (hwf : ∀ c ∈ s.m_heap, WellFormed (clusters c) (blocks' c) ∧ (clusters c).events = [])
    (hheld : ∀ ptr ∈ s.held, ptr.2 ∈ blocks' ptr.1 ∧
      IsNode ({ s with clusters := clusters }.header ptr) ∧
      { s with clusters := clusters }.dataSize ptr = s.dataSize ptr) :
    CacheOk { s with clusters := clusters } blocks' := by
  have hfiled : { s with clusters := clusters }.filed = s.filed := by
    refine Multiset.map_congr rfl fun ptr hptr => ?_
    rw [(hheld ptr (Multiset.mem_add.mpr (Or.inr hptr))).2.2]
  refine ⟨fun c hc => (hwf c hc).1, fun c hc => (hwf c hc).2, fun ptr hptr => ?_, h.nodup,
    fun i hi ptr hptr => ?_, fun b hb => ?_, ?_⟩
  · obtain ⟨hmem, hid, -⟩ := hheld ptr hptr
    exact ⟨(h.heldOk ptr hptr).1, hmem, hid⟩
  · rw [(hheld ptr (mem_held_of_filed hi hptr)).2.2]
    exact h.classes i hi ptr hptr
  · rw [(hheld b.1 (mem_held_of_extracted hb)).2.2]
    exact h.sized b hb
  · rw [hfiled]
    exact h.accounts

theorem CacheOk.setCluster (h : CacheOk s blocks) {hc : HeapCluster} {bs : List Nat}
    (hwf : WellFormed hc bs) (hevents : hc.events = [])
    (hheld : ∀ a, (c, a) ∈ s.held → a ∈ bs ∧ IsNode (hc.headers a) ∧
      hc.headers.size a = s.dataSize (c, a)) :
    CacheOk (s.setCluster c hc) (Function.update blocks c bs) := by
  refine h.frame _ (fun d hd => ?_) fun q hq => ?_
  · by_cases hdc : d = c
    · rw [hdc, Function.update_self, Function.update_self]
      exact ⟨hwf, hevents⟩
    · rw [Function.update_of_ne hdc, Function.update_of_ne hdc]
      exact ⟨h.wellFormed d hd, h.events d hd⟩
  · obtain ⟨d, a⟩ := q
    rw [dataSize, header]
    by_cases hdc : d = c
    · subst hdc
      simp only [Function.update_self]
      exact hheld a hq
    · simp only [Function.update_of_ne hdc]
      exact ⟨(h.heldOk _ hq).2.1, (h.heldOk _ hq).2.2, rfl⟩

theorem CacheOk.retag (h : CacheOk s blocks) (hptr : ptr ∈ s.held)
    (hid : IsNode id) (hsize : id.dataSize = s.dataSize ptr) :
    CacheOk (s.setDataId ptr id) blocks := by
  obtain ⟨hheap, -, hused, -, -⟩ := h.heldOk ptr hptr
  have hset := h.setCluster (c := ptr.1) ((h.wellFormed _ hheap).retag (h.events _ hheap) hused
    hid.1 hsize) (h.events _ hheap) fun a ha => ?_
  · rwa [Function.update_eq_self] at hset
  · obtain ⟨-, hmem, hnode⟩ := h.heldOk _ ha
    refine ⟨hmem, ?_⟩
    rw [Headers.size]
    by_cases heq : a = ptr.2
    · subst heq
      simp only [Headers.set_self]
      exact ⟨hid, hsize⟩
    · simp only [Headers.set_of_ne _ _ heq]
      exact ⟨hnode, rfl⟩

/-! ### Moves between the accounts -/

theorem held_eq (s : EventCache) :
    s.held = ((s.extracted : Multiset (Block Nat)) + s.filed).map Prod.fst := by
  rw [held, filed, Multiset.map_add, Multiset.map_map, Multiset.map_coe]
  exact congrArg _ (Multiset.map_id _).symm

theorem CacheOk.move (h : CacheOk s blocks) (m_events : Nat → List Ptr)
    (extracted : List (Block Nat))
    (hclasses : ∀ i < c_maxFastLists, ∀ ptr ∈ m_events i, listOf (s.dataSize ptr) = i)
    (hsized : ∀ b ∈ extracted, s.dataSize b.1 = b.2)
    (hblocks : (extracted : Multiset (Block Nat)) +
        { s with m_events := m_events, extracted := extracted }.filed =
      (s.extracted : Multiset (Block Nat)) + s.filed) :
    CacheOk { s with m_events := m_events, extracted := extracted } blocks := by
  have hheld : { s with m_events := m_events, extracted := extracted }.held = s.held := by
    rw [held_eq, held_eq s, ← hblocks]
  refine ⟨h.wellFormed, h.events, ?_, ?_, hclasses, hsized, ?_⟩
  · rw [hheld]
    exact h.heldOk
  · rw [hheld]
    exact h.nodup
  · have haccounts := h.accounts
    rw [← account_add, ← hblocks, account_add] at haccounts
    exact haccounts

theorem CacheOk.file (h : CacheOk s blocks) (hb : b ∈ s.extracted) :
    CacheOk { s.linkAtBack (listOf (s.dataSize b.1)) b.1 with
      extracted := s.extracted.eraseP fun x => x.1 = b.1 } blocks := by
  obtain ⟨x, front, back, -, hx, heq, herase⟩ :=
    List.exists_of_eraseP (p := fun x : Block Nat => x.1 = b.1) hb (decide_eq_true rfl)
  have hsize : x = (b.1, s.dataSize b.1) := by
    have hptr := of_decide_eq_true hx
    rw [← hptr, h.sized x (by rw [heq]; simp)]
  have hlt := listOf_lt (s.dataSize b.1)
  refine h.move (Function.update s.m_events (listOf (s.dataSize b.1))
    (s.m_events (listOf (s.dataSize b.1)) ++ [b.1])) _ (fun i hi ptr hptr => ?_)
    (fun y hy => ?_) ?_
  · by_cases hlist : i = listOf (s.dataSize b.1)
    · rw [hlist, Function.update_self] at hptr
      rcases List.mem_append.mp hptr with hptr | hptr
      · rw [hlist]
        exact h.classes _ hlt ptr hptr
      · rw [hlist, List.mem_singleton.mp hptr]
    · rw [Function.update_of_ne hlist] at hptr
      exact h.classes i hi ptr hptr
  · exact h.sized y (List.mem_of_mem_eraseP hy)
  · have hfiled : { s with
        m_events := Function.update s.m_events (listOf (s.dataSize b.1))
          (s.m_events (listOf (s.dataSize b.1)) ++ [b.1])
        extracted := s.extracted.eraseP fun x => x.1 = b.1 }.filed = x ::ₘ s.filed := by
      rw [filed, shelved_push hlt, Multiset.map_cons, hsize]
      rfl
    have hextracted : (s.extracted : Multiset (Block Nat)) =
        x ::ₘ ((s.extracted.eraseP fun x => x.1 = b.1 : List (Block Nat)) : Multiset _) := by
      rw [herase, heq]
      exact Multiset.coe_eq_coe.mpr List.perm_middle
    rw [hfiled, hextracted, Multiset.add_cons, Multiset.cons_add]

theorem CacheOk.unfile (h : CacheOk s blocks) (hi : i < c_maxFastLists)
    (hptr : ptr ∈ s.m_events i) :
    CacheOk { s.unlink i ptr with extracted := (ptr, s.dataSize ptr) :: s.extracted } blocks := by
  refine h.move (Function.update s.m_events i ((s.m_events i).erase ptr)) _
    (fun j hj q hq => ?_) (fun y hy => ?_) ?_
  · by_cases hlist : j = i
    · rw [hlist, Function.update_self] at hq
      rw [hlist]
      exact h.classes i hi q (List.mem_of_mem_erase hq)
    · rw [Function.update_of_ne hlist] at hq
      exact h.classes j hj q hq
  · rcases List.mem_cons.mp hy with rfl | hy
    · rfl
    · exact h.sized y hy
  · have hfiled : s.filed = (ptr, s.dataSize ptr) ::ₘ { s with
        m_events := Function.update s.m_events i ((s.m_events i).erase ptr)
        extracted := (ptr, s.dataSize ptr) :: s.extracted }.filed := by
      rw [filed, ← shelved_erase hi hptr, Multiset.map_cons]
      rfl
    rw [hfiled, ← Multiset.cons_coe, Multiset.cons_add, Multiset.add_cons]

theorem CacheOk.take (h : CacheOk s blocks) (hheap : ptr.1 ∈ s.m_heap)
    (hmem : ptr.2 ∈ blocks ptr.1) (hnode : IsNode (s.header ptr)) (hnew : ptr ∉ s.held) :
    CacheOk { s with
      extracted := (ptr, s.dataSize ptr) :: s.extracted
      taken := (ptr, s.dataSize ptr) :: s.taken } blocks := by
  have hheld : { s with
      extracted := (ptr, s.dataSize ptr) :: s.extracted
      taken := (ptr, s.dataSize ptr) :: s.taken }.held = ptr ::ₘ s.held := by
    rw [held, held, List.map_cons, ← Multiset.cons_coe, Multiset.cons_add]
  refine ⟨h.wellFormed, h.events, fun q hq => ?_, ?_, h.classes, fun b hb => ?_, ?_⟩
  · rw [hheld] at hq
    rcases Multiset.mem_cons.mp hq with rfl | hq
    · exact ⟨hheap, hmem, hnode⟩
    · exact h.heldOk q hq
  · rw [hheld]
    exact Multiset.nodup_cons.mpr ⟨hnew, h.nodup⟩
  · rcases List.mem_cons.mp hb with rfl | hb
    · rfl
    · exact h.sized b hb
  · rw [← Multiset.cons_coe, ← Multiset.cons_coe, account_cons, account_cons, h.accounts,
      add_assoc, add_assoc, add_assoc]
    rfl

theorem CacheOk.forget (h : CacheOk s blocks) {rest : List (Block Nat)}
    (hb : s.extracted = b :: rest) :
    CacheOk { s with extracted := rest, freed := b :: s.freed } blocks ∧
      b.1 ∉ { s with extracted := rest, freed := b :: s.freed }.held := by
  have hheld : s.held = b.1 ::ₘ { s with extracted := rest, freed := b :: s.freed }.held := by
    rw [held, held, hb, List.map_cons, ← Multiset.cons_coe, Multiset.cons_add]
  have hnodup := h.nodup
  rw [hheld, Multiset.nodup_cons] at hnodup
  refine ⟨⟨h.wellFormed, h.events, fun q hq => h.heldOk q ?_, hnodup.2, h.classes,
    fun x hx => h.sized x ?_, ?_⟩, hnodup.1⟩
  · rw [hheld]
    exact Multiset.mem_cons_of_mem hq
  · rw [hb]
    exact List.mem_cons_of_mem b hx
  · have haccounts := h.accounts
    rw [hb, ← Multiset.cons_coe, account_cons] at haccounts
    rw [haccounts, ← Multiset.cons_coe, account_cons]
    change _ = account (rest : Multiset (Block Nat)) + account s.filed + _
    abel

/-! ### `Append_Node` -/

theorem dataSize_retag (s : EventCache) (ptr q : Ptr) {id : Header}
    (hsize : id.dataSize = s.dataSize ptr) : (s.setDataId ptr id).dataSize q = s.dataSize q := by
  rw [dataSize, header_setDataId]
  split_ifs with heq
  · rw [heq, hsize]
  · rfl

theorem CacheOk.giveBack (h : CacheOk s blocks) (hb : b ∈ s.extracted) :
    CacheOk (s.giveBack b.1) blocks := by
  have hid : IsNode { s.header b.1 with dataType := .cachedblock, flags := eventFlags } :=
    ⟨nofun, rfl, rfl⟩
  have hsize : ({ s.header b.1 with dataType := .cachedblock, flags := eventFlags } :
      Header).dataSize = s.dataSize b.1 := rfl
  have hfile := (h.retag (mem_held_of_extracted hb) hid hsize).file (b := b) hb
  rw [dataSize_retag s b.1 b.1 hsize] at hfile
  exact hfile

theorem appendNode_dataSize (s : EventCache) (node q : Ptr) :
    (s.appendNode node).dataSize q = s.dataSize q :=
  @dataSize_retag s node q { s.header node with dataType := .cachedblock, flags := eventFlags } rfl

theorem mem_appendNode (node : Ptr) (h : ptr ∈ s.m_events i) :
    ptr ∈ (s.appendNode node).m_events i := by
  change ptr ∈ Function.update s.m_events (listOf (s.dataSize node))
    (s.m_events (listOf (s.dataSize node)) ++ [node]) i
  by_cases hi : i = listOf (s.dataSize node)
  · subst hi
    rw [Function.update_self]
    exact List.mem_append_left _ h
  · rwa [Function.update_of_ne hi]

theorem CacheOk.takeNode (h : CacheOk s blocks) {dataType : DataType}
    (htype : dataType ≠ .freeblock) (hi : i < c_maxFastLists)
    (hptr : ptr ∈ s.m_events i) :
    CacheOk { s.takeNode dataType i ptr with
      extracted := (ptr, s.dataSize ptr) :: s.extracted } blocks := by
  have hunfile := h.unfile hi hptr
  have hmem : ptr ∈ { s.unlink i ptr with
      extracted := (ptr, s.dataSize ptr) :: s.extracted }.held :=
    mem_held_of_extracted (b := (ptr, s.dataSize ptr)) List.mem_cons_self
  have hid : IsNode { s.header ptr with dataType := dataType, flags := eventFlags } :=
    ⟨htype, rfl, rfl⟩
  exact hunfile.retag hmem hid rfl

/-! ### `Extract_Node_Slow` -/

/-- The block that is chosen is in the list, and large enough. -/
theorem bestFit_spec {blocks : UInt32}
    (h : s.bestFit blocks (s.m_events 0) none = some (ptr, size)) :
    ptr ∈ s.m_events 0 ∧ size = s.dataSize ptr ∧ blocks.toNat ≤ size := by
  have hloop : ∀ (ptrs : List Ptr) (best : Option (Ptr × Nat)), (∀ q ∈ ptrs, q ∈ s.m_events 0) →
      (∀ x ∈ best, x.1 ∈ s.m_events 0 ∧ x.2 = s.dataSize x.1 ∧ blocks.toNat ≤ x.2) →
      ∀ x ∈ s.bestFit blocks ptrs best,
        x.1 ∈ s.m_events 0 ∧ x.2 = s.dataSize x.1 ∧ blocks.toNat ≤ x.2 := by
    intro ptrs
    induction ptrs with
    | nil => exact fun best _ hbest => hbest
    | cons q rest ih =>
      intro best hmem hbest
      have hq := hmem q List.mem_cons_self
      have hrest := fun x hx => hmem x (List.mem_cons_of_mem q hx)
      unfold bestFit
      by_cases hexact : s.dataSize q = blocks.toNat
      · rw [if_pos hexact]
        intro x hx
        rw [← Option.mem_some.mp hx]
        exact ⟨hq, hexact.symm, Nat.le_refl _⟩
      · rw [if_neg hexact]
        by_cases hlarge : s.dataSize q ≥ blocks.toNat
        · rw [if_pos hlarge]
          have hchosen := ih (some (q, s.dataSize q)) hrest fun x hx => by
            rw [← Option.mem_some.mp hx]
            exact ⟨hq, rfl, hlarge⟩
          have hkept := ih best hrest hbest
          cases best with
          | none =>
            simp only
            split_ifs
            · exact hchosen
            · exact hkept
          | some found =>
            simp only
            split_ifs
            · exact hchosen
            · exact hkept
        · rw [if_neg hlarge]
          exact ih best hrest hbest
  exact hloop (s.m_events 0) none (fun _ hq => hq) (fun x hx => absurd hx (by simp)) (ptr, size) h

theorem CacheOk.tail_fresh (h : CacheOk s blocks) (hptr : ptr ∈ s.held)
    (hpos : 0 < size) (hless : size < s.dataSize ptr) : (ptr.1, ptr.2 + size) ∉ s.held := by
  intro hq
  obtain ⟨hheap, hmem, -⟩ := h.heldOk ptr hptr
  obtain ⟨-, hin, -⟩ := h.heldOk _ hq
  have hsame := (h.wellFormed _ hheap).tiles.eq_of_overlap hmem hin
    (Nat.lt_of_lt_of_le (Nat.lt_add_of_pos_right hpos) (Nat.le_add_right _ _))
    (Nat.add_lt_add_left hless _)
  omega

theorem CacheOk.ne_of_filed (h : CacheOk s blocks) (hi : i < c_maxFastLists)
    (hptr : ptr ∈ s.m_events i) (hb : b ∈ s.extracted) : b.1 ≠ ptr := by
  intro heq
  have hnodup := h.nodup
  rw [held, Multiset.nodup_add] at hnodup
  refine Multiset.disjoint_left.mp hnodup.2.2 (Multiset.mem_coe.mpr (List.mem_map_of_mem hb)) ?_
  rw [heq]
  exact mem_shelved.mpr ⟨i, hi, hptr⟩

theorem CacheOk.shelved_cons (h : CacheOk s blocks) (hi : i < c_maxFastLists)
    (hptr : ptr ∈ s.m_events i) : ∃ rest, shelved c_maxFastLists s.m_events = ptr ::ₘ rest ∧
      ∀ q ∈ rest, q ∈ s.held ∧ q ≠ ptr := by
  obtain ⟨rest, hrest⟩ := Multiset.exists_cons_of_mem (mem_shelved.mpr ⟨i, hi, hptr⟩)
  have hnodup := h.nodup
  rw [held, Multiset.nodup_add, hrest, Multiset.nodup_cons] at hnodup
  refine ⟨rest, hrest, fun q hq => ⟨Multiset.mem_add.mpr (Or.inr ?_), ?_⟩⟩
  · rw [hrest]
    exact Multiset.mem_cons_of_mem hq
  · intro heq
    exact hnodup.2.1.1 (heq ▸ hq)

/-! ### Splitting a block -/

/-- The cache after a block has been split; its tail counts as extracted. -/
def splitBlock (s : EventCache) (ptr : Ptr) (size : Nat) (first second : Header) : EventCache :=
  { (s.setDataId ptr first).setDataId (ptr.1, ptr.2 + size) second with
    extracted := ((ptr.1, ptr.2 + size), s.dataSize ptr - size) :: s.extracted }

/-- A block of the first list, and the headers of its two parts -/
structure Splits (s : EventCache) (ptr : Ptr) (size : Nat) (first second : Header) : Prop where
  filed : ptr ∈ s.m_events 0
  large : c_maxFastLists ≤ size
  less : size < s.dataSize ptr
  first_size : first.dataSize = size
  second_size : second.dataSize = s.dataSize ptr - size
  first_node : IsNode first
  second_node : IsNode second

section Split

variable {first second : Header}

theorem Splits.held (hs : Splits s ptr size first second) : ptr ∈ s.held :=
  mem_held_of_filed (by decide) hs.filed

theorem Splits.pos (hs : Splits s ptr size first second) : 0 < size :=
  Nat.lt_of_lt_of_le (by decide) hs.large

theorem header_splitBlock (s : EventCache) (ptr : Ptr) (size : Nat) (first second : Header)
    (q : Ptr) : (s.splitBlock ptr size first second).header q =
      if q = (ptr.1, ptr.2 + size) then second else if q = ptr then first else s.header q := by
  change ((s.setDataId ptr first).setDataId (ptr.1, ptr.2 + size) second).header q = _
  rw [header_setDataId, header_setDataId]

theorem header_tail (s : EventCache) (ptr : Ptr) (size : Nat) (first second : Header) :
    (s.splitBlock ptr size first second).header (ptr.1, ptr.2 + size) = second := by
  rw [header_splitBlock, if_pos rfl]

theorem held_splitBlock (s : EventCache) (ptr : Ptr) (size : Nat) (first second : Header) :
    (s.splitBlock ptr size first second).held = (ptr.1, ptr.2 + size) ::ₘ s.held := by
  rw [EventCache.held, EventCache.held, splitBlock, List.map_cons, ← Multiset.cons_coe,
    Multiset.cons_add]
  rfl

theorem clusters_splitBlock (s : EventCache) (ptr : Ptr) (size : Nat) (first second : Header) :
    (s.splitBlock ptr size first second).clusters =
      Function.update s.clusters ptr.1 { s.clusters ptr.1 with
        headers := ((s.clusters ptr.1).headers.set ptr.2 first).set (ptr.2 + size) second } := by
  simp only [splitBlock, setDataId, EventCache.setCluster, Function.update_self,
    Function.update_idem]

theorem CacheOk.header_first (h : CacheOk s blocks) (hs : Splits s ptr size first second) :
    (s.splitBlock ptr size first second).header ptr = first := by
  have hfresh : ptr ≠ (ptr.1, ptr.2 + size) :=
    fun heq => h.tail_fresh hs.held hs.pos hs.less (heq ▸ hs.held)
  rw [header_splitBlock, if_neg hfresh, if_pos rfl]

theorem CacheOk.header_kept (h : CacheOk s blocks) (hs : Splits s ptr size first second) {q : Ptr}
    (hq : q ∈ s.held) (hne : q ≠ ptr) :
    (s.splitBlock ptr size first second).header q = s.header q := by
  have hfresh : q ≠ (ptr.1, ptr.2 + size) :=
    fun heq => h.tail_fresh hs.held hs.pos hs.less (heq ▸ hq)
  rw [header_splitBlock, if_neg hfresh, if_neg hne]

/-- The cluster of the block has one block more, and the other clusters are as they were. -/
theorem CacheOk.split_clusters (h : CacheOk s blocks) (hs : Splits s ptr size first second) :
    ∃ blocks' : Nat → List Nat, (∀ c ∈ s.m_heap,
        WellFormed ((s.splitBlock ptr size first second).clusters c) (blocks' c) ∧
          ((s.splitBlock ptr size first second).clusters c).events = []) ∧
      (∀ q : Ptr, q.2 ∈ blocks q.1 → q.2 ∈ blocks' q.1) ∧ ptr.2 + size ∈ blocks' ptr.1 := by
  obtain ⟨hheap, hmem, hused, -, -⟩ := h.heldOk ptr hs.held
  obtain ⟨front, back, hblocks⟩ := List.append_of_mem hmem
  rw [List.append_cons] at hblocks
  have hwf := h.wellFormed ptr.1 hheap
  rw [hblocks] at hwf
  refine ⟨Function.update blocks ptr.1 (front ++ [ptr.2, ptr.2 + size] ++ back), fun c hc => ?_,
    fun q hq => ?_, ?_⟩
  · rw [clusters_splitBlock]
    by_cases heq : c = ptr.1
    · subst heq
      rw [Function.update_self, Function.update_self]
      exact ⟨hwf.split (h.events _ hc) hused hs.pos hs.less hs.first_size hs.second_size
        hs.first_node.1 hs.second_node.1, h.events _ hc⟩
    · rw [Function.update_of_ne heq, Function.update_of_ne heq]
      exact ⟨h.wellFormed c hc, h.events c hc⟩
  · by_cases hc : q.1 = ptr.1
    · rw [hc, hblocks] at hq
      rw [hc, Function.update_self]
      simp only [List.mem_append, List.mem_cons, List.not_mem_nil, or_false] at hq ⊢
      tauto
    · rwa [Function.update_of_ne hc]
  · rw [Function.update_self]
    simp

theorem CacheOk.split_dataSize (h : CacheOk s blocks) (hs : Splits s ptr size first second)
    {q : Ptr} (hq : q ∈ s.held) (hne : q ≠ ptr) :
    (s.splitBlock ptr size first second).dataSize q = s.dataSize q :=
  congrArg Header.dataSize (h.header_kept hs hq hne)

/-- The two parts have the cells of the block. -/
theorem CacheOk.split_accounts (h : CacheOk s blocks) (hs : Splits s ptr size first second) :
    account (s.taken : Multiset (Block Nat)) =
      account ((s.splitBlock ptr size first second).extracted : Multiset (Block Nat)) +
        account (s.splitBlock ptr size first second).filed +
          account (s.freed : Multiset (Block Nat)) := by
  obtain ⟨rest, hrest, hrestNe⟩ := h.shelved_cons (by decide) hs.filed
  have hfiled : s.filed = (ptr, size + (s.dataSize ptr - size)) ::ₘ
      rest.map fun q => (q, s.dataSize q) := by
    rw [EventCache.filed, hrest, Multiset.map_cons, Nat.add_sub_cancel' (Nat.le_of_lt hs.less)]
  have hfiled' : (s.splitBlock ptr size first second).filed =
      (ptr, size) ::ₘ rest.map fun q => (q, s.dataSize q) := by
    change (shelved c_maxFastLists s.m_events).map _ = _
    rw [hrest, Multiset.map_cons, dataSize, h.header_first hs, hs.first_size]
    congr 1
    exact Multiset.map_congr rfl fun q hq => by
      rw [h.split_dataSize hs (hrestNe q hq).1 (hrestNe q hq).2]
  have haccounts := h.accounts
  rw [hfiled, account_cut, account_cons, account_cons] at haccounts
  rw [hfiled', account_cons, haccounts, splitBlock, ← Multiset.cons_coe, account_cons]
  abel

/-- A block of the first list is split, and the cache is as it should be. -/
theorem CacheOk.split (h : CacheOk s blocks) (hs : Splits s ptr size first second) :
    (s.splitBlock ptr size first second).Ok := by
  obtain ⟨blocks', hclusters, hold, hnew⟩ := h.split_clusters hs
  refine ⟨blocks', fun c hc => (hclusters c hc).1, fun c hc => (hclusters c hc).2, fun q hq => ?_,
    ?_, fun i hi q hq => ?_, fun b hb => ?_, h.split_accounts hs⟩
  · rw [held_splitBlock, Multiset.mem_cons] at hq
    rcases hq with rfl | hq
    · rw [header_tail]
      exact ⟨(h.heldOk ptr hs.held).1, hnew, hs.second_node⟩
    · obtain ⟨hin, hmem, hnode⟩ := h.heldOk q hq
      refine ⟨hin, hold q hmem, ?_⟩
      by_cases hne : q = ptr
      · rw [hne, h.header_first hs]
        exact hs.first_node
      · rw [h.header_kept hs hq hne]
        exact hnode
  · rw [held_splitBlock]
    exact Multiset.nodup_cons.mpr ⟨h.tail_fresh hs.held hs.pos hs.less, h.nodup⟩
  · -- the front is still too large for a fast list
    have hclass := h.classes i hi q hq
    by_cases hne : q = ptr
    · have hless := hs.less
      have hlarge := hs.large
      rw [hne, dataSize, h.header_first hs, hs.first_size, listOf, if_neg (Nat.not_lt.mpr hlarge)]
      rw [hne, listOf, if_neg (by omega)] at hclass
      exact hclass
    · rw [h.split_dataSize hs (mem_held_of_filed hi hq) hne]
      exact hclass
  · rcases List.mem_cons.mp hb with rfl | hb
    · rw [dataSize, header_tail, hs.second_size]
    · rw [h.split_dataSize hs (mem_held_of_extracted hb) (h.ne_of_filed (by decide) hs.filed hb)]
      exact h.sized b hb

end Split

theorem giveBack_cons (s : EventCache) (node : Ptr) (size : Nat) :
    { s with extracted := (node, size) :: s.extracted }.giveBack node = s.appendNode node := by
  have herase : ((node, size) :: s.extracted).eraseP (fun b => b.1 = node) = s.extracted :=
    List.eraseP_cons_of_pos (decide_eq_true rfl)
  calc { s with extracted := (node, size) :: s.extracted }.giveBack node
      = { s.appendNode node with
          extracted := ((node, size) :: s.extracted).eraseP fun b => b.1 = node } := rfl
    _ = s.appendNode node := by
        rw [herase]
        rfl

theorem CacheOk.requeueTail (h : CacheOk s blocks) (hptr : ptr ∈ s.m_events 0)
    (hlarge : c_maxFastLists ≤ size) (hless : size < s.dataSize ptr)
    (hmax : s.dataSize ptr ≤ HB_MaxSize) :
    (s.requeueTail ptr (s.dataSize ptr) size).Ok ∧
      ptr ∈ (s.requeueTail ptr (s.dataSize ptr) size).m_events 0 ∧
      (s.requeueTail ptr (s.dataSize ptr) size).dataSize ptr = size ∧
      (s.requeueTail ptr (s.dataSize ptr) size).extracted = s.extracted := by
  have hpos : 0 < size := Nat.lt_of_lt_of_le (by decide) hlarge
  have hfirst : (rawId .cachedblock eventFlags size).dataSize = size := rawId_dataSize (by omega)
  have hnode : ∀ size, IsNode (rawId .cachedblock eventFlags size) := fun _ => ⟨nofun, rfl, rfl⟩
  obtain ⟨blocks', hsplit⟩ := h.split ⟨hptr, hlarge, hless, hfirst, rawId_dataSize (by omega),
    hnode size, hnode (s.dataSize ptr - size)⟩
  have hback := congrArg (CacheOk · blocks') (giveBack_cons
    ((s.setDataId ptr (rawId .cachedblock eventFlags size)).setDataId (ptr.1, ptr.2 + size)
      (rawId .cachedblock eventFlags (s.dataSize ptr - size)))
    (ptr.1, ptr.2 + size) (s.dataSize ptr - size))
  refine ⟨⟨blocks', hback.mp (hsplit.giveBack List.mem_cons_self)⟩, ?_, ?_, rfl⟩
  · exact mem_appendNode _ hptr
  · have hne : ptr ≠ (ptr.1, ptr.2 + size) := by
      intro heq
      have hsnd := congrArg Prod.snd heq
      exact absurd hsnd (by simp only; omega)
    rw [EventCache.requeueTail, appendNode_dataSize, dataSize, header_of_ne _ _ hne, header_self,
      hfirst]

end EventCache

end TinyClr.Heap
