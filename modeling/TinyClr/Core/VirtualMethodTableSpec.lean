import TinyClr.Core.VirtualMethodTable
import TinyClr.Core.VirtualDispatchSpec
import TinyClr.Library.HeadedRing
import Mathlib.Data.List.Range

/-!
# The cache of virtual methods is transparent

Every call finds what it would find without the cache.  Each entry is in the ring of its key's hash
or in no ring of the first table, and the ring of the second table goes through all of them.
-/

namespace TinyClr.EventCache

open TinyClr.Library

/-! ### Links -/

namespace LinkTable

def toLinks (links : LinkTable) : Links Nat where
  next := fun idx => (links.m_next idx).toNat
  prev := fun idx => (links.m_prev idx).toNat

variable {links : LinkTable} {idx slot v : Nat}

theorem toNat_update {f : Nat → UInt16} (hv : v < 0x10000) :
    (fun i => (Function.update f idx (UInt16.ofNat v) i).toNat)
      = Function.update (fun i => (f i).toNat) idx v := by
  funext i
  by_cases hi : i = idx
  · subst hi
    rw [Function.update_self, Function.update_self, UInt16.toNat_ofNat', Nat.mod_eq_of_lt hv]
  · rw [Function.update_of_ne hi, Function.update_of_ne hi]

theorem next_lt (links : LinkTable) (idx : Nat) : links.toLinks.next idx < 0x10000 :=
  UInt16.toNat_lt _

theorem prev_lt (links : LinkTable) (idx : Nat) : links.toLinks.prev idx < 0x10000 :=
  UInt16.toNat_lt _

theorem toLinks_setNext (hv : v < 0x10000) : (links.setNext idx v).toLinks
    = ⟨Function.update links.toLinks.next idx v, links.toLinks.prev⟩ := by
  rw [toLinks, setNext, toNat_update hv]
  rfl

theorem toLinks_setPrev (hv : v < 0x10000) : (links.setPrev idx v).toLinks
    = ⟨links.toLinks.next, Function.update links.toLinks.prev idx v⟩ := by
  rw [toLinks, setPrev, toNat_update hv]
  rfl

theorem toLinks_unlink : ((links.setPrev (links.toLinks.next idx) (links.toLinks.prev idx)).setNext
    (links.toLinks.prev idx) (links.toLinks.next idx)).toLinks = links.toLinks.unlink idx := by
  rw [toLinks_setNext (next_lt _ _), toLinks_setPrev (prev_lt _ _)]
  rfl

theorem toLinks_insertFirst (hslot : slot < 0x10000) (hidx : idx < 0x10000) :
    ((((links.setNext idx (links.toLinks.next slot)).setPrev idx slot).setNext slot idx).setPrev
      (links.toLinks.next slot) idx).toLinks = links.toLinks.insertFirst slot idx := by
  rw [toLinks_setPrev hidx, toLinks_setNext hidx, toLinks_setPrev hslot,
    toLinks_setNext (next_lt _ _)]
  rfl

theorem toLinks_moveEntryToTop (hslot : slot < 0x10000) (hidx : idx < 0x10000) :
    (links.moveEntryToTop slot idx).toLinks = links.toLinks.moveToFront slot idx := by
  rw [moveEntryToTop, Links.moveToFront]
  by_cases hfirst : links.toLinks.next slot = idx
  · exact (congrArg toLinks (if_neg (not_not_intro hfirst))).trans (if_pos hfirst).symm
  · refine (congrArg toLinks (if_pos hfirst)).trans (Eq.trans ?_ (if_neg hfirst).symm)
    rw [← toLinks_unlink]
    exact toLinks_insertFirst hslot hidx

end LinkTable

/-! ### The table -/

/-- The indices of the heads of the rings of hashes -/
def IsHead (p : Platform) (h : Nat) : Prop := p.payloadArraySize ≤ h ∧ h < p.linkArraySize

def IsEntry (p : Platform) (idx : Nat) : Prop := idx < p.payloadArraySize

def Holds (findVirtualMethodDef : TypeDefIndex → MethodDefIndex → Option (Option MethodDefIndex))
    (payload : Payload) : Prop :=
  ∀ call : Call, key call.cls call.mdVirtual = payload.key →
    findVirtualMethodDef call.cls call.mdVirtual = some (some payload.md)

/-- The entries are in the rings `bucket` of the hashes of their keys, each in one of them at most,
    and all of them in the ring `recent`. -/
structure Consistent (p : Platform)
    (findVirtualMethodDef : TypeDefIndex → MethodDefIndex → Option (Option MethodDefIndex))
    (t : VirtualMethodTable) (bucket : Nat → List Nat) (recent : List Nat) : Prop where
  rings : Rings t.entries.toLinks (IsHead p) (IsEntry p) bucket
  hashed : ∀ h, IsHead p h → ∀ idx ∈ bucket h, idxHead p (t.payloads idx).key = h
  holds : ∀ h, IsHead p h → ∀ idx ∈ bucket h, Holds findVirtualMethodDef (t.payloads idx)
  ring : Rings t.entriesMRU.toLinks (· = p.linkMRUArraySize - 1) (IsEntry p) fun _ => recent
  perm : recent.Perm (List.range p.payloadArraySize)

variable {p : Platform} {owner : MethodDefIndex → Nat}
  {findVirtualMethodDef : TypeDefIndex → MethodDefIndex → Option (Option MethodDefIndex)}
  {t : VirtualMethodTable} {bucket : Nat → List Nat} {recent : List Nat}

theorem data_inj {a b r s : Nat} (hr : r < 0x10000) (hs : s < 0x10000)
    (h : data a r = data b s) : a = b ∧ r = s := by
  rw [data, data] at h
  constructor
  · omega
  · omega

theorem key_inj {call call' : Call}
    (h : key call.cls call.mdVirtual = key call'.cls call'.mdVirtual) :
    call.cls = call'.cls ∧ call.mdVirtual = call'.mdVirtual := by
  obtain ⟨hmd, hcls⟩ := Key.mk.inj h
  obtain ⟨hassm, htype⟩ := data_inj call.cls_lt.2 call'.cls_lt.2 hcls
  obtain ⟨hassm', hmethod⟩ := data_inj call.mdVirtual_lt.2 call'.mdVirtual_lt.2 hmd
  exact ⟨congrArg₂ TypeDefIndex.mk hassm htype, congrArg₂ MethodDefIndex.mk hassm' hmethod⟩

theorem isHead_idxHead (key : Key) : IsHead p (idxHead p key) := by
  have hlt := Nat.mod_lt (Support.computeCRC key.bytes 8 0).toNat p.hashTableSize_pos
  have hsize : p.linkArraySize - p.payloadArraySize = p.hashTableSize := Nat.add_sub_cancel_left _ _
  rw [IsHead, idxHead, hsize]
  refine ⟨Nat.le_add_left _ _, ?_⟩
  rw [Platform.linkArraySize, Platform.payloadArraySize]
  omega

theorem head_not_entry {h : Nat} (hh : IsHead p h) : ¬IsEntry p h := Nat.not_lt.mpr hh.1

theorem init_recent (scratch : VirtualMethodTable) :
    (VirtualMethodTable.init p scratch).entriesMRU.toLinks.IsRing (p.linkMRUArraySize - 1)
      (List.range p.payloadArraySize) := by
  have hpos : 0 < p.payloadArraySize := p.entrySize_pos
  have hlt : p.payloadArraySize < 0x10000 := by
    have hhash := p.hashTableSize_pos
    have hle := p.links_le
    rw [Platform.payloadArraySize]
    omega
  have hhead : p.linkMRUArraySize - 1 = p.payloadArraySize := rfl
  have hsize : p.linkMRUArraySize = p.payloadArraySize + 1 := rfl
  have hjoined {a b : Nat} (ha : a ≤ p.payloadArraySize)
      (hb : b = if a = p.payloadArraySize then 0 else a + 1) :
      (VirtualMethodTable.init p scratch).entriesMRU.toLinks.Joined a b := by
    have hble : b ≤ p.payloadArraySize := by
      split at hb
      · omega
      · omega
    constructor
    · simp only [LinkTable.toLinks, VirtualMethodTable.init]
      rw [if_pos (by omega), hhead, ← hb, UInt16.toNat_ofNat', Nat.mod_eq_of_lt (by omega)]
    · simp only [LinkTable.toLinks, VirtualMethodTable.init]
      rw [if_pos (by omega), hhead, UInt16.toNat_ofNat']
      split at hb
      · rw [if_pos hb, Nat.mod_eq_of_lt hlt]
        omega
      · rw [if_neg (by omega), Nat.mod_eq_of_lt (by omega)]
        omega
  rw [Links.IsRing, hhead, ← List.range_succ]
  refine List.isChain_cons.mpr ⟨?_, (List.isChain_range_succ _ _).mpr fun a ha => ?_⟩
  · intro y hy
    rw [List.head?_range, if_neg (Nat.succ_ne_zero _)] at hy
    cases hy
    exact hjoined (Nat.le_refl _) (if_pos rfl).symm
  · exact hjoined (Nat.le_of_lt ha) (if_neg (Nat.ne_of_lt ha)).symm

theorem init_consistent (scratch : VirtualMethodTable) :
    Consistent p findVirtualMethodDef (VirtualMethodTable.init p scratch) (fun _ => [])
      (List.range p.payloadArraySize) := by
  have hpos := p.entrySize_pos
  have hhash := p.hashTableSize_pos
  have hle := p.links_le
  have hself {idx : Nat} (hidx : idx < p.linkArraySize) :
      (VirtualMethodTable.init p scratch).entries.toLinks.IsRing idx [] := by
    have hmod : idx % 2 ^ 16 = idx := by
      rw [Platform.linkArraySize] at hidx
      omega
    refine Links.isRing_nil.mpr ⟨?_, ?_⟩
    · simp only [LinkTable.toLinks, VirtualMethodTable.init, if_pos hidx, UInt16.toNat_ofNat', hmod]
    · simp only [LinkTable.toLinks, VirtualMethodTable.init, if_pos hidx, UInt16.toNat_ofNat', hmod]
  refine ⟨⟨fun h hh => hself hh.2, fun x hx _ => hself ?_, ?_, ?_, ?_⟩, ?_, ?_, ⟨?_, ?_, ?_, ?_, ?_⟩,
    List.Perm.refl _⟩
  · rw [IsEntry, Platform.payloadArraySize] at hx
    rw [Platform.linkArraySize]
    omega
  · exact fun _ _ => List.nodup_nil
  · exact fun _ _ _ h => by cases h
  · exact fun _ _ _ _ _ h => by cases h
  · exact fun _ _ _ h => by cases h
  · exact fun _ _ _ h => by cases h
  · rintro h rfl
    exact init_recent scratch
  · intro x hx hnot
    exact absurd (List.mem_range.mpr hx) (hnot _ rfl)
  · exact fun _ _ => List.nodup_range
  · exact fun _ _ x hx => List.mem_range.mp hx
  · rintro g h rfl rfl _ _ _
    rfl

/-! ### Calls -/

/-- The loop over a ring finds the first entry with the key. -/
theorem search_spec {head : Nat} {key : Key} (ys : List Nat) (hhead : head ∉ ys) :
    ∀ {fuel x : Nat}, (x :: (ys ++ [head])).IsChain t.entries.toLinks.Joined → ys.length < fuel →
      t.search key head fuel (t.entries.m_next x).toNat
        = some (ys.find? fun idx => decide ((t.payloads idx).key = key)) := by
  induction ys with
  | nil =>
    intro fuel x hchain hfuel
    obtain ⟨hjoined, -⟩ := List.isChain_cons_cons.mp hchain
    have hnext : (t.entries.m_next x).toNat = head := hjoined.1
    cases fuel with
    | zero => exact absurd hfuel (Nat.not_lt_zero _)
    | succ fuel =>
      rw [hnext, VirtualMethodTable.search, if_neg (not_not_intro rfl)]
      rfl
  | cons y ys ih =>
    intro fuel x hchain hfuel
    obtain ⟨hjoined, hrest⟩ := List.isChain_cons_cons.mp hchain
    have hnext : (t.entries.m_next x).toNat = y := hjoined.1
    rw [List.mem_cons, not_or] at hhead
    cases fuel with
    | zero => exact absurd hfuel (Nat.not_lt_zero _)
    | succ fuel =>
      have hrec := ih hhead.2 hrest (Nat.lt_of_succ_lt_succ hfuel)
      rw [hnext, VirtualMethodTable.search, if_pos (Ne.symm hhead.1)]
      by_cases hmd : (t.payloads y).key.mdVirtual = key.mdVirtual
      · rw [if_neg (not_not_intro hmd)]
        by_cases hcls : (t.payloads y).key.cls = key.cls
        · have hkey : (t.payloads y).key = key := by
            rcases hp : (t.payloads y).key with ⟨a, b⟩
            rw [hp] at hmd hcls
            rcases key with ⟨c, d⟩
            exact congrArg₂ Key.mk hmd hcls
          rw [if_neg (not_not_intro hcls), List.find?_cons_of_pos (by simpa using hkey)]
        · rw [if_pos hcls, hrec, List.find?_cons_of_neg]
          exact fun h => hcls (congrArg Key.cls (of_decide_eq_true h))
      · rw [if_pos hmd, hrec, List.find?_cons_of_neg]
        exact fun h => hmd (congrArg Key.mdVirtual (of_decide_eq_true h))

theorem Consistent.toTop (hc : Consistent p findVirtualMethodDef t bucket recent) {idx : Nat}
    (hidx : IsEntry p idx) {payloads : Nat → Payload} {key : Key}
    (hsame : ∀ i, i ≠ idx → payloads i = t.payloads i) (hkey : (payloads idx).key = key)
    (hholds : Holds findVirtualMethodDef (payloads idx)) :
    Consistent p findVirtualMethodDef ({ t with payloads }.toTop p (idxHead p key) idx)
      (moved bucket (idxHead p key) idx) (idx :: recent.erase idx) := by
  have hhead := isHead_idxHead (p := p) key
  have hlt : idx < 0x10000 := by
    have hle := p.links_le
    rw [IsEntry, Platform.payloadArraySize] at hidx
    omega
  have hheadlt : idxHead p key < 0x10000 := Nat.lt_of_lt_of_le hhead.2 p.links_le
  have hmrult : p.linkMRUArraySize - 1 < 0x10000 := Nat.lt_of_le_of_lt hhead.1 hheadlt
  have hmem {h i : Nat} (hh : IsHead p h) :=
    hc.rings.mem_moved (h := idxHead p key) (x := idx) (y := i) hh hhead
  refine ⟨?_, fun h hh i hi => ?_, fun h hh i hi => ?_, ?_, ?_⟩
  · have hrings := hc.rings.moveToFront (fun _ => head_not_entry) hidx hhead
    rwa [← LinkTable.toLinks_moveEntryToTop hheadlt hlt] at hrings
  · rcases (hmem hh).mp hi with ⟨heq, hhead⟩ | ⟨hne, hi⟩
    · rw [hhead, ← hkey, heq]
      rfl
    · have hold := hc.hashed h hh i hi
      rw [← hsame i hne] at hold
      exact hold
  · rcases (hmem hh).mp hi with ⟨heq, -⟩ | ⟨hne, hi⟩
    · rw [heq]
      exact hholds
    · have hold := hc.holds h hh i hi
      rw [← hsame i hne] at hold
      exact hold
  · have hring := hc.ring.moveToFront (by rintro _ rfl; exact Nat.lt_irrefl _) hidx rfl
    rw [← LinkTable.toLinks_moveEntryToTop hmrult hlt] at hring
    refine hring.congr fun g hg => ?_
    rw [moved, if_pos hg]
  · have hin : idx ∈ recent := hc.perm.mem_iff.mpr (List.mem_range.mpr hidx)
    exact (List.perm_cons_erase hin).symm.trans hc.perm

theorem Consistent.getNewEntry (hc : Consistent p findVirtualMethodDef t bucket recent) :
    IsEntry p (t.getNewEntry p) := by
  have hlast : t.getNewEntry p = recent.getLastD (p.linkMRUArraySize - 1) :=
    (hc.ring.ring _ rfl).prev_head
  have hlength : recent.length = p.payloadArraySize := by
    rw [hc.perm.length_eq, List.length_range]
  have hpos : 0 < p.payloadArraySize := p.entrySize_pos
  rcases List.eq_nil_or_concat recent with hnil | ⟨front, x, hx⟩
  · rw [hnil] at hlength
    exact absurd hlength.symm (Nat.pos_iff_ne_zero.mp hpos)
  · rw [hx, List.concat_eq_append, List.getLastD_concat] at hlast
    rw [hlast]
    refine hc.ring.entry _ rfl x ?_
    rw [hx, List.concat_eq_append]
    exact List.mem_append_right _ (List.mem_singleton_self x)

/-- **One call** finds what it finds without the cache. -/
theorem findVirtualMethod_spec (hc : Consistent p findVirtualMethodDef t bucket recent) (call : Call)
    {md : Option MethodDefIndex}
    (hmd : VirtualMethodTable.uncached owner findVirtualMethodDef call.cls call.mdVirtual = some md) :
    ∃ t' bucket' recent',
      t.findVirtualMethod p owner findVirtualMethodDef call.cls call.mdVirtual = some (md, t') ∧
      Consistent p findVirtualMethodDef t' bucket' recent' := by
  rw [VirtualMethodTable.uncached] at hmd
  by_cases hterminal : VirtualMethodTable.terminal owner call.cls call.mdVirtual = true
  · rw [if_pos hterminal] at hmd
    cases hmd
    exact ⟨t, bucket, recent, if_pos hterminal, hc⟩
  rw [if_neg hterminal] at hmd
  have hhead := isHead_idxHead (p := p) (key call.cls call.mdVirtual)
  set head := idxHead p (key call.cls call.mdVirtual) with hdef
  have hnot : head ∉ bucket head := fun hmem => head_not_entry hhead (hc.rings.entry _ hhead _ hmem)
  have hfuel : (bucket head).length < p.linkArraySize := by
    have hsub : bucket head ⊆ List.range p.payloadArraySize := fun i hi =>
      List.mem_range.mpr (hc.rings.entry _ hhead i hi)
    have hle := ((hc.rings.nodup _ hhead).subperm hsub).length_le
    rw [List.length_range] at hle
    exact Nat.lt_of_le_of_lt hle (Nat.lt_of_le_of_lt hhead.1 hhead.2)
  have hsearch : t.search (key call.cls call.mdVirtual) head p.linkArraySize
      (t.entries.m_next head).toNat = _ :=
    search_spec (bucket head) hnot (hc.rings.ring _ hhead) hfuel
  rw [VirtualMethodTable.findVirtualMethod, if_neg hterminal]
  simp only [Option.bind_eq_bind, ← hdef, hsearch, Option.bind_some]
  rcases hfind : (bucket head).find? fun idx =>
      decide ((t.payloads idx).key = key call.cls call.mdVirtual) with _ | idx
  · simp only [hmd, Option.bind_some]
    rcases md with _ | md
    · exact ⟨t, bucket, recent, rfl, hc⟩
    · refine ⟨_, _, _, rfl, hc.toTop hc.getNewEntry (fun i hi => Function.update_of_ne hi _ _) ?_ ?_⟩
      · rw [Function.update_self]
      · rw [Function.update_self]
        intro call' hkey
        obtain ⟨hcls, hmdVirtual⟩ := key_inj hkey
        rw [hcls, hmdVirtual]
        exact hmd
  · have hmem := List.mem_of_find?_eq_some hfind
    have hkey : (t.payloads idx).key = key call.cls call.mdVirtual := by
      simpa using List.find?_some hfind
    have hholds := hc.holds _ hhead idx hmem
    have heq := hholds call hkey.symm
    rw [hmd] at heq
    obtain rfl := Option.some.inj heq
    exact ⟨_, _, _, rfl, hc.toTop (hc.rings.entry _ hhead idx hmem) (fun _ _ => rfl) hkey hholds⟩

/-- A run from a consistent table -/
theorem run_spec (calls : List Call) : ∀ {t bucket recent mds},
    Consistent p findVirtualMethodDef t bucket recent →
    calls.mapM (fun call =>
      VirtualMethodTable.uncached owner findVirtualMethodDef call.cls call.mdVirtual) = some mds →
    ∃ t' bucket' recent', run p owner findVirtualMethodDef calls t = some (mds, t') ∧
      Consistent p findVirtualMethodDef t' bucket' recent' := by
  induction calls with
  | nil =>
    intro t bucket recent mds hc hmds
    cases hmds
    exact ⟨t, bucket, recent, rfl, hc⟩
  | cons call calls ih =>
    intro t bucket recent mds hc hmds
    rw [List.mapM_cons] at hmds
    obtain ⟨md, hmd, hmds⟩ := Option.bind_eq_some_iff.mp hmds
    obtain ⟨mds', hmds', heq⟩ := Option.bind_eq_some_iff.mp hmds
    obtain rfl := Option.some.inj heq
    obtain ⟨t₁, bucket₁, recent₁, hcall, hc₁⟩ := findVirtualMethod_spec hc call hmd
    obtain ⟨t₂, bucket₂, recent₂, hrun, hc₂⟩ := ih hc₁ hmds'
    refine ⟨t₂, bucket₂, recent₂, ?_, hc₂⟩
    rw [run, hcall]
    simp only [Option.bind_eq_bind, Option.bind_some, hrun]

/-- **The cache is transparent**: every call of a run finds what it finds without the cache, and
    leaves every entry in the ring of its key, if in any, and once in the ring of all entries. -/
theorem cache_transparent (p : Platform) (owner : MethodDefIndex → Nat)
    (findVirtualMethodDef : TypeDefIndex → MethodDefIndex → Option (Option MethodDefIndex))
    (scratch : VirtualMethodTable) (calls : List Call) {mds : List (Option MethodDefIndex)}
    (hmds : calls.mapM (fun call =>
      VirtualMethodTable.uncached owner findVirtualMethodDef call.cls call.mdVirtual) = some mds) :
    ∃ t bucket recent,
      run p owner findVirtualMethodDef calls (VirtualMethodTable.init p scratch) = some (mds, t) ∧
      Consistent p findVirtualMethodDef t bucket recent :=
  let ⟨t, bucket, recent, hrun, hc⟩ := run_spec calls (init_consistent scratch) hmds
  ⟨t, bucket, recent, hrun, hc⟩

open ExecutionEngine VirtualDispatch in
/-- A class, one derived from it and one derived from that, which all have the virtual method -/
def threeClasses : TypeSystem where
  assemblies :=
    [{ typeDef :=
        [{ plainType none .classType [] with vMethods_Num := 1 },
         { plainType (some (.typeDef 0)) .classType [] with methods_First := 1, vMethods_Num := 1 },
         { plainType (some (.typeDef 1)) .classType [] with methods_First := 2, vMethods_Num := 1 }]
       fieldDef := []
       methodDef := [plainMethod true, plainMethod false, plainMethod false]
       typeRef := []
       typeSpec := [] }]
  wellKnown := smallSystem.wellKnown

/-- A method of one of these classes is called on an instance of another. -/
def overridden (cls md : Fin 3) : Call where
  cls := ⟨0, cls⟩
  mdVirtual := ⟨0, md⟩
  cls_lt := ⟨(by decide : 0 + 1 < 0x10000), cls.isLt.trans (by decide)⟩
  mdVirtual_lt := ⟨(by decide : 0 + 1 < 0x10000), md.isLt.trans (by decide)⟩

def twoEntries : Platform := ⟨2, 2, Nat.two_pos, Nat.two_pos, by decide⟩

def cleared : VirtualMethodTable where
  entries := ⟨fun _ => 0, fun _ => 0⟩
  entriesMRU := ⟨fun _ => 0, fun _ => 0⟩
  payloads := fun _ => ⟨⟨0, 0⟩, ⟨0, 0⟩⟩

/-- Calls with three keys take turns in two entries. -/
theorem cache_transparent_overridden :
    ∃ t bucket recent,
      run twoEntries MethodDefIndex.method
        (VirtualDispatch.findVirtualMethodDef threeClasses MethodDefIndex.method)
        [overridden 1 0, overridden 2 0, overridden 1 0, overridden 2 1, overridden 2 0,
          overridden 1 0] (VirtualMethodTable.init twoEntries cleared)
          = some ([some ⟨0, 1⟩, some ⟨0, 2⟩, some ⟨0, 1⟩, some ⟨0, 2⟩, some ⟨0, 2⟩,
            some ⟨0, 1⟩], t) ∧
      Consistent twoEntries (VirtualDispatch.findVirtualMethodDef threeClasses
        MethodDefIndex.method) t bucket recent :=
  cache_transparent _ _ _ _ _ (by rfl)

end TinyClr.EventCache
