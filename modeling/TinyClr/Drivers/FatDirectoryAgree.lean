import TinyClr.Drivers.FatDirectorySpec

/-!
# When enumeration and deletion agree

A directory is in order when it is made of deleted slots, short entries and complete runs with the
short entry behind each.  In such a directory `Parse` visits the live short entries, and
`DeleteDirectoryEntry` marks what belongs to the file; in any other one of the two goes wrong.
-/

namespace TinyClr.FatDirectory

variable {dir : Directory} {p d i n : Nat} {s t : Slot} {fs : List FatFile}

/-- The directory is in order from slot `p` on.  A run that `Parse` gives up at does no harm when
    nothing is left to visit. -/
inductive WellFormed (dir : Directory) : Nat → Prop where
  | ends {p : Nat} (h : ∀ s, dir[p]? = some s → s.LDIR_Ord = SLOT_EMPTY) : WellFormed dir p
  | deleted {p : Nat} {s : Slot} (hp : dir[p]? = some s) (hdel : s.LDIR_Ord = SLOT_DELETED)
      (hrest : WellFormed dir (p + 1)) : WellFormed dir p
  | bare {p : Nat} {s : Slot} (hp : dir[p]? = some s) (hlive : s.Live)
      (hrest : WellFormed dir (p + 1)) : WellFormed dir p
  | run {p n : Nat} {t : Slot} (hrun : OwnRun dir (p + n) n) (ht : dir[p + n]? = some t)
      (hlive : t.Live) (hrest : WellFormed dir (p + n + 1)) : WellFormed dir p
  | cut {p : Nat} {s : Slot} (hp : dir[p]? = some s) (hdel : s.LDIR_Ord ≠ SLOT_DELETED)
      (hlast : s.IsLast)
      (hcut : MAX_LONGENTRY_COUNT < s.announced ∨ dir.length ≤ p + max s.announced 1)
      (hnone : ∀ i, p ≤ i → ¬ LiveShort dir i) : WellFormed dir p

/-! ### In a directory in order -/

def Open (dir : Directory) (p : Nat) : Prop :=
  ∀ j < p, ∀ s, dir[j]? = some s → s.LDIR_Ord ≠ SLOT_EMPTY

/-- No run reaches up to `p`. -/
def Apart (dir : Directory) (p : Nat) : Prop :=
  ∀ j s, j + 1 = p → dir[j]? = some s → s.LDIR_Ord = SLOT_DELETED ∨ ¬ s.IsLong

theorem Open.succ (h : Open dir p) (hp : dir[p]? = some s) (hs : s.LDIR_Ord ≠ SLOT_EMPTY) :
    Open dir (p + 1) := by
  intro j hj t ht
  rcases Nat.lt_or_eq_of_le (Nat.le_of_lt_succ hj) with hlt | rfl
  · exact h j hlt t ht
  · obtain rfl : s = t := Option.some.inj (hp.symm.trans ht)
    exact hs

theorem Open.liveShort_iff (h : Open dir p) (hp : dir[p]? = some s) : LiveShort dir p ↔ s.Live := by
  constructor
  · rintro ⟨⟨t, ht, hlive⟩, -⟩
    obtain rfl : s = t := Option.some.inj (hp.symm.trans ht)
    exact hlive
  · intro hlive
    refine ⟨⟨s, hp, hlive⟩, fun j hj t ht => ?_⟩
    exact (h.succ hp hlive.2.1) j (Nat.lt_succ_of_le hj) t ht

theorem Apart.succ (hp : dir[p]? = some s) (hs : s.LDIR_Ord = SLOT_DELETED ∨ ¬ s.IsLong) :
    Apart dir (p + 1) := by
  intro j t hj ht
  obtain rfl : j = p := Nat.succ.inj hj
  obtain rfl : s = t := Option.some.inj (hp.symm.trans ht)
  exact hs

theorem Apart.not_ownSlot (h : Apart dir d) : ¬ OwnSlot dir d i := by
  rintro ⟨n, hrun, -, -⟩
  obtain ⟨t, ht, hslots⟩ := hrun.slots
  have hpos := hrun.pos
  have hfits := hrun.fits
  obtain ⟨s, hs, hin⟩ := hslots 1 (by decide) hpos
  rcases h (d - 1) s (by omega) hs with hdel | hlong
  · exact (hin.ord_ne hrun.max (by decide) hpos).1 hdel
  · exact hlong hin.1

structure Right (dir : Directory) (p : Nat) (fs : List FatFile) : Prop where
  lists : Lists dir p fs
  visits : ∀ i, i ∈ fs.map FatFile.m_dir ↔ p ≤ i ∧ LiveShort dir i
  once : (fs.map FatFile.m_dir).Nodup
  deletes : ∀ file ∈ fs, DeletesOwn dir file

theorem right_nil (h : Lists dir p []) (hnone : ∀ i, p ≤ i → ¬ LiveShort dir i) :
    Right dir p [] where
  lists := h
  visits i := iff_of_false List.not_mem_nil fun hi => hnone i hi.1 hi.2
  once := List.nodup_nil
  deletes _ hfile := absurd hfile List.not_mem_nil

theorem Right.cons {file : FatFile} (h : Right dir (d + 1) fs) (hd : file.m_dir = d) (hle : p ≤ d)
    (hlists : Lists dir p (file :: fs)) (hlive : LiveShort dir d)
    (hbetween : ∀ i, p ≤ i → i < d → ¬ LiveShort dir i) (hdeletes : DeletesOwn dir file) :
    Right dir p (file :: fs) where
  lists := hlists
  visits i := by
    rw [List.map_cons, List.mem_cons, hd, h.visits]
    constructor
    · rintro (rfl | ⟨hlt, hi⟩)
      · exact ⟨hle, hlive⟩
      · exact ⟨by omega, hi⟩
    · rintro ⟨hlow, hi⟩
      rcases Nat.lt_trichotomy i d with hlt | rfl | hgt
      · exact absurd hi (hbetween i hlow hlt)
      · exact Or.inl rfl
      · exact Or.inr ⟨hgt, hi⟩
  once := by
    rw [List.map_cons, List.nodup_cons, hd]
    refine ⟨fun hmem => ?_, h.once⟩
    exact absurd ((h.visits d).mp hmem).1 (Nat.not_succ_le_self d)
  deletes other hother := by
    rcases List.mem_cons.mp hother with rfl | hother
    · exact hdeletes
    · exact h.deletes other hother

theorem deletesOwn_bare (hp : dir[p]? = some s) (hapart : Apart dir p) :
    DeletesOwn dir (fileOf p p 0 0 0 s) := by
  obtain ⟨hlt, -⟩ := List.getElem?_eq_some_iff.mp hp
  refine deletesOwn_of_iff hlt fun i => ?_
  change p ≤ i ∧ i ≤ p + 0 ↔ i = p ∨ OwnSlot dir p i
  rw [or_iff_left hapart.not_ownSlot]
  exact ⟨fun hi => Nat.le_antisymm hi.2 hi.1, fun hi => by
    obtain rfl : i = p := hi
    exact ⟨Nat.le_refl i, Nat.le_refl i⟩⟩

theorem deletesOwn_run (hrun : OwnRun dir (p + n) n) (ht : dir[p + n]? = some t)
    (hcount : s.announced = n) (hsum : s.LDIR_Chksum = getShortNameChksum t.DIR_Name) :
    DeletesOwn dir (runFile p s t s.announced) ∧ (runFile p s t s.announced).m_dir = p + n := by
  obtain ⟨hlt, -⟩ := List.getElem?_eq_some_iff.mp ht
  have hpos := hrun.pos
  have hdir : (runFile p s t s.announced).m_dir = p + n := by
    rw [runFile, fileOf, hcount, Nat.max_eq_left hpos]
  have hlong : (runFile p s t s.announced).m_lDirCount = n := by
    rw [runFile, fileOf]
    dsimp only
    rw [if_neg fun hbad => hbad.2 hsum, hcount]
  have hfirst : (runFile p s t s.announced).m_lDir = p := rfl
  refine ⟨deletesOwn_of_iff (by rw [hlong, hfirst]; exact hlt) fun i => ?_, hdir⟩
  rw [hdir, hlong, hfirst, hrun.ownSlot_iff]
  omega

/-- **In a directory in order** everything from `p` on is listed, and deleted as it should be. -/
theorem right_of_wellFormed (h : WellFormed dir p) (hopen : Open dir p) (hapart : Apart dir p) :
    ∃ fs, Right dir p fs := by
  induction h with
  | @ends p h =>
    refine ⟨[], right_nil (lists_none fun e hat => parse_end hat h) fun i hi hlive => ?_⟩
    obtain ⟨⟨s, hs, -⟩, hbefore⟩ := hlive
    obtain ⟨hlt, -⟩ := List.getElem?_eq_some_iff.mp hs
    have hp : dir[p]? = some dir[p] := List.getElem?_eq_getElem (by omega)
    exact hbefore p hi _ hp (h _ hp)
  | @deleted p s hp hdel hrest ih =>
    obtain ⟨fs, hfs⟩ := ih (hopen.succ hp (by rw [hdel]; decide)) (Apart.succ hp (Or.inl hdel))
    refine ⟨fs, lists_deleted hp hdel hfs.lists, fun i => ?_, hfs.once, hfs.deletes⟩
    rw [hfs.visits]
    constructor
    · exact fun hi => ⟨by omega, hi.2⟩
    · rintro ⟨hlow, hi⟩
      refine ⟨Nat.lt_of_le_of_ne hlow fun heq => ?_, hi⟩
      subst heq
      exact ((hopen.liveShort_iff hp).mp hi).1 hdel
  | @bare p s hp hlive hrest ih =>
    obtain ⟨hlt, -⟩ := List.getElem?_eq_some_iff.mp hp
    obtain ⟨fs, hfs⟩ := ih (hopen.succ hp hlive.2.1) (Apart.succ hp (Or.inr hlive.2.2))
    refine ⟨fileOf p p 0 0 0 s :: fs, hfs.cons rfl (Nat.le_refl p) ?_
      ((hopen.liveShort_iff hp).mpr hlive) (fun i hlow hhigh => by omega)
      (deletesOwn_bare hp hapart)⟩
    exact lists_cons (Nat.lt_succ_self p) hlt (fun e hat =>
      parse_bare hat hp hlive.1 hlive.2.1 fun hlast => hlive.2.2 hlast.2) hfs.lists
  | @run p n t hrun ht hlive hrest ih =>
    obtain ⟨s, hp, hdel, hempty, hlast, hcount, hsum, hcomplete⟩ := hrun.first ht
    have hopen' : Open dir (p + n) := by
      intro j hj u hu
      rcases Nat.lt_or_ge j p with hlt | hge
      · exact hopen j hlt u hu
      · obtain ⟨v, hv, -, hne⟩ := hrun.slot hge hj
        obtain rfl : u = v := Option.some.inj (hu.symm.trans hv)
        exact hne
    obtain ⟨fs, hfs⟩ := ih (hopen'.succ ht hlive.2.1) (Apart.succ ht (Or.inr hlive.2.2))
    obtain ⟨hdeletes, hdir⟩ := deletesOwn_run hrun ht hcount hsum
    have hplace : p + max s.announced 1 = p + n := by
      rw [hcount, Nat.max_eq_left hrun.pos]
    refine ⟨_, hfs.cons hdir (Nat.le_add_right p n) ?_ ((hopen'.liveShort_iff ht).mpr hlive)
      (fun i hlow hhigh hi => ?_) hdeletes⟩
    · exact lists_run hp hdel hempty hlast (hcount ▸ hrun.max) (hplace ▸ ht)
        (Or.inl ⟨rfl, hcomplete⟩) (hplace ▸ hfs.lists)
    · obtain ⟨v, hv, hlong, -⟩ := hrun.slot hlow hhigh
      obtain ⟨⟨u, hu, hlive'⟩, -⟩ := hi
      obtain rfl : u = v := Option.some.inj (hu.symm.trans hv)
      exact hlive'.2.2 hlong
  | @cut p s hp hdel hlast hcut hnone =>
    have hempty : s.LDIR_Ord ≠ SLOT_EMPTY := by
      intro heq
      have hge := hlast.ord_ge
      rw [heq] at hge
      exact absurd hge (by decide)
    exact ⟨[], right_nil (lists_none fun e hat => parse_cut hat hp hdel hempty hlast hcut) hnone⟩

/-! ### In any other directory -/

theorem Lists.unique {gs : List FatFile} (h : Lists dir p fs) (h' : Lists dir p gs) : fs = gs :=
  have hfuel : dir.length - p < dir.length + 1 := Nat.lt_succ_of_le (Nat.sub_le _ _)
  (h _ _ (at_initial dir p) hfuel).symm.trans (h' _ _ (at_initial dir p) hfuel)

/-- A file found behind a run is deleted as it should be only when the run is complete. -/
theorem ownRun_of_deletesOwn (hp : dir[p]? = some s) (hdel : s.LDIR_Ord ≠ SLOT_DELETED)
    (hlast : s.IsLast) (hmax : s.announced ≤ MAX_LONGENTRY_COUNT)
    (ht : dir[p + max s.announced 1]? = some t) (hlive : t.Live) {count : Nat}
    (hcount : (count = s.announced ∧ Complete dir p s) ∨ count = 0 ∧ ¬ Complete dir p s)
    (hdeletes : DeletesOwn dir (runFile p s t count)) :
    max s.announced 1 = s.announced ∧ OwnRun dir (p + s.announced) s.announced := by
  obtain ⟨hlt, -⟩ := List.getElem?_eq_some_iff.mp ht
  have hle : (runFile p s t count).m_lDirCount ≤ s.announced := by
    rw [runFile, fileOf]
    dsimp only
    split
    · exact Nat.zero_le _
    · rcases hcount with ⟨hc, -⟩ | ⟨hc, -⟩
      · exact Nat.le_of_eq hc
      · exact hc ▸ Nat.zero_le _
  have hbound : (runFile p s t count).m_lDir + (runFile p s t count).m_lDirCount < dir.length := by
    change p + _ < _
    omega
  -- the short entry has to be marked, so the run has not been given up
  have hshort := ((hdeletes.iff hbound ht hlive.1).mpr (Or.inl rfl)).2
  change p + max s.announced 1 ≤ p + (runFile p s t count).m_lDirCount at hshort
  have heq : (runFile p s t count).m_lDirCount = s.announced := by omega
  have hpos : max s.announced 1 = s.announced := by omega
  have hgood : ¬ (0 < count ∧ s.LDIR_Chksum ≠ getShortNameChksum t.DIR_Name) ∧
      count = s.announced := by
    rw [runFile, fileOf] at heq
    dsimp only at heq
    split at heq
    · omega
    · rename_i hok
      exact ⟨hok, heq⟩
  have hcomplete : Complete dir p s := by
    rcases hcount with ⟨-, hc⟩ | ⟨hc, -⟩
    · exact hc
    · omega
  have hsum : s.LDIR_Chksum = getShortNameChksum t.DIR_Name := by
    by_contra hne
    exact hgood.1 ⟨by omega, hne⟩
  -- the first slot is marked, so the run is the file's own
  have hfirst := (hdeletes.iff hbound hp hdel).mp ⟨Nat.le_refl p, Nat.le_add_right p _⟩
  change p = p + max s.announced 1 ∨ OwnSlot dir (p + max s.announced 1) p at hfirst
  obtain ⟨n, hrun, hn, -⟩ := hfirst.resolve_left (by omega)
  obtain ⟨u, hu, hslots⟩ := hrun.slots
  refine ⟨hpos, ownRun_of_complete hp hlast (by omega) hmax (hpos ▸ ht) hsum hcomplete ?_⟩
  intro i hlow hhigh v hv
  obtain ⟨w, hw, hin⟩ := hslots (p + max s.announced 1 - i) (by omega) (by omega)
  rw [show p + max s.announced 1 - (p + max s.announced 1 - i) = i by omega] at hw
  obtain rfl : v = w := Option.some.inj (hv.symm.trans hw)
  exact hin.1

/-- **Where everything is right**, the directory is in order. -/
theorem wellFormed_of_right (k : Nat) : ∀ {p : Nat} {fs : List FatFile}, dir.length - p ≤ k →
    (∀ i, p ≤ i → LiveShort dir i → i ∈ fs.map FatFile.m_dir) →
    (∀ file ∈ fs, LiveShort dir file.m_dir) → (∀ file ∈ fs, DeletesOwn dir file) →
    Lists dir p fs → WellFormed dir p := by
  induction k with
  | zero =>
    intro p fs hk _ _ _ _
    refine .ends fun s hs => ?_
    obtain ⟨hlt, -⟩ := List.getElem?_eq_some_iff.mp hs
    omega
  | succ k ih =>
    intro p fs hk hall hlive hdeletes hlists
    -- what is listed behind a file that is found at `d`
    have hbehind {file : FatFile} {d : Nat} {gs : List FatFile} (hfs : fs = file :: gs)
        (hd : file.m_dir = d) (hpd : p ≤ d) (hlt : d < dir.length) (hgs : Lists dir (d + 1) gs) :
        WellFormed dir (d + 1) := by
      subst hfs
      refine ih (by omega) (fun i hi hlive' => ?_)
        (fun f hf => hlive f (List.mem_cons_of_mem file hf))
        (fun f hf => hdeletes f (List.mem_cons_of_mem file hf)) hgs
      have hmem := hall i (by omega) hlive'
      rw [List.map_cons, List.mem_cons, hd] at hmem
      exact hmem.resolve_left (by omega)
    cases next dir p with
    | ends h => exact .ends h
    | deleted s hp hdel =>
      obtain ⟨hlt, -⟩ := List.getElem?_eq_some_iff.mp hp
      obtain ⟨gs, hgs⟩ := lists_exists dir _ (p + 1) (Nat.le_refl _)
      obtain rfl := hlists.unique (lists_deleted hp hdel hgs)
      exact .deleted hp hdel (ih (by omega) (fun i hi => hall i (by omega)) hlive hdeletes hgs)
    | bare s hp hdel hempty hlast =>
      obtain ⟨hlt, -⟩ := List.getElem?_eq_some_iff.mp hp
      obtain ⟨gs, hgs⟩ := lists_exists dir _ (p + 1) (Nat.le_refl _)
      have hfs := hlists.unique (lists_cons (Nat.lt_succ_self p) hlt
        (fun e hat => parse_bare hat hp hdel hempty hlast) hgs)
      obtain ⟨⟨t, ht, hlive'⟩, -⟩ := hlive (fileOf p p 0 0 0 s) (hfs ▸ List.mem_cons_self)
      obtain rfl : s = t := Option.some.inj (hp.symm.trans ht)
      exact .bare hp hlive' (hbehind hfs rfl (Nat.le_refl p) hlt hgs)
    | cut s hp hdel hempty hlast hcut =>
      have hnil := hlists.unique (lists_none fun e hat => parse_cut hat hp hdel hempty hlast hcut)
      refine .cut hp hdel hlast hcut fun i hi hlive' => ?_
      have hmem := hall i hi hlive'
      rw [hnil] at hmem
      exact absurd hmem List.not_mem_nil
    | run s t hp hdel hempty hlast hmax ht =>
      obtain ⟨hlt, -⟩ := List.getElem?_eq_some_iff.mp ht
      obtain ⟨gs, hgs⟩ := lists_exists dir _ (p + max s.announced 1 + 1) (Nat.le_refl _)
      obtain ⟨count, hcount⟩ := count_spec dir p s
      have hfs := hlists.unique (lists_run hp hdel hempty hlast hmax ht hcount hgs)
      have hmem : runFile p s t count ∈ fs := hfs ▸ List.mem_cons_self
      obtain ⟨⟨t', ht', hlive'⟩, -⟩ := hlive _ hmem
      obtain rfl : t = t' := Option.some.inj (ht.symm.trans ht')
      obtain ⟨hpos, hrun⟩ :=
        ownRun_of_deletesOwn hp hdel hlast hmax ht hlive' hcount (hdeletes _ hmem)
      have hrest : WellFormed dir (p + max s.announced 1 + 1) :=
        hbehind hfs rfl (Nat.le_add_right p _) hlt hgs
      rw [hpos] at ht hrest
      exact .run hrun ht hlive' hrest

/-- **Enumeration and deletion agree** exactly in the directories in order. -/
theorem enumeration_agrees_iff (dir : Directory) : Agrees dir ↔ WellFormed dir 0 := by
  constructor
  · intro h
    obtain ⟨fs, hlists⟩ := lists_exists dir dir.length 0 (Nat.le_refl _)
    obtain ⟨-, hvisits, hdeletes⟩ := h
    rw [hlists.files] at hvisits hdeletes
    exact wellFormed_of_right _ (Nat.le_refl _) (fun i _ hi => (hvisits i).mpr hi)
      (fun file hfile => (hvisits _).mp (List.mem_map_of_mem hfile)) hdeletes hlists
  · intro h
    obtain ⟨fs, hfs⟩ := right_of_wellFormed h (fun j hj => absurd hj (Nat.not_lt_zero j))
      fun j s hj => absurd hj (Nat.succ_ne_zero j)
    have hfiles := hfs.lists.files
    refine ⟨hfiles ▸ hfs.once, fun i => ?_, hfiles ▸ hfs.deletes⟩
    rw [hfiles, hfs.visits]
    exact and_iff_right (Nat.zero_le i)

/-- A run of two long-name slots of which only the first is there, and two files behind it -/
def brokenRun : Directory :=
  [fun i => if i = 0 then 0x42 else if i = 11 then ATTR_LONG_NAME else 0x20,
    fun i => if i = 0 then 0x41 else 0x20, fun i => if i = 0 then 0x43 else 0x20]

/-- The first of the two files is taken for the second slot of the run. -/
theorem broken_run_hides_a_file : ¬ Agrees brokenRun := by
  intro h
  have hlive : LiveShort brokenRun 1 := by
    refine ⟨⟨_, rfl, by decide, by decide, by decide⟩, fun j hj s hs => ?_⟩
    rcases (by omega : j = 0 ∨ j = 1) with rfl | rfl
    · cases hs
      decide
    · cases hs
      decide
  have hmem := (h.visits 1).mpr hlive
  rw [show (files brokenRun).map FatFile.m_dir = [2] from rfl] at hmem
  exact absurd hmem (by decide)

end TinyClr.FatDirectory
