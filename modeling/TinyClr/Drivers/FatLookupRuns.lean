import TinyClr.Drivers.FatDirectorySpec
import TinyClr.Drivers.FatEntrySpec
import TinyClr.Drivers.FatLookupCreate

/-!
# Runs of `GetFile`

With the flags of `FindOpen`, `GetFile` sets the dates of the entries that it comes through, which
leaves what the enumerator hands out where it is.  From the first segment that is missing on it is in
new directories, in which it finds nothing: a cluster that was free is in use from then on.
-/

namespace TinyClr.FatVolume

open TinyClr.Library TinyClr.FatLogicDisk TinyClr.FatFileHandle
open TinyClr.FatDirectory (Slot Directory FatFile FatTime EntryEnumerator)

variable {g : LogicDisk} {u v v' w : Volume} {D D' : Set Nat} {c s : Nat} {p q : Place}

/-! ### New directories -/

def Bare (slot : Slot) : Prop :=
  slot.LDIR_Ord = FatDirectory.SLOT_EMPTY ∨ (slot.LDIR_Ord = 0x2E ∧ ¬ slot.IsLong)

/-- A directory that has one cluster and no entries but `"."` and `".."` -/
structure Fresh (g : LogicDisk) (v : Volume) (c : Nat) : Prop where
  cluster : IsCluster g c
  tidy : Tidy g {c} v
  bare : ∀ s k, HasSector g c s → k < 16 → Bare (v.slot ⟨s, 32 * k⟩)

theorem Grown.setSlot (hg : Geometry g) (hr : RootGeometry g) (h : Grown g D v v')
    (hp : IsPlace g D' p) (slot : Slot) : Grown g D v (v'.setSlot p slot) := by
  obtain ⟨-, hfat⟩ := setSlot_fat hg hr h.tidy.mounted hp slot
  have hkeeps : Keeps g v' (v'.setSlot p slot) := Keeps.of_eq hfat
  exact ⟨h.tidy.setSlot hg hr hp slot, h.keeps.trans hkeeps, h.takes.trans_keeps hkeeps⟩

theorem Fresh.setSlot (hg : Geometry g) (hr : RootGeometry g) (h : Fresh g v c)
    (hp : IsPlace g D p) (hc : c ∉ D) (slot : Slot) : Fresh g (v.setSlot p slot) c := by
  refine ⟨h.cluster, h.tidy.setSlot hg hr hp slot, fun s k hs hk => ?_⟩
  obtain ⟨d, hd, hsect, k', -, hdata⟩ := hp
  obtain ⟨s', o⟩ := p
  obtain rfl : o = 32 * k' := hdata
  have hne : s ≠ s' := by
    rintro rfl
    have hsame := (hs.sectToClus_eq hg h.tidy.mounted).symm.trans
      (hsect.sectToClus_eq hg h.tidy.mounted)
    exact hc (hsame ▸ hd)
  rw [slot_setSlot_of_ne v slot (Or.inl hne)]
  exact h.bare s k hs hk

theorem bare_dot {second : UInt8} {fstClus : Nat} :
    Bare (FatDirectory.shortSlot (dotName second) FatDirectory.ATTR_DIRECTORY fstClus) := by
  have hattr := @FatDirectory.shortSlot_attr (dotName second) rfl
    FatDirectory.ATTR_DIRECTORY fstClus
  refine Or.inr ⟨rfl, fun hlong => ?_⟩
  rw [Slot.IsLong, Slot.LDIR_Attr] at hlong
  rw [Slot.DIR_Attr] at hattr
  rw [hattr] at hlong
  exact absurd hlong (by decide)

theorem Tidy.createNewDirectory (hg : Geometry g) (hr : RootGeometry g) (hv : Tidy g D v)
    (parentClusIndex : Nat) :
    (v.createNewDirectory parentClusIndex = (v, none) ∧ v.findFreeClus = none) ∨
      ∃ v' c, v.createNewDirectory parentClusIndex = (v', some c) ∧ c ∉ D ∧ Grown g D v v' ∧
        Fresh g v' c := by
  rcases hv.getNextFreeClusCleared hg with ⟨hclear, hfind⟩ | ⟨v₁, c, hclear, hcleared⟩
  · refine Or.inl ⟨?_, hfind⟩
    rw [Volume.createNewDirectory, hclear]
  obtain ⟨hcluster, -⟩ := mem_freeClusters.mp hcleared.free
  obtain ⟨hgrown, hsingle, hframe⟩ := hcleared.single hg
  have hempty : ∀ s k, HasSector g c s →
      Bare ((v₁.writeFAT c CLUST_EOF).1.slot ⟨s, 32 * k⟩) := by
    intro s k hs
    refine Or.inl ?_
    rw [Slot.LDIR_Ord, Volume.slot]
    simp only
    rw [hframe s (hs.fatEnd_le hg hr), hcleared.clear s hs]
    rfl
  have hrun : v.createNewDirectory parentClusIndex =
      let w := (v₁.writeFAT c CLUST_EOF).1
      ((w.setSlot ⟨w.disk.clusToSect c, 0⟩ (FatDirectory.shortSlot (dotName 0x20)
        FatDirectory.ATTR_DIRECTORY c)).setSlot ⟨w.disk.clusToSect c, 32⟩
          (FatDirectory.shortSlot (dotName 0x2E) FatDirectory.ATTR_DIRECTORY parentClusIndex),
        some c) := by
    rw [Volume.createNewDirectory, hclear]
  simp only [clusToSect_eq hg hgrown.tidy.mounted hcluster] at hrun
  generalize (v₁.writeFAT c CLUST_EOF).1 = w at hgrown hsingle hempty hrun
  have hsect : HasSector g c (sectorOf g c 0) := Or.inr ⟨hcluster, 0, hg.perClus_pos, rfl⟩
  have hplace : ∀ k < 16, IsPlace g {c} ⟨sectorOf g c 0, 32 * k⟩ := fun k hk =>
    ⟨c, rfl, hsect, k, hk, rfl⟩
  have hbare : ∀ {w : Volume} {j : Nat} {slot : Slot}, Bare slot →
      (∀ s k, HasSector g c s → Bare (w.slot ⟨s, 32 * k⟩)) →
      ∀ s k, HasSector g c s →
        Bare ((w.setSlot ⟨sectorOf g c 0, 32 * j⟩ slot).slot ⟨s, 32 * k⟩) := by
    intro w j slot hslot hw s k hs
    by_cases hsame : s = sectorOf g c 0 ∧ k = j
    · obtain ⟨rfl, rfl⟩ := hsame
      rw [slot_setSlot_self]
      exact hslot
    · rw [slot_setSlot_of_ne w slot (by omega)]
      exact hw s k hs
  refine Or.inr ⟨_, c, hrun, hv.free_notMem hcleared.free, ?_, hcluster, ?_, fun s k hs _ => ?_⟩
  · exact (hgrown.setSlot hg hr (hplace 0 (by decide)) _).setSlot hg hr (hplace 1 (by decide)) _
  · exact (hsingle.setSlot hg hr (hplace 0 (by decide)) _).setSlot hg hr (hplace 1 (by decide)) _
  · exact hbare (j := 1) bare_dot (hbare (j := 0) bare_dot hempty) s k hs

/-! ### `Create` -/

/-- The new slots go to slots of the directories. -/
theorem writeEntries_spec (hg : Geometry g) (hr : RootGeometry g) :
    ∀ {slots : List Slot} {places : List Place} {v v' : Volume} {res : Option Place},
      Grown g D u v → Fresh g v c → c ∉ D → (∀ p ∈ places, IsPlace g D p) →
      v.writeEntries places slots = (v', res) →
      Grown g D u v' ∧ Fresh g v' c ∧
        ∀ p, res = some p → IsPlace g D p ∧ slots.getLast? = some (v'.slot p) := by
  intro slots
  induction slots with
  | nil =>
    intro places v v' res hgrown hfresh _ _ h
    rw [Volume.writeEntries] at h
    obtain ⟨rfl, rfl⟩ := Prod.mk.inj h
    exact ⟨hgrown, hfresh, nofun⟩
  | cons slot slots ih =>
    intro places v v' res hgrown hfresh hc hplaces h
    cases places with
    | nil =>
      rw [Volume.writeEntries] at h
      obtain ⟨rfl, rfl⟩ := Prod.mk.inj h
      exact ⟨hgrown, hfresh, nofun⟩
    | cons p places =>
      have hp := hplaces p List.mem_cons_self
      have hgrown' := hgrown.setSlot hg hr hp slot
      have hfresh' := hfresh.setSlot hg hr hp hc slot
      cases slots with
      | nil =>
        rw [Volume.writeEntries] at h
        obtain ⟨rfl, rfl⟩ := Prod.mk.inj h
        refine ⟨hgrown', hfresh', fun q hq => ?_⟩
        obtain rfl := Option.some.inj hq
        exact ⟨hp, congrArg some (slot_setSlot_self v _ slot).symm⟩
      | cons slot' slots =>
        rw [Volume.writeEntries] at h
        · obtain ⟨hgrown'', hfresh'', hres⟩ := ih hgrown' hfresh' hc
            (fun q hq => hplaces q (List.mem_cons_of_mem _ hq)) h
          refine ⟨hgrown'', hfresh'', fun q hq => ?_⟩
          obtain ⟨hq', hlast⟩ := hres q hq
          exact ⟨hq', by rw [List.getLast?_cons_cons]; exact hlast⟩
        · exact nofun

variable {fuel : Nat} {fileName : List UInt16}

theorem shortName_length {first : UInt16}
    {shortName : List UInt8} (h : v.shortName fuel c first fileName = some shortName) :
    shortName.length = 11 := by
  rw [Volume.shortName] at h
  split at h
  · obtain ⟨places, -, h⟩ := Option.bind_eq_some_iff.mp h
    exact ShortName.longToShortName_length h
  · rw [← Option.some.inj h]
    exact FatDirectory.setName_length _

/-- What `Create` has made: an entry of a new directory -/
structure Made (g : LogicDisk) (v' : Volume) (p : Place) (c : Nat) : Prop where
  fresh : Fresh g v' c
  place : ∃ D, IsPlace g D p ∧ c ∉ D
  dir : IsDir (v'.slot p)
  clus : (v'.slot p).getFstClus = c

variable {now : FatTime}

/-- `Create`, for a directory: nothing is changed, and the name is not valid, no cluster is free or
    the root directory is full; or a cluster that was free is in use. -/
theorem Tidy.create (hg : Geometry g) (hr : RootGeometry g) (hv : Tidy g D v) (hc : home g c ∈ D)
    {fileNameLen : Nat} {res : Option Place}
    (h : v.create fuel now c fileName fileNameLen FatDirectory.ATTR_DIRECTORY = some (v', res)) :
    (v' = v ∧ res = none ∧
      (FatDirectory.isFileNameValid (fileName.headD 0) (fileName.take fileNameLen) = false ∨
        (v.shortName fuel c (fileName.headD 0) (fileName.take fileNameLen)).isSome = true ∧
          (v.findFreeClus = none ∨ (g.isFAT16 = true ∧ v.getNextFreeEntry fuel c
            (longCount (fileName.headD 0) (fileName.take fileNameLen) + 1) = some (v, none))))) ∨
    (Takes g v v' ∧ Keeps g v v' ∧ ∀ p, res = some p → ∃ c, Made g v' p c) := by
  rw [Volume.create] at h
  dsimp only at h
  split at h
  · next hvalid =>
    obtain ⟨rfl, rfl⟩ := Prod.mk.inj (Option.some.inj h)
    exact Or.inl ⟨rfl, rfl, Or.inl hvalid⟩
  obtain ⟨shortName, hname, h⟩ := Option.bind_eq_some_iff.mp h
  have hlength := shortName_length hname
  have hsome : (v.shortName fuel c (fileName.headD 0)
      (fileName.take fileNameLen)).isSome = true := by
    rw [hname]
    rfl
  obtain ⟨⟨v₁, found⟩, hentry, h⟩ := Option.bind_eq_some_iff.mp h
  have hstart := hv.dirStart hg hr hc
  have hspec := scanSectors_spec hg _ hv hc hstart ⟨home g c, hc, hstart, 0, by decide, rfl⟩
    (by
      rw [← hstart.sectToClus_eq hg hv.mounted, ← hv.mounted.sectToClus_eq]
      exact hentry)
  rcases found with _ | start
  · obtain ⟨rfl, rfl⟩ := Prod.mk.inj (Option.some.inj h)
    rcases hspec with ⟨rfl, -, hfull⟩ | ⟨D', -, hgrown, -⟩
    · rcases hfull rfl with hfat16 | hnone
      · exact Or.inl ⟨rfl, rfl, Or.inr ⟨hsome, Or.inr ⟨hfat16, hentry⟩⟩⟩
      · exact Or.inl ⟨rfl, rfl, Or.inr ⟨hsome, Or.inl hnone⟩⟩
    · exact Or.inr ⟨hgrown.takes, hgrown.keeps, nofun⟩
  · have hdir : FatDirectory.ATTR_DIRECTORY &&& FatDirectory.ATTR_DIRECTORY =
        FatDirectory.ATTR_DIRECTORY := by decide
    dsimp only at h
    rw [if_pos hdir] at h
    -- the volume with the slot to write from, before a cluster is taken for the directory
    obtain ⟨D₁, hD₁, hv₁, hplace, hkeeps, hsame⟩ : ∃ D₁, D ⊆ D₁ ∧ Tidy g D₁ v₁ ∧ IsPlace g D₁ start ∧
        Keeps g v v₁ ∧ (v₁ = v ∨ Takes g v v₁) := by
      rcases hspec with ⟨rfl, hplace, -⟩ | ⟨D', hD', hgrown, hplace⟩
      · exact ⟨D, subset_rfl, hv, hplace _ rfl, Keeps.refl _ _, Or.inl rfl⟩
      · exact ⟨D', hD', hgrown.tidy, hplace _ rfl, hgrown.keeps, Or.inr hgrown.takes⟩
    rcases hv₁.createNewDirectory hg hr c with ⟨hnew, hnone⟩ | ⟨v₂, d, hnew, hd, hgrown, hfresh⟩
    · rw [hnew] at h
      obtain ⟨rfl, rfl⟩ := Prod.mk.inj (Option.some.inj h)
      rcases hsame with rfl | htakes
      · exact Or.inl ⟨rfl, rfl, Or.inr ⟨hsome, Or.inl hnone⟩⟩
      · exact Or.inr ⟨htakes, hkeeps, nofun⟩
    · rw [hnew] at h
      obtain ⟨places, hplaces, h⟩ := Option.bind_eq_some_iff.mp h
      obtain ⟨hwritten, hfresh', hres⟩ := writeEntries_spec hg hr hgrown hfresh hd
        (hgrown.tidy.places hg hplace hplaces) (Option.some.inj h)
      refine Or.inr ⟨hkeeps.trans_takes hwritten.takes, hkeeps.trans hwritten.keeps,
        fun p hp => ?_⟩
      obtain ⟨hp', hlast⟩ := hres p hp
      rw [newEntries, List.getLast?_concat] at hlast
      have hslot := (Option.some.inj hlast).symm
      have hlt : d < 2 ^ 32 := by
        have hcluster := hfresh.cluster.2
        have hclusters := hg.totalClusterCount_lt
        omega
      refine ⟨d, hfresh', ⟨D₁, hp', hd⟩, ?_, ?_⟩
      · rw [IsDir, hslot, FatDirectory.stamp_attr, FatDirectory.shortSlot_attr hlength]
        exact hdir
      · rw [hslot, FatDirectory.stamp_getFstClus, FatDirectory.shortSlot_getFstClus hlength _ hlt]

/-! ### In new directories -/

theorem enumerate_bare {dir : Directory} (hdir : ∀ s ∈ dir, Bare s) : ∀ {fuel : Nat}
    {e : EntryEnumerator} {n : Nat}, FatDirectory.At dir e n →
      ∀ file ∈ FatDirectory.enumerate dir fuel e, file.m_lDirCount = 0 ∧
        ∃ s, dir[file.m_dir]? = some s ∧ s.LDIR_Ord = 0x2E := by
  intro fuel
  induction fuel with
  | zero =>
    intro e n _ file hfile
    cases hfile
  | succ fuel ih =>
    intro e n hat file hfile
    rw [FatDirectory.enumerate] at hfile
    rcases hn : dir[n]? with _ | s
    · obtain ⟨e', hparse⟩ := FatDirectory.parse_end hat fun s hs =>
        absurd (hn.symm.trans hs) (Option.some_ne_none s).symm
      rw [hparse] at hfile
      cases hfile
    rcases hdir s (List.mem_of_getElem? hn) with hempty | ⟨hord, hlong⟩
    · obtain ⟨e', hparse⟩ := FatDirectory.parse_end hat fun t ht =>
        Option.some.inj (hn.symm.trans ht) ▸ hempty
      rw [hparse] at hfile
      cases hfile
    · obtain ⟨e', hparse, hat'⟩ := FatDirectory.parse_bare hat hn (hord ▸ by decide)
        (hord ▸ by decide) fun hlast => hlong hlast.2
      rw [hparse] at hfile
      rcases List.mem_cons.mp hfile with rfl | hrest
      · exact ⟨rfl, s, hn, hord⟩
      · exact ih hat' file hrest

theorem isName_dot {slot : Slot} (h : slot.LDIR_Ord = 0x2E) (name : List UInt16) :
    slot.isName name = false := by
  have hblanks : slot.blanks 0 8 = false := by
    have hmem : (0 : Fin 32) ∈ (List.finRange 32).filter fun k => (0 : Fin 32) ≤ k ∧ k < 8 := by decide
    refine Bool.eq_false_iff.mpr fun hall => ?_
    have hblank := of_decide_eq_true (List.all_eq_true.mp hall 0 hmem)
    rw [Slot.LDIR_Ord] at h
    rw [h] at hblank
    exact absurd hblank (by decide)
  rw [Slot.isName]
  cases name with
  | nil => simp [Slot.isBaseName, hblanks]
  | cons ch name =>
    rw [Slot.isBaseName]
    dsimp only
    by_cases hdot : ch &&& 0xFF = FatDirectory.dot
    · simp [hdot, hblanks]
    · rw [if_neg hdot, if_pos]
      rw [Slot.LDIR_Ord] at h
      rw [h]
      intro heq
      split at heq
      · exact absurd heq (by decide)
      · have hupper : FatDirectory.towupper (0x2E : UInt8).toUInt16 = FatDirectory.dot := by decide
        rw [hupper, FatDirectory.towupper] at heq
        split at heq
        · next hrange =>
          obtain ⟨hlow, hhigh⟩ := hrange
          have hsub : (ch &&& 0xFF) - 32 = 0x2E := heq.symm
          have hsum : ch &&& 0xFF = 0x2E + 32 := by
            rw [← hsub, UInt16.sub_add_cancel]
          rw [hsum] at hlow
          exact absurd hlow (by decide)
        · exact hdot heq.symm

theorem Fresh.searchCurDir (hg : Geometry g) (hr : RootGeometry g) (h : Fresh g v c)
    {fileNameLen : Nat} {res : Option Place}
    (hrun : v.searchCurDir fuel c fileName fileNameLen = some res) : res = none := by
  obtain ⟨places, hplaces, hrun⟩ := Option.bind_eq_some_iff.mp hrun
  have hhome : home g c = c := home_cluster h.cluster
  have hstart := h.tidy.dirStart hg hr (c := c) hhome
  rw [hhome] at hstart
  have hall := h.tidy.places hg ⟨c, rfl, hstart, 0, by decide, rfl⟩ hplaces
  have hbare : ∀ s ∈ places.map v.slot, Bare s := by
    intro slot hslot
    obtain ⟨⟨sect, data⟩, hp, rfl⟩ := List.mem_map.mp hslot
    obtain ⟨d, hd, hsect, k, hk, hdata⟩ := hall _ hp
    obtain rfl : data = 32 * k := hdata
    exact h.bare sect k (Set.mem_singleton_iff.mp hd ▸ hsect) hk
  have hnone : ∀ file ∈ FatDirectory.files (places.map v.slot),
      FatDirectory.isFileName (places.map v.slot) file fileName fileNameLen = false := by
    intro file hfile
    obtain ⟨hcount, slot, hslot, hord⟩ :=
      enumerate_bare hbare (FatDirectory.at_initial _ 0) file hfile
    rw [FatDirectory.isFileName, hcount, hslot]
    simp [isName_dot hord]
  simp only at hrun
  rw [List.find?_eq_none.mpr fun file hfile => by simp [hnone file hfile]] at hrun
  exact (Option.some.inj hrun).symm

theorem createdAttributes_getDirectoryOnly (pathLen : Nat) :
    createdAttributes GetFile.GET_DIRECTORY_ONLY pathLen = some FatDirectory.ATTR_DIRECTORY := by
  refine if_pos ?_
  rcases Nat.eq_zero_or_pos pathLen with hzero | hpos
  · exact Or.inr ⟨hzero, by decide⟩
  · exact Or.inl ⟨hpos, by decide⟩

theorem touch_getDirectoryOnly (now : FatTime) (slot : Slot) :
    touch GetFile.GET_DIRECTORY_ONLY now slot = slot.stamp now := if_pos (by decide)

theorem findOrCreate_getDirectoryOnly {fileLen pathLen : Nat}
    {path : List UInt16} :
    v.findOrCreate fuel now c path fileLen pathLen GetFile.GET_DIRECTORY_ONLY =
      (v.searchCurDir fuel c path fileLen).bind fun
        | none => v.create fuel now c path fileLen FatDirectory.ATTR_DIRECTORY
        | some p => some (v, some p) := by
  rw [Volume.findOrCreate]
  refine congrArg _ (funext fun found => ?_)
  rcases found with _ | p
  · simp only [createdAttributes_getDirectoryOnly]
  · have hfail : hasFlag GetFile.GET_DIRECTORY_ONLY GetFile.FAIL_IF_EXISTS = false := by decide
    simp only [hfail, Bool.false_eq_true, and_false, if_false]

theorem walk_getDirectoryOnly {n : Nat} {dirEntry : Option Place} {x : UInt16}
    {path : List UInt16} :
    Volume.walk fuel now GetFile.GET_DIRECTORY_ONLY (n + 1) v c dirEntry (x :: path) =
      (v.findOrCreate fuel now c path (path.takeWhile (· ≠ FatDirectory.backslash)).length
        (path.dropWhile (· ≠ FatDirectory.backslash)).length GetFile.GET_DIRECTORY_ONLY).bind fun
        | (v, none) => some (v, none)
        | (v, some p) =>
            if ¬ IsDir (v.slot p) then some (v.setSlot p ((v.slot p).stamp now), none)
            else Volume.walk fuel now GetFile.GET_DIRECTORY_ONLY n
              (v.setSlot p ((v.slot p).stamp now)) (v.slot p).getFstClus (some p)
              (path.dropWhile (· ≠ FatDirectory.backslash)) := by
  rw [Volume.walk]
  refine congrArg _ (funext fun found => ?_)
  obtain ⟨v', _ | p⟩ := found
  · rfl
  · have hflags : GetFile.GET_DIRECTORY_ONLY ≠ 0 := by decide
    have hdir : hasFlag GetFile.GET_DIRECTORY_ONLY GetFile.GET_DIRECTORY_ONLY = true := by decide
    simp only [if_pos hflags, touch_getDirectoryOnly, slot_setSlot_self, hdir, or_true, true_and,
      FatDirectory.stamp_attr, FatDirectory.stamp_getFstClus, IsDir, ne_eq]
    rfl

theorem Fresh.walk (hg : Geometry g) (hr : RootGeometry g) {fuel : Nat} {now : FatTime} :
    ∀ {n : Nat} {v v' : Volume} {c : Nat} {dirEntry res : Option Place} {path : List UInt16},
      Fresh g v c → Volume.walk fuel now GetFile.GET_DIRECTORY_ONLY n v c dirEntry path =
        some (v', res) → Keeps g v v' := by
  intro n
  induction n with
  | zero =>
    intro v v' c dirEntry res path _ h
    cases path with
    | nil =>
      rw [Volume.walk] at h
      obtain ⟨rfl, -⟩ := Prod.mk.inj (Option.some.inj h)
      exact Keeps.refl _ _
    | cons x path =>
      rw [Volume.walk] at h
      cases h
  | succ n ih =>
    intro v v' c dirEntry res path hfresh h
    cases path with
    | nil =>
      rw [Volume.walk] at h
      obtain ⟨rfl, -⟩ := Prod.mk.inj (Option.some.inj h)
      exact Keeps.refl _ _
    | cons x path =>
      rw [walk_getDirectoryOnly, findOrCreate_getDirectoryOnly] at h
      obtain ⟨⟨v₁, found⟩, hfound, h⟩ := Option.bind_eq_some_iff.mp h
      obtain ⟨searched, hsearch, hcreate⟩ := Option.bind_eq_some_iff.mp hfound
      obtain rfl := hfresh.searchCurDir hg hr hsearch
      have hhome : home g c ∈ ({c} : Set Nat) := home_cluster hfresh.cluster
      rcases hfresh.tidy.create hg hr hhome hcreate with
        ⟨rfl, rfl, -⟩ | ⟨-, hkeeps, hmade⟩
      · obtain ⟨rfl, -⟩ := Prod.mk.inj (Option.some.inj h)
        exact Keeps.refl _ _
      · rcases found with _ | p
        · obtain ⟨rfl, -⟩ := Prod.mk.inj (Option.some.inj h)
          exact hkeeps
        · obtain ⟨d, hmade⟩ := hmade p rfl
          obtain ⟨D, hp, hd⟩ := hmade.place
          have hstamped := hmade.fresh.setSlot hg hr hp hd ((v₁.slot p).stamp now)
          obtain ⟨-, hfat⟩ := setSlot_fat hg hr hmade.fresh.tidy.mounted hp ((v₁.slot p).stamp now)
          simp only at h
          rw [if_neg (not_not.mpr hmade.dir), hmade.clus] at h
          exact (hkeeps.trans (Keeps.of_eq hfat)).trans (ih hstamped h)

end TinyClr.FatVolume
