import TinyClr.Drivers.FatLookupStamps

/-!
# The directories that can be reached

A file system is a volume on which the directories that the entries lead to from the root have
clusters of the disk and come to an end.  On it a lookup ends, and changes nothing; and whether there
is room for new entries depends on the slots of the directory.
-/

namespace TinyClr.FatVolume

open TinyClr.Library TinyClr.FatLogicDisk TinyClr.FatFileHandle
open TinyClr.FatDirectory (Slot Directory FatFile FatTime EntryEnumerator)

variable {g : LogicDisk} {v v' : Volume} {c s : Nat} {p : Place} {dir : Directory}

def Listing (v : Volume) (c : Nat) (dir : Directory) : Prop :=
  ∃ fuel places, v.places fuel (v.dirStart c) = some places ∧ dir = places.map v.slot

/-- The first cluster of a directory that the entries lead to from the root -/
inductive DirectoryAt (g : LogicDisk) (v : Volume) : Nat → Prop where
  | root : DirectoryAt g v (rootClus g)
  | entry {c : Nat} {dir : Directory} {file : FatFile} {slot : Slot} : DirectoryAt g v c →
      Listing v c dir → file ∈ FatDirectory.files dir → dir[file.m_dir]? = some slot →
      IsDir slot → DirectoryAt g v (home g slot.getFstClus)

inductive InDirectory (g : LogicDisk) (v : Volume) : Nat → Prop where
  | first {c : Nat} : DirectoryAt g v c → InDirectory g v c
  | link {c : Nat} : InDirectory g v c → IsCluster g c →
      getClusType g.isFAT16 (v.next g c) = .data → InDirectory g v (v.next g c)

structure FatFileSystem (g : LogicDisk) (v : Volume) : Prop where
  geometry : Geometry g
  rootGeometry : RootGeometry g
  mounted : Mounted g v
  onDisk : ∀ c, InDirectory g v c → OnDisk g c
  link : ∀ c, InDirectory g v c → IsCluster g c →
    getClusType g.isFAT16 (v.next g c) = .data → IsCluster g (v.next g c)
  ends : ∀ c, DirectoryAt g v c → ∃ dir, Listing v c dir

theorem FatFileSystem.tidy (h : FatFileSystem g v) : Tidy g {c | InDirectory g v c} v where
  mounted := h.mounted
  onDisk := h.onDisk
  link c hc hcluster hdata := ⟨h.link c hc hcluster hdata, hc.link hcluster hdata⟩

theorem dirStart_home (hg : Geometry g) (hr : RootGeometry g) (hv : Mounted g v) (c : Nat) :
    v.dirStart (home g c) = v.dirStart c := by
  rw [Volume.dirStart, Volume.dirStart, hv.clusToSect_eq, hv.clusToSect_eq]
  by_cases hlow : c < 2
  · have hroot : g.clusToSect c = g.rootSectorStart := if_pos hlow
    rw [home, if_pos hlow, hroot]
    rcases rootClus_hasSector hg hr hv with ⟨hzero, -⟩ | ⟨hcluster, -⟩
    · rw [hzero]
      rfl
    · cases hfat16 : g.isFAT16 with
      | true =>
        obtain ⟨-, hlt⟩ := hr.fat16 hfat16
        have hzero : rootClus g = 0 := if_pos hlt
        rw [hzero]
        rfl
      | false =>
        obtain ⟨d, hd, hstart⟩ := hr.fat32 hfat16
        have hclus : rootClus g = d := by
          rw [rootClus, hstart]
          exact sectToClus_cluster hg hv hd hg.perClus_pos
        rw [hclus, ← hv.clusToSect_eq, clusToSect_eq hg hv hd, hstart]
  · rw [home, if_neg hlow]

theorem FatFileSystem.leads (h : FatFileSystem g v) : Leads g {c | DirectoryAt g v c} v := by
  intro c hc fuel places hplaces file hfile p hp hdir
  refine DirectoryAt.entry hc ⟨fuel, places, ?_, rfl⟩ hfile ?_ hdir
  · rw [dirStart_home h.geometry h.rootGeometry h.mounted]
    exact hplaces
  · rw [List.getElem?_map, hp]
    rfl

/-! ### The bound on the sectors -/

theorem sectorsAfter_mono : ∀ {fuel fuel' c s : Nat} {sectors : List Nat}, fuel ≤ fuel' →
    v.sectorsAfter fuel c s = some sectors → v.sectorsAfter fuel' c s = some sectors := by
  intro fuel
  induction fuel with
  | zero =>
    intro fuel' c s sectors _ h
    cases h
  | succ fuel ih =>
    intro fuel' c s sectors hle h
    obtain ⟨fuel', rfl⟩ := Nat.exists_eq_succ_of_ne_zero (Nat.ne_of_gt (Nat.zero_lt_of_lt hle))
    rw [Volume.sectorsAfter] at h ⊢
    rcases hnext : (v.getNextSect false c s).2 with _ | ⟨c', s'⟩
    · rw [hnext] at h
      exact h
    · rw [hnext] at h
      obtain ⟨rest, hrest, rfl⟩ := Option.map_eq_some_iff.mp h
      exact Option.map_eq_some_iff.mpr ⟨rest, ih (Nat.le_of_succ_le_succ hle) hrest, rfl⟩

variable {fuel fuel' : Nat} {places : List Place}

theorem places_mono {start : Place} (hle : fuel ≤ fuel')
    (h : v.places fuel start = some places) : v.places fuel' start = some places := by
  obtain ⟨sectors, hsectors, rfl⟩ := Option.map_eq_some_iff.mp h
  exact Option.map_eq_some_iff.mpr ⟨sectors, sectorsAfter_mono hle hsectors, rfl⟩

theorem places_unique {start : Place} {places' : List Place}
    (h : v.places fuel start = some places) (h' : v.places fuel' start = some places') :
    places = places' := by
  have hleft := places_mono (Nat.le_max_left fuel fuel') h
  rw [places_mono (Nat.le_max_right fuel fuel') h'] at hleft
  exact (Option.some.inj hleft).symm

/-! ### Searching a directory -/

def HasName (dir : Directory) (fileName : List UInt16) (fileNameLen : Nat) : Prop :=
  ∃ file ∈ FatDirectory.files dir, FatDirectory.isFileName dir file fileName fileNameLen = true ∧
    ∃ slot, dir[file.m_dir]? = some slot ∧ slot.DIR_Attr ≠ FatDirectory.ATTR_VOLUME_ID

variable {fileNameLen : Nat} {fileName : List UInt16}

theorem searchCurDir_listing {fuel fileNameLen : Nat} {fileName : List UInt16} {places : List Place}
    (h : v.places fuel (v.dirStart c) = some places) :
    (v.searchCurDir fuel c fileName fileNameLen = some none ∧
        ¬ HasName (places.map v.slot) fileName fileNameLen) ∨
      (HasName (places.map v.slot) fileName fileNameLen ∧
        ∃ p, v.searchCurDir fuel c fileName fileNameLen = some (some p)) := by
  rw [Volume.searchCurDir, h, Option.bind_eq_bind, Option.bind_some]
  dsimp only
  generalize hfind : (FatDirectory.files (places.map v.slot)).find? _ = found
  rcases found with _ | file
  · refine Or.inl ⟨rfl, ?_⟩
    rintro ⟨file, hfile, hname, slot, hslot, hattr⟩
    refine List.find?_eq_none.mp hfind file hfile ?_
    rw [hname, hslot]
    exact decide_eq_true hattr
  · have hcond := List.find?_some hfind
    obtain ⟨hname, hany⟩ := Bool.and_eq_true_iff.mp hcond
    rcases hslot : (places.map v.slot)[file.m_dir]? with _ | slot
    · rw [hslot] at hany
      cases hany
    · rw [hslot] at hany
      refine Or.inr ⟨⟨file, List.mem_of_find?_eq_some hfind, hname, slot, hslot,
        of_decide_eq_true hany⟩, ?_⟩
      rw [List.getElem?_map] at hslot
      obtain ⟨p, hp, -⟩ := Option.map_eq_some_iff.mp hslot
      exact ⟨p, congrArg some hp⟩

theorem searchCurDir_mono
    {r : Option Place} (hle : fuel ≤ fuel')
    (h : v.searchCurDir fuel c fileName fileNameLen = some r) :
    v.searchCurDir fuel' c fileName fileNameLen = some r := by
  obtain ⟨places, hplaces, h⟩ := Option.bind_eq_some_iff.mp h
  exact Option.bind_eq_some_iff.mpr ⟨places, places_mono hle hplaces, h⟩

theorem searchCurDir_unique
    {r r' : Option Place} (h : v.searchCurDir fuel c fileName fileNameLen = some r)
    (h' : v.searchCurDir fuel' c fileName fileNameLen = some r') : r = r' := by
  have hleft := searchCurDir_mono (Nat.le_max_left fuel fuel') h
  rw [searchCurDir_mono (Nat.le_max_right fuel fuel') h'] at hleft
  exact (Option.some.inj hleft).symm

/-! ### Room for new entries -/

def FreeRun (dir : Directory) (n : Nat) : Prop :=
  n ≤ dir.length ∧ ∀ slot ∈ dir.take n, isFree slot = true

def HasRoom (dir : Directory) (n : Nat) : Prop := ∃ i, FreeRun (dir.drop i) n

theorem freeRun_zero : FreeRun dir 0 :=
  ⟨Nat.zero_le _, fun _ hslot => absurd (List.take_zero ▸ hslot) List.not_mem_nil⟩

variable {n : Nat}

theorem freeRun_cons {slot : Slot} :
    FreeRun (slot :: dir) (n + 1) ↔ isFree slot = true ∧ FreeRun dir n := by
  rw [FreeRun, FreeRun, List.length_cons, List.take_succ_cons]
  constructor
  · rintro ⟨hlength, hall⟩
    exact ⟨hall slot List.mem_cons_self, Nat.le_of_succ_le_succ hlength,
      fun t ht => hall t (List.mem_cons_of_mem _ ht)⟩
  · rintro ⟨hfree, hlength, hall⟩
    refine ⟨Nat.succ_le_succ hlength, fun t ht => ?_⟩
    rcases List.mem_cons.mp ht with rfl | hrest
    · exact hfree
    · exact hall t hrest

theorem FreeRun.mono {m : Nat} (h : FreeRun dir n) (hle : m ≤ n) : FreeRun dir m :=
  ⟨hle.trans h.1, fun t ht => h.2 t (List.take_subset_take_left dir hle ht)⟩

theorem hasRoom_cons {slot : Slot} :
    HasRoom (slot :: dir) n ↔ FreeRun (slot :: dir) n ∨ HasRoom dir n := by
  constructor
  · rintro ⟨_ | i, hrun⟩
    · exact Or.inl hrun
    · exact Or.inr ⟨i, hrun⟩
  · rintro (hrun | ⟨i, hrun⟩)
    · exact ⟨0, hrun⟩
    · exact ⟨i + 1, hrun⟩

theorem scanSlots_isLeft {count : Nat} : ∀ {places : List Place} {num : Nat} {start : Place},
    num < count → ((v.scanSlots count places num start).isLeft = true ↔
      FreeRun (places.map v.slot) (count - num) ∨ HasRoom (places.map v.slot) count) := by
  intro places
  induction places with
  | nil =>
    intro num start hlt
    refine iff_of_false Bool.false_ne_true ?_
    rintro (⟨hlength, -⟩ | ⟨i, hlength, -⟩)
    · rw [List.map_nil, List.length_nil] at hlength
      omega
    · rw [List.map_nil, List.drop_nil, List.length_nil] at hlength
      omega
  | cons p places ih =>
    intro num start hlt
    obtain ⟨m, hm⟩ : ∃ m, count - num = m + 1 := ⟨count - num - 1, by omega⟩
    rw [Volume.scanSlots, List.map_cons, hasRoom_cons, hm, freeRun_cons]
    by_cases hfree : isFree (v.slot p) = true
    · rw [if_pos hfree]
      by_cases hcount : num + 1 ≥ count
      · simp only [if_pos hcount]
        have hzero : m = 0 := by omega
        exact iff_of_true rfl (Or.inl ⟨hfree, hzero ▸ freeRun_zero⟩)
      · simp only [if_neg hcount]
        rw [ih (by omega), show count - (num + 1) = m by omega]
        constructor
        · rintro (hrun | hroom)
          · exact Or.inl ⟨hfree, hrun⟩
          · exact Or.inr (Or.inr hroom)
        · rintro (⟨-, hrun⟩ | hrun | hroom)
          · exact Or.inl hrun
          · have hshort := hrun.mono (show m + 1 ≤ count by omega)
            exact Or.inl (freeRun_cons.mp hshort).2
          · exact Or.inr hroom
    · rw [if_neg hfree, ih (by omega), Nat.sub_zero]
      constructor
      · rintro (hrun | hroom)
        · exact Or.inr (Or.inr ⟨0, hrun⟩)
        · exact Or.inr (Or.inr hroom)
      · rintro (⟨hslot, -⟩ | hrun | hroom)
        · exact absurd hslot hfree
        · have hshort := hrun.mono (show 1 ≤ count by omega)
          exact absurd (freeRun_cons.mp hshort).1 hfree
        · exact Or.inr hroom

/-- Where no cluster can be added, `GetNextFreeEntry` fails exactly when there is no room. -/
theorem Tidy.getNextFreeEntry_still {D : Set Nat} (hg : Geometry g) (hr : RootGeometry g)
    (hv : Tidy g D v) (hc : home g c ∈ D) (hstill : home g c = 0 ∨ v.findFreeClus = none)
    {count : Nat} (hplaces : v.places fuel (v.dirStart c) = some places)
    (hpos : 0 < count) (hlt : count < 2 ^ 8) :
    ∃ found, v.getNextFreeEntry fuel c count = some (v, found) ∧
      (found.isSome = true ↔ HasRoom (places.map v.slot) count) := by
  have hstart := hv.dirStart hg hr hc
  have hclus : v.disk.sectToClus (v.disk.clusToSect c) = home g c := by
    rw [hv.mounted.sectToClus_eq, hstart.sectToClus_eq hg hv.mounted]
  rw [Volume.places, hv.mounted.bytesPerSector_eq hg] at hplaces
  obtain ⟨sectors, hsectors, rfl⟩ := Option.map_eq_some_iff.mp hplaces
  rw [Volume.dirStart, hclus] at hsectors
  have hrun := @Tidy.scanSectors_still g v D hg hv count fuel _ _ 0 ⟨v.disk.clusToSect c, 0⟩ _ hc
    hstart hstill hsectors
  have hentry : v.getNextFreeEntry fuel c count = Volume.scanSectors count fuel v (home g c)
      (v.disk.clusToSect c) 0 ⟨v.disk.clusToSect c, 0⟩ := by
    rw [Volume.getNextFreeEntry, hclus, Nat.mod_eq_of_lt hlt]
  refine ⟨_, hentry.trans hrun, ?_⟩
  rw [Sum.isSome_getLeft?_iff_isLeft, scanSlots_isLeft hpos, Nat.sub_zero]
  exact ⟨fun h => h.elim (fun hrun => ⟨0, hrun⟩) id, Or.inr⟩

/-! ### Lookups without flags -/

theorem walk_none {now : FatTime} {dirEntry : Option Place} {x : UInt16}
    {path : List UInt16} :
    Volume.walk fuel now GetFile.NONE (n + 1) v c dirEntry (x :: path) =
      (v.searchCurDir fuel c path (path.takeWhile (· ≠ FatDirectory.backslash)).length).bind fun
        | none => some (v, none)
        | some p =>
            if (path.dropWhile (· ≠ FatDirectory.backslash)).length > 0 ∧ ¬ IsDir (v.slot p) then
              some (v, none)
            else Volume.walk fuel now GetFile.NONE n v (v.slot p).getFstClus (some p)
              (path.dropWhile (· ≠ FatDirectory.backslash)) := by
  have hflag : ∀ flag, hasFlag GetFile.NONE flag = false := fun flag => by
    rw [hasFlag, GetFile.NONE, Nat.zero_and]
    rfl
  have hcreate : ∀ k, createdAttributes GetFile.NONE k = none := fun k => by
    simp [createdAttributes, hflag]
  rw [Volume.walk, Volume.findOrCreate]
  cases v.searchCurDir fuel c path (path.takeWhile (· ≠ FatDirectory.backslash)).length with
  | none => rfl
  | some found =>
    cases found with
    | none =>
      simp [hcreate]
    | some p =>
      have hzero : (GetFile.NONE ≠ 0) = False := eq_false (not_not.mpr rfl)
      simp only [hflag, hzero, Option.bind_eq_bind, Option.bind_some, Bool.false_eq_true, and_false,
        or_false, if_false, IsDir]
      rfl

theorem FatFileSystem.walk (h : FatFileSystem g v) (now : FatTime) :
    ∀ {n c : Nat} {dirEntry : Option Place} {path : List UInt16}, path.length ≤ n →
      DirectoryAt g v (home g c) → ∃ res fuel, ∀ fuel' ≥ fuel,
        Volume.walk fuel' now GetFile.NONE n v c dirEntry path = some (v, res) := by
  intro n
  induction n with
  | zero =>
    intro c dirEntry path hlen _
    obtain rfl := List.eq_nil_of_length_eq_zero (Nat.le_zero.mp hlen)
    exact ⟨dirEntry, 0, fun _ _ => by rw [Volume.walk]⟩
  | succ n ih =>
    intro c dirEntry path hlen hc
    cases path with
    | nil => exact ⟨dirEntry, 0, fun _ _ => by rw [Volume.walk]⟩
    | cons x path =>
      obtain ⟨dir, fuel, places, hplaces, -⟩ := h.ends _ hc
      rw [dirStart_home h.geometry h.rootGeometry h.mounted] at hplaces
      have hrest : (path.dropWhile (· ≠ FatDirectory.backslash)).length ≤ n :=
        (List.dropWhile_sublist _).length_le.trans (Nat.le_of_succ_le_succ hlen)
      rcases @searchCurDir_listing _ _ _
        (path.takeWhile (· ≠ FatDirectory.backslash)).length path _ hplaces with
        ⟨hnone, -⟩ | ⟨-, p, hsome⟩
      · refine ⟨none, fuel, fun fuel' hle => ?_⟩
        rw [walk_none, searchCurDir_mono hle hnone]
        rfl
      by_cases hfile : (path.dropWhile (· ≠ FatDirectory.backslash)).length > 0 ∧
          ¬ IsDir (v.slot p)
      · refine ⟨none, fuel, fun fuel' hle => ?_⟩
        rw [walk_none, searchCurDir_mono hle hsome]
        exact if_pos hfile
      · have hstep : ∀ fuel' ≥ fuel, Volume.walk fuel' now GetFile.NONE (n + 1) v c dirEntry
            (x :: path) = Volume.walk fuel' now GetFile.NONE n v (v.slot p).getFstClus (some p)
              (path.dropWhile (· ≠ FatDirectory.backslash)) := fun fuel' hle => by
          rw [walk_none, searchCurDir_mono hle hsome]
          exact if_neg hfile
        rcases hend : path.dropWhile (· ≠ FatDirectory.backslash) with _ | ⟨y, rest⟩
        · refine ⟨some p, fuel, fun fuel' hle => ?_⟩
          rw [hstep fuel' hle, hend, Volume.walk]
        · have hdir : IsDir (v.slot p) := by
            by_contra hnot
            exact hfile ⟨by rw [hend]; exact Nat.succ_pos _, hnot⟩
          obtain ⟨places', hplaces', file, hmem, hp⟩ := searchCurDir_some hsome
          have hnext := h.leads c hc fuel places' hplaces' file hmem p hp hdir
          obtain ⟨res, fuel₁, hwalk⟩ := @ih _ (some p) _ hrest hnext
          refine ⟨res, max fuel fuel₁, fun fuel' hle => ?_⟩
          rw [hstep fuel' ((Nat.le_max_left _ _).trans hle)]
          exact hwalk fuel' ((Nat.le_max_right _ _).trans hle)

end TinyClr.FatVolume
