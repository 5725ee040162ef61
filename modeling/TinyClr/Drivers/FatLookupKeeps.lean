import TinyClr.Drivers.FatLookupListing

/-!
# What the queries do to a volume

`GetFileInfo` and `GetAttributes` change nothing.  `FindOpen` passes `GetFile__GET_DIRECTORY_ONLY`,
whose bits are those of `GetFile__CREATE_DIRECTORY` and `GetFile__CREATE_PATH` too: it creates the
segments of the path that are missing, and sets the dates of the others.
-/

namespace TinyClr.FatVolume

open TinyClr.Library TinyClr.FatLogicDisk TinyClr.FatFileHandle
open TinyClr.FatDirectory (Slot Directory FatFile FatTime EntryEnumerator)
open scoped TinyClr.FatDirectory

variable {g : LogicDisk} {v v' : Volume} {p : Place} {path : List UInt16}

/-! ### Queries that leave the volume as it is -/

/-- `FindNext` again and again, with buffers of these sizes -/
def Volume.findNexts (v : Volume) (fuel : Nat) : FindFiles → List Nat →
    Option (List (Except Failure (Option FileInfo)))
  | _, [] => some []
  | findFiles, fileNameSize :: sizes => do
      let (info, findFiles) ← v.findNext fuel fileNameSize findFiles
      let infos ← v.findNexts fuel findFiles sizes
      some (info :: infos)

/-- `FindOpen`, followed by calls of `FindNext` -/
def Volume.findAll (v : Volume) (fuel : Nat) (now : FatTime) (handle : Bool) (path : List UInt16)
    (sizes : List Nat) : Option (Volume × Except Failure (List (Except Failure (Option FileInfo)))) := do
  match ← v.findOpen fuel now handle path with
  | (v, .error failure) => some (v, .error failure)
  | (v, .ok findFiles) =>
      let infos ← v.findNexts fuel findFiles sizes
      some (v, .ok infos)

/-- Both copies of the table, the free count, and the slots of the directories but for their access
    dates are as they were. -/
structure Unchanged (g : LogicDisk) (v v' : Volume) : Prop where
  freeCount : v'.disk.freeCount = v.disk.freeCount
  fat : ∀ c < g.totalClusterCount + 2, v'.fat c = v.fat c
  copy : ∀ c < g.totalClusterCount + 2,
    v'.entry v'.disk.fatBaseSector₁ c = v.entry v.disk.fatBaseSector₁ c
  slots : ∀ c s k, InDirectory g v c → HasSector g c s → k < 16 → ∀ i : Fin 32, i ≠ 18 → i ≠ 19 →
    v'.slot ⟨s, 32 * k⟩ i = v.slot ⟨s, 32 * k⟩ i

theorem Unchanged.refl (g : LogicDisk) (v : Volume) : Unchanged g v v :=
  ⟨rfl, fun _ _ => rfl, fun _ _ => rfl, fun _ _ _ _ _ _ _ _ _ => rfl⟩

def IsDirectoryPath (v : Volume) (path : List UInt16) : Prop :=
  isRoot path = true ∨ ∃ fuel now p, v.getFile fuel now path GetFile.NONE = some (v, some p) ∧
    IsDir (v.slot p)

/-- The queries of a path end and leave the volume as it is; and `FindOpen` fails with
    `CLR_E_DIRECTORY_NOT_FOUND` where there is no directory. -/
structure QueriesKeep (g : LogicDisk) (v : Volume) (path : List UInt16) : Prop where
  info : ∀ now, ∃ fuel v' r, v.getFileInfo fuel now path = some (v', r) ∧ Unchanged g v v'
  attributes : ∀ now, ∃ fuel v' r, v.getAttributes fuel now path = some (v', r) ∧ Unchanged g v v'
  find : ∀ now handle sizes, ∃ fuel v' r, v.findAll fuel now handle path sizes = some (v', r) ∧
    Unchanged g v v' ∧ (path.length < FS_MAX_PATH_LENGTH → ¬ IsDirectoryPath v path →
      r = .error .directoryNotFound)

/-! ### When they do -/

/-- Nothing can be created in the root directory under the first characters of a name: the name is
    not valid, or no cluster is free, or the directory lies in front of the clusters and has no room
    for the entries. -/
def Refused (g : LogicDisk) (v : Volume) (dir : Directory) (fileName : List UInt16)
    (fileNameLen : Nat) : Prop :=
  FatDirectory.isFileNameValid (fileName.headD 0) (fileName.take fileNameLen) = false ∨
    (FatDirectory.isFileLongName (fileName.headD 0) (fileName.take fileNameLen) = true →
        ShortName.InBounds (shortEntries dir) (fileName.take fileNameLen)) ∧
      (freeClusters g v = ∅ ∨ (g.isFAT16 = true ∧
        ¬ HasRoom dir (longCount (fileName.headD 0) (fileName.take fileNameLen) + 1)))

/-- `FindOpen` does not come to an entry: the path is too long, empty or the root, or its first
    segment is missing and cannot be created. -/
def ComesToNothing (g : LogicDisk) (v : Volume) (path : List UInt16) : Prop :=
  FS_MAX_PATH_LENGTH ≤ path.length ∨ isRoot path = true ∨ path = [] ∨
    ∃ dir, Listing v (rootClus g) dir ∧
      ¬ HasName dir (path.drop 1)
        ((path.drop 1).takeWhile (· ≠ FatDirectory.backslash)).length ∧
      Refused g v dir (path.drop 1) ((path.drop 1).takeWhile (· ≠ FatDirectory.backslash)).length

/-! ### Where nothing is created -/

theorem findFreeClus_eq_none (hg : Geometry g) (hv : Mounted g v) :
    v.findFreeClus = none ↔ freeClusters g v = ∅ := by
  constructor
  · intro hnone
    by_contra hne
    obtain ⟨c, hfind, -⟩ := findFreeClus_spec hg hv (Finset.nonempty_iff_ne_empty.mpr hne)
    rw [hnone] at hfind
    cases hfind
  · intro hempty
    rcases hfind : v.findFreeClus with _ | c
    · rfl
    · have hmem := findFreeClus_some hg hv hfind
      rw [hempty] at hmem
      exact absurd hmem (Finset.notMem_empty c)

theorem home_rootClus_zero (hr : RootGeometry g) (hfat16 : g.isFAT16 = true) :
    home g (rootClus g) = 0 := by
  have hzero : rootClus g = 0 := if_pos (hr.fat16 hfat16).2
  rw [hzero, home, if_pos (by decide), hzero]

variable {fileName : List UInt16}

theorem longCount_lt {first : UInt16} (h : fileName.length < 258) :
    longCount first fileName + 1 < 2 ^ 8 := by
  rw [longCount]
  split
  · omega
  · decide

variable {fuel c : Nat} {places : List Place}

theorem shortName_isSome {first : UInt16}
    (h : v.places fuel (v.dirStart c) = some places) :
    (v.shortName fuel c first fileName).isSome = true ↔
      (FatDirectory.isFileLongName first fileName = true →
        ShortName.InBounds (shortEntries (places.map v.slot)) fileName) := by
  rw [Volume.shortName]
  by_cases hlong : FatDirectory.isFileLongName first fileName = true
  · rw [if_pos hlong, h]
    exact (ShortName.longToShortName_isSome _ _).trans ⟨fun hin _ => hin, fun hin => hin hlong⟩
  · rw [if_neg hlong]
    exact iff_of_true rfl fun hlong' => absurd hlong' hlong

theorem FatFileSystem.create_refused (h : FatFileSystem g v) {fileNameLen : Nat} (now : FatTime)
    (hlength : fileName.length < 258)
    (hplaces : v.places fuel (v.dirStart (rootClus g)) = some places)
    (hrefused : Refused g v (places.map v.slot) fileName fileNameLen) :
    v.create fuel now (rootClus g) fileName fileNameLen FatDirectory.ATTR_DIRECTORY =
      some (v, none) := by
  rw [Volume.create]
  dsimp only
  by_cases hvalid : FatDirectory.isFileNameValid (fileName.headD 0) (fileName.take fileNameLen) = false
  · exact if_pos hvalid
  obtain ⟨hin, hfull⟩ := hrefused.resolve_left hvalid
  obtain ⟨shortName, hname⟩ := Option.isSome_iff_exists.mp ((shortName_isSome hplaces).mpr hin)
  have hhome : home g (rootClus g) ∈ {c | InDirectory g v c} := by
    rw [home_rootClus h.geometry h.rootGeometry h.mounted]
    exact .first .root
  have hstill : home g (rootClus g) = 0 ∨ v.findFreeClus = none := by
    rcases hfull with hempty | ⟨hfat16, -⟩
    · exact Or.inr ((findFreeClus_eq_none h.geometry h.mounted).mpr hempty)
    · exact Or.inl (home_rootClus_zero h.rootGeometry hfat16)
  have hlt : longCount (fileName.headD 0) (fileName.take fileNameLen) + 1 < 2 ^ 8 :=
    longCount_lt ((List.length_take_le' _ _).trans_lt hlength)
  obtain ⟨found, hentry, hroom⟩ := h.tidy.getNextFreeEntry_still h.geometry h.rootGeometry hhome
    hstill hplaces (Nat.succ_pos _) hlt
  rw [if_neg hvalid, hname, Option.bind_eq_bind, Option.bind_some, hentry, Option.bind_eq_bind,
    Option.bind_some]
  rcases found with _ | start
  · rfl
  rcases hfull with hempty | ⟨-, hno⟩
  · rcases h.tidy.createNewDirectory h.geometry h.rootGeometry (rootClus g) with
      ⟨hnew, -⟩ | ⟨v', c, -, -, hgrown, -⟩
    · have hdir : FatDirectory.ATTR_DIRECTORY &&& FatDirectory.ATTR_DIRECTORY =
          FatDirectory.ATTR_DIRECTORY := by decide
      dsimp only
      rw [if_pos hdir, hnew]
    · obtain ⟨d, hd, hfree, -⟩ := hgrown.takes
      have hmem : d ∈ freeClusters g v := mem_freeClusters.mpr
        ⟨⟨Nat.not_lt.mp fun hlow => h.mounted.reserved d hlow hfree, hd⟩, hfree⟩
      rw [hempty] at hmem
      exact absurd hmem (Finset.notMem_empty d)
  · exact absurd (hroom.mp rfl) hno

/-! ### The queries -/

theorem rootClus_eq (hv : Mounted g v) :
    v.disk.sectToClus v.disk.rootSectorStart = rootClus g := by
  rw [hv.sectToClus_eq]
  obtain ⟨_, _, hdisk⟩ := hv.onDisk
  rw [hdisk]
  rfl

theorem FatFileSystem.getFile (h : FatFileSystem g v) (now : FatTime) (path : List UInt16) :
    ∃ res fuel, v.getFile fuel now path GetFile.NONE = some (v, res) := by
  by_cases hroot : isRoot path = true
  · exact ⟨none, 0, by rw [Volume.getFile, if_pos hroot]⟩
  · have hhome : DirectoryAt g v (home g (rootClus g)) := by
      rw [home_rootClus h.geometry h.rootGeometry h.mounted]
      exact .root
    obtain ⟨res, fuel, hwalk⟩ := @FatFileSystem.walk g v h now _ _ none path le_rfl hhome
    refine ⟨res, fuel, ?_⟩
    rw [Volume.getFile, if_neg hroot, rootClus_eq h.mounted]
    exact hwalk fuel le_rfl

theorem FatFileSystem.getFileInfo (h : FatFileSystem g v) (now : FatTime) (path : List UInt16) :
    ∃ fuel v' r, v.getFileInfo fuel now path = some (v', r) ∧ Unchanged g v v' := by
  by_cases hlong : path.length ≥ FS_MAX_PATH_LENGTH
  · exact ⟨0, v, _, if_pos hlong, .refl g v⟩
  by_cases hroot : isRoot path = true
  · exact ⟨0, v, _, (if_neg hlong).trans (if_pos hroot), .refl g v⟩
  obtain ⟨res, fuel, hrun⟩ := h.getFile now path
  rcases res with _ | p
  · refine ⟨fuel, v, .ok none, ?_, .refl g v⟩
    rw [Volume.getFileInfo, if_neg hlong, if_neg hroot, hrun]
    rfl
  · refine ⟨fuel, v, .ok (some (infoOf (v.slot p) [])), ?_, .refl g v⟩
    rw [Volume.getFileInfo, if_neg hlong, if_neg hroot, hrun]
    rfl

theorem FatFileSystem.getAttributes (h : FatFileSystem g v) (now : FatTime) (path : List UInt16) :
    ∃ fuel v' r, v.getAttributes fuel now path = some (v', r) ∧ Unchanged g v v' := by
  by_cases hlong : path.length ≥ FS_MAX_PATH_LENGTH
  · exact ⟨0, v, _, if_pos hlong, .refl g v⟩
  by_cases hroot : isRoot path = true
  · exact ⟨0, v, _, (if_neg hlong).trans (if_pos hroot), .refl g v⟩
  obtain ⟨res, fuel, hrun⟩ := h.getFile now path
  rcases res with _ | p
  · refine ⟨fuel, v, .ok 0xFFFFFFFF, ?_, .refl g v⟩
    rw [Volume.getAttributes, if_neg hlong, if_neg hroot, hrun]
    rfl
  · refine ⟨fuel, v, .ok (v.slot p).DIR_Attr.toNat, ?_, .refl g v⟩
    rw [Volume.getAttributes, if_neg hlong, if_neg hroot, hrun]
    rfl

theorem findNext_some {fuel fileNameSize : Nat} {findFiles : FindFiles} {places : List Place}
    (h : v.places fuel findFiles.start = some places) :
    ∃ info findFiles', v.findNext fuel fileNameSize findFiles = some (info, findFiles') ∧
      findFiles'.start = findFiles.start := by
  rw [Volume.findNext, h]
  simp only [Option.bind_eq_bind, Option.bind_some]
  rcases nextFile (places.map v.slot) ((places.map v.slot).length + 1) findFiles.entryEnum with
    ⟨_ | ⟨file, slot⟩, e⟩
  · exact ⟨_, _, rfl, rfl⟩
  · dsimp only
    split
    · exact ⟨_, _, rfl, rfl⟩
    · exact ⟨_, _, rfl, rfl⟩

theorem findNexts_some {fuel : Nat} {places : List Place} : ∀ {sizes : List Nat}
    {findFiles : FindFiles}, v.places fuel findFiles.start = some places →
      ∃ infos, v.findNexts fuel findFiles sizes = some infos := by
  intro sizes
  induction sizes with
  | nil => exact fun _ => ⟨[], by rw [Volume.findNexts]⟩
  | cons size sizes ih =>
    intro findFiles h
    obtain ⟨info, findFiles', hnext, hstart⟩ := @findNext_some v fuel size findFiles places h
    obtain ⟨infos, hrest⟩ := @ih findFiles' (hstart ▸ h)
    refine ⟨info :: infos, ?_⟩
    rw [Volume.findNexts, hnext]
    simp only [Option.bind_eq_bind, Option.bind_some, hrest]

theorem findAll_eq (hv : Mounted g v) {now : FatTime} {handle : Bool}
    {sizes : List Nat} (hlong : ¬ path.length ≥ FS_MAX_PATH_LENGTH) (hroot : ¬ isRoot path = true) :
    v.findAll fuel now handle path sizes =
      (Volume.walk fuel now GetFile.GET_DIRECTORY_ONLY path.length v (rootClus g) none path).bind fun
        | (v, none) => some (v, .error .directoryNotFound)
        | (v, some p) =>
            if handle = true then
              (v.findNexts fuel ⟨v.dirStart (v.slot p).getFstClus, .initial 0⟩ sizes).map fun infos =>
                (v, .ok infos)
            else some (v, .error .tooManyOpenHandles) := by
  rw [Volume.findAll, Volume.findOpen, if_neg hlong, if_neg hroot, Volume.getFile, if_neg hroot,
    rootClus_eq hv]
  cases Volume.walk fuel now GetFile.GET_DIRECTORY_ONLY path.length v (rootClus g) none path with
  | none => rfl
  | some found =>
    obtain ⟨v', _ | p⟩ := found
    · rfl
    · cases handle with
      | true =>
        simp only [Option.bind_eq_bind, Option.bind_some, if_true]
        cases v'.findNexts fuel ⟨v'.dirStart (v'.slot p).getFstClus, .initial 0⟩ sizes with
        | none => rfl
        | some infos => rfl
      | false => rfl

theorem FatFileSystem.keeps (h : FatFileSystem g v) (hnothing : ComesToNothing g v path) :
    QueriesKeep g v path := by
  refine ⟨fun now => h.getFileInfo now path, fun now => h.getAttributes now path,
    fun now handle sizes => ?_⟩
  by_cases hlong : path.length ≥ FS_MAX_PATH_LENGTH
  · refine ⟨0, v, .error .pathTooLong, ?_, .refl g v, fun hlt => absurd hlt (Nat.not_lt.mpr hlong)⟩
    rw [Volume.findAll, Volume.findOpen, if_pos hlong]
    rfl
  by_cases hroot : isRoot path = true
  · obtain ⟨dir, fuel, places, hplaces, -⟩ := h.ends _ .root
    have hstart : v.dirStart (rootClus g) = v.dirStart CLUSTER_NOT_A_CLUSTER := by
      rw [← dirStart_home h.geometry h.rootGeometry h.mounted CLUSTER_NOT_A_CLUSTER]
      rfl
    rw [hstart] at hplaces
    obtain ⟨infos, hinfos⟩ := @findNexts_some v fuel places sizes
      ⟨v.dirStart CLUSTER_NOT_A_CLUSTER, .initial 0⟩ hplaces
    have hrun : v.findAll fuel now handle path sizes = some (v,
        if handle = true then .ok infos else .error .tooManyOpenHandles) := by
      rw [Volume.findAll, Volume.findOpen, if_neg hlong, if_pos hroot]
      cases handle with
      | true =>
        simp only [Option.bind_eq_bind, Option.bind_some, if_true, hinfos]
      | false => rfl
    exact ⟨fuel, v, _, hrun, .refl g v, fun _ hnot => absurd (Or.inl hroot) hnot⟩
  have hwalk : ∃ fuel, Volume.walk fuel now GetFile.GET_DIRECTORY_ONLY path.length v (rootClus g)
      none path = some (v, none) := by
    rcases (hnothing.resolve_left hlong).resolve_left hroot with
      rfl | ⟨dir, ⟨fuel, places, hplaces, rfl⟩, hno, hrefused⟩
    · exact ⟨0, by rw [Volume.walk]⟩
    · cases path with
      | nil => exact ⟨0, by rw [Volume.walk]⟩
      | cons x path =>
        refine ⟨fuel, ?_⟩
        obtain ⟨hsearch, -⟩ := (searchCurDir_listing hplaces).resolve_right fun hhas => hno hhas.1
        have hlength : path.length < 258 := by
          rw [FS_MAX_PATH_LENGTH, List.length_cons] at hlong
          omega
        rw [List.length_cons, walk_getDirectoryOnly, findOrCreate_getDirectoryOnly]
        rw [List.drop_one, List.tail_cons] at hsearch hrefused
        rw [hsearch, Option.bind_some, h.create_refused now hlength hplaces hrefused]
        rfl
  obtain ⟨fuel, hwalk⟩ := hwalk
  refine ⟨fuel, v, .error .directoryNotFound, ?_, .refl g v, fun _ _ => rfl⟩
  rw [findAll_eq h.mounted hlong hroot, hwalk]
  rfl

/-! ### Where something changes -/

theorem Takes.not_unchanged (h : Takes g v v') : ¬ Unchanged g v v' := by
  obtain ⟨c, hc, hfree, hused⟩ := h
  intro hsame
  exact hused ((hsame.fat c hc).trans hfree)

def otherTime (slot : Slot) : FatTime := ⟨0, 0, if slot 13 = 0 then 1 else 0⟩

theorem otherTime_ne (slot : Slot) : (otherTime slot).timeTenth ≠ slot 13 := by
  rw [otherTime]
  by_cases hzero : slot 13 = 0
  · simp [hzero]
  · simp only [if_neg hzero]
    exact fun heq => hzero heq.symm

theorem Redated.not_unchanged (hp : IsPlace g {c | InDirectory g v c} p)
    (h : Redated (otherTime (v.slot p)) (v.setSlot p ((v.slot p).stamp (otherTime (v.slot p)))) v') :
    ¬ Unchanged g v v' := by
  intro hsame
  have hslot : v'.slot p 13 = (otherTime (v.slot p)).timeTenth := by
    obtain ⟨s, o⟩ := p
    obtain ⟨-, -, -, k, -, hdata⟩ := hp
    obtain rfl : o = 32 * k := hdata
    rcases h s k with heq | heq
    · rw [heq, slot_setSlot_self]
      rfl
    · rw [heq]
      rfl
  obtain ⟨c, hc, hsect, k, hk, hdata⟩ := hp
  obtain ⟨s, o⟩ := p
  obtain rfl : o = 32 * k := hdata
  have hold := hsame.slots c s k hc hsect hk 13 (by decide) (by decide)
  exact otherTime_ne _ (hslot.symm.trans hold)

theorem FatFileSystem.comesToNothing (h : FatFileSystem g v) (hkeep : QueriesKeep g v path) :
    ComesToNothing g v path := by
  have hg := h.geometry
  have hr := h.rootGeometry
  by_cases hlong : path.length ≥ FS_MAX_PATH_LENGTH
  · exact Or.inl hlong
  by_cases hroot : isRoot path = true
  · exact Or.inr (Or.inl hroot)
  cases path with
  | nil => exact Or.inr (Or.inr (Or.inl rfl))
  | cons x path =>
    obtain ⟨dir, fuel₁, places, hplaces, -⟩ := h.ends _ .root
    have hhome : home g (rootClus g) = rootClus g := home_rootClus hg hr h.mounted
    have hmem : home g (rootClus g) ∈ {c | InDirectory g v c} := hhome.symm ▸ .first .root
    have hat : home g (rootClus g) ∈ {c | DirectoryAt g v c} := hhome.symm ▸ .root
    have hsub : {c | DirectoryAt g v c} ⊆ {c | InDirectory g v c} := fun c hc => .first hc
    rcases @searchCurDir_listing v _ _ (path.takeWhile (· ≠ FatDirectory.backslash)).length path
      places hplaces with ⟨hnone, hno⟩ | ⟨-, p, hsome⟩
    · -- the segment is missing: what is created takes a cluster
      obtain ⟨fuel, v', r, hrun, hsame, -⟩ := hkeep.find ⟨0, 0, 0⟩ false []
      rw [findAll_eq h.mounted hlong hroot] at hrun
      obtain ⟨⟨v₁, res⟩, hwalk, hrun⟩ := Option.bind_eq_some_iff.mp hrun
      have hvol : v₁ = v' := by
        rcases res with _ | p
        · exact (Prod.mk.inj (Option.some.inj hrun)).1
        · exact (Prod.mk.inj (Option.some.inj hrun)).1
      subst hvol
      rw [List.length_cons, walk_getDirectoryOnly, findOrCreate_getDirectoryOnly] at hwalk
      obtain ⟨⟨v₂, found⟩, hfound, hwalk⟩ := Option.bind_eq_some_iff.mp hwalk
      obtain ⟨searched, hsearch, hcreate⟩ := Option.bind_eq_some_iff.mp hfound
      obtain rfl := searchCurDir_unique hsearch hnone
      rcases h.tidy.create hg hr hmem hcreate with ⟨-, -, hreason⟩ | ⟨htakes, -, hmade⟩
      · refine Or.inr (Or.inr (Or.inr ⟨_, ⟨fuel₁, places, hplaces, rfl⟩, hno, ?_⟩))
        refine hreason.imp_right fun ⟨hmakes, hwhy⟩ => ?_
        obtain ⟨places', hplaces', -⟩ := Option.bind_eq_some_iff.mp hsearch
        obtain rfl := places_unique hplaces' hplaces
        refine ⟨(shortName_isSome hplaces').mp hmakes, ?_⟩
        rcases hwhy with hnofree | ⟨hfat16, hentry⟩
        · exact Or.inl ((findFreeClus_eq_none hg h.mounted).mp hnofree)
        · refine Or.inr ⟨hfat16, fun hroom => ?_⟩
          have hlt : longCount (path.headD 0) (path.take
              (path.takeWhile (· ≠ FatDirectory.backslash)).length) + 1 < 2 ^ 8 := by
            refine longCount_lt ((List.length_take_le' _ _).trans_lt ?_)
            rw [FS_MAX_PATH_LENGTH, List.length_cons] at hlong
            omega
          obtain ⟨found, hstill, hiff⟩ := h.tidy.getNextFreeEntry_still hg hr hmem
            (Or.inl (home_rootClus_zero hr hfat16)) hplaces' (Nat.succ_pos _) hlt
          rw [hentry] at hstill
          obtain ⟨-, rfl⟩ := Prod.mk.inj (Option.some.inj hstill)
          exact Bool.false_ne_true (hiff.mpr hroom)
      · exfalso
        rcases found with _ | p
        · obtain ⟨rfl, -⟩ := Prod.mk.inj (Option.some.inj hwalk)
          exact htakes.not_unchanged hsame
        · obtain ⟨d, hmade⟩ := hmade p rfl
          obtain ⟨D', hp, hd⟩ := hmade.place
          have hstamped := hmade.fresh.setSlot hg hr hp hd ((v₂.slot p).stamp ⟨0, 0, 0⟩)
          obtain ⟨-, hfat⟩ := setSlot_fat hg hr hmade.fresh.tidy.mounted hp
            ((v₂.slot p).stamp ⟨0, 0, 0⟩)
          simp only at hwalk
          rw [if_neg (not_not.mpr hmade.dir), hmade.clus] at hwalk
          exact ((htakes.trans_keeps (Keeps.of_eq hfat)).trans_keeps
            (hstamped.walk hg hr hwalk)).not_unchanged hsame
    · -- the segment is there: its dates are set
      exfalso
      obtain ⟨fuel, v', r, hrun, hsame, -⟩ := hkeep.find (otherTime (v.slot p)) false []
      rw [findAll_eq h.mounted hlong hroot] at hrun
      obtain ⟨⟨v₁, res⟩, hwalk, hrun⟩ := Option.bind_eq_some_iff.mp hrun
      have hvol : v₁ = v' := by
        rcases res with _ | p
        · exact (Prod.mk.inj (Option.some.inj hrun)).1
        · exact (Prod.mk.inj (Option.some.inj hrun)).1
      subst hvol
      rw [List.length_cons, walk_getDirectoryOnly, findOrCreate_getDirectoryOnly] at hwalk
      obtain ⟨⟨v₂, found⟩, hfound, hwalk⟩ := Option.bind_eq_some_iff.mp hwalk
      obtain ⟨searched, hsearch, hcreate⟩ := Option.bind_eq_some_iff.mp hfound
      obtain rfl := searchCurDir_unique hsearch hsome
      obtain ⟨rfl, rfl⟩ := Prod.mk.inj (Option.some.inj hcreate)
      have hp := h.tidy.searchCurDir hg hr hmem hsearch
      have hstamped := (Stamped.refl g (otherTime (v.slot p)) v).setSlot hg hr hp
      simp only at hwalk
      by_cases hdir : IsDir (v.slot p)
      · rw [if_neg (not_not.mpr hdir)] at hwalk
        obtain ⟨places', hplaces', file, hfile, hplace⟩ := searchCurDir_some hsearch
        have hnext := h.leads _ hat fuel places' hplaces' file hfile p hplace hdir
        rcases Stamped.walk hg hr hsub (hstamped.tidy hg h.tidy)
          (hstamped.leads hg hr h.tidy hsub h.leads) hnext hwalk with
          ⟨d, hd, hfree, hused⟩ | hredated
        · rw [hstamped.fat_eq hg h.mounted hd] at hfree
          exact Takes.not_unchanged ⟨d, hd, hfree, hused⟩ hsame
        · exact hredated.not_unchanged hp hsame
      · rw [if_pos hdir] at hwalk
        obtain ⟨rfl, -⟩ := Prod.mk.inj (Option.some.inj hwalk)
        exact Redated.not_unchanged hp (fun _ _ => Or.inl rfl) hsame

/-! ### A small volume -/

def smallDisk : LogicDisk where
  diskSize := 4096
  baseAddress := 0
  sectorCount := 8
  fatBaseSector₀ := 1
  fatBaseSector₁ := 2
  firstDataSector := 4
  totalClusterCount := 4
  totalSectorCount := 8
  entriesPerSector := 256
  sectorFSInfo := 0
  freeCount := 4
  nextFree := 2
  isFAT16 := true
  rootSectorStart := 3
  bytesPerSector := 512
  sectorsPerCluster := 1

/-- The entries of the first two numbers, and the name of a file in the root directory or not -/
def smallVolume (file : Bool) : Volume where
  disk := smallDisk
  sectors s i := if (s = 1 ∨ s = 2) ∧ i < 4 then 0xFF
    else if s = 3 ∧ file then (FatDirectory.setName [0x41, 0x42]).getD i 0 else 0

/-- Nothing but the entries of the first two numbers is written. -/
def emptyVolume : Volume := smallVolume false

section SmallVolume

variable {hasFile : Bool}

theorem smallVolume_listing {dir : Directory} (h : Listing (smallVolume hasFile) 0 dir) :
    dir = (placesOf 512 3 0).map (smallVolume hasFile).slot := by
  obtain ⟨fuel, places, hplaces, rfl⟩ := h
  have hroot : (smallVolume hasFile).places 1 ((smallVolume hasFile).dirStart 0)
      = some (placesOf 512 3 0) := by cases hasFile <;> rfl
  rw [places_unique hplaces hroot]

theorem smallVolume_attr (p : Place) (hp : p ∈ placesOf 512 3 0) :
    ((smallVolume hasFile).slot p).DIR_Attr = 0 := by
  obtain ⟨hsect, -⟩ := mem_placesOf (k := 0) rfl hp
  have hattr : (smallVolume hasFile).sectors 3 (p.dataIndex + 11) = 0 := by
    cases hasFile with
    | false => rfl
    | true =>
      exact List.getD_eq_default (FatDirectory.setName [0x41, 0x42]) 0
        (Nat.le_add_left 11 p.dataIndex)
  rw [← hsect] at hattr
  exact hattr

theorem smallVolume_directoryAt (h : DirectoryAt smallDisk (smallVolume hasFile) c) : c = 0 := by
  induction h with
  | root => rfl
  | @entry c dir file slot _ hlisting _ hslot hdir ih =>
    subst ih
    rw [smallVolume_listing hlisting] at hslot
    obtain ⟨p, hp, rfl⟩ := List.mem_map.mp (List.mem_of_getElem? hslot)
    rw [IsDir, smallVolume_attr p hp] at hdir
    exact absurd hdir (by decide)

theorem smallVolume_inDirectory (h : InDirectory smallDisk (smallVolume hasFile) c) : c = 0 := by
  induction h with
  | first hat => exact smallVolume_directoryAt hat
  | link _ hcluster _ ih =>
    subst ih
    exact absurd hcluster.1 (by decide)

theorem smallVolume_fileSystem : FatFileSystem smallDisk (smallVolume hasFile) where
  geometry := ⟨rfl, by decide, by decide, rfl, by decide, by decide, nofun, by decide, by decide⟩
  rootGeometry := ⟨fun _ => by decide, nofun⟩
  mounted := by cases hasFile <;> exact ⟨⟨4, 2, rfl⟩, by decide, by decide⟩
  onDisk c hc := Or.inl ⟨smallVolume_inDirectory hc, rfl⟩
  link c hc hcluster _ := by
    rw [smallVolume_inDirectory hc] at hcluster
    exact absurd hcluster.1 (by decide)
  ends c hc := by
    rw [smallVolume_directoryAt hc]
    exact ⟨_, 1, placesOf 512 3 0, by cases hasFile <;> rfl, rfl⟩

end SmallVolume

/-- **Queries** leave a file system as it is exactly where `FindOpen` does not come to an entry. -/
theorem queriesKeep_iff (h : FatFileSystem g v) (path : List UInt16) :
    QueriesKeep g v path ↔ ComesToNothing g v path :=
  ⟨h.comesToNothing, h.keeps⟩

/-- `AB` is in the root directory; the queries of `\A?` go through it and leave everything as it
    is. -/
theorem queriesKeep_invalid :
    QueriesKeep smallDisk (smallVolume true)
      [FatDirectory.backslash, 0x41, 0x3F] := by
  refine (queriesKeep_iff smallVolume_fileSystem _).mpr
    (.inr (.inr (.inr ⟨_, ⟨1, placesOf 512 3 0, rfl, rfl⟩, ?_, .inl (by decide)⟩)))
  have hother : ∀ file ∈ FatDirectory.files ((placesOf 512 3 0).map (smallVolume true).slot),
      FatDirectory.isFileName ((placesOf 512 3 0).map (smallVolume true).slot) file [0x41, 0x3F] 2
        = false := by decide
  rintro ⟨file, hfile, hnamed, -⟩
  exact absurd hnamed (ne_true_of_eq_false (hother file hfile))

/-- On the empty volume, `FindOpen` of `\AB` does not. -/
theorem findOpen_creates : FatFileSystem smallDisk emptyVolume ∧
    ¬ QueriesKeep smallDisk emptyVolume [FatDirectory.backslash, 0x41, 0x42] := by
  refine ⟨smallVolume_fileSystem, fun hkeep => ?_⟩
  rcases smallVolume_fileSystem.comesToNothing hkeep with
    hlong | hroot | hempty | ⟨dir, hlisting, -, hrefused⟩
  · exact absurd hlong (by decide)
  · exact absurd hroot (by decide)
  · cases hempty
  · rcases hrefused with hvalid | ⟨-, hfree | ⟨-, hfull⟩⟩
    · exact absurd hvalid (by decide)
    · have hmem : 2 ∈ freeClusters smallDisk (smallVolume false) :=
        mem_freeClusters.mpr ⟨⟨by decide, by decide⟩, by decide⟩
      rw [hfree] at hmem
      cases hmem
    · have hdir := smallVolume_listing hlisting
      refine hfull ⟨0, ?_⟩
      rw [hdir]
      refine ⟨by decide, fun slot hslot => ?_⟩
      obtain ⟨p, hp, rfl⟩ := List.mem_map.mp (List.mem_of_mem_take hslot)
      obtain ⟨hsect, -⟩ := mem_placesOf (k := 0) rfl hp
      rw [isFree, Slot.LDIR_Ord, Volume.slot, hsect]
      rfl

end TinyClr.FatVolume
