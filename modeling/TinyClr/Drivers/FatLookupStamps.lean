import TinyClr.Drivers.FatLookupRuns

/-!
# Dates of entries

Where the enumerator finds the files of a directory does not depend on the dates of the entries, so
setting them on the way leaves `GetFile` in the directories that it can reach.
-/

namespace TinyClr.FatDirectory

variable {dir dir' : Directory}

/-! ### Where the files are -/

/-- The bytes of a slot that the enumerator goes by -/
def headOf (s : Slot) : UInt8 × UInt8 := (s.LDIR_Ord, s.LDIR_Attr)

theorem headOf_isLast {s s' : Slot} (h : headOf s' = headOf s) : s'.IsLast ↔ s.IsLast := by
  obtain ⟨hord, hattr⟩ := Prod.mk.inj h
  rw [Slot.IsLast, Slot.IsLast, Slot.IsLong, Slot.IsLong, hord, hattr]

theorem getNext_heads (h : dir'.map headOf = dir.map headOf) (e : EntryEnumerator) :
    (e.getNext dir').1.map headOf = (e.getNext dir).1.map headOf ∧
      (e.getNext dir').2 = (e.getNext dir).2 := by
  have hlength : dir'.length = dir.length := by
    have hmap := congrArg List.length h
    rwa [List.length_map, List.length_map] at hmap
  have hget : ∀ i, dir'[i]?.map headOf = dir[i]?.map headOf := fun i => by
    rw [← List.getElem?_map, ← List.getElem?_map, h]
  rw [EntryEnumerator.getNext, EntryEnumerator.getNext, hlength]
  split
  · exact ⟨hget _, rfl⟩
  · split
    · exact ⟨rfl, rfl⟩
    · split
      · exact ⟨rfl, rfl⟩
      · exact ⟨hget _, rfl⟩

theorem eq_or_heads {r r' : Option Slot × EntryEnumerator} (hhead : r'.1.map headOf = r.1.map headOf)
    (he : r'.2 = r.2) : (∃ e, r' = (none, e) ∧ r = (none, e)) ∨
      ∃ s' s e, r' = (some s', e) ∧ r = (some s, e) ∧ headOf s' = headOf s := by
  obtain ⟨r₁, e⟩ := r
  obtain ⟨r₁', e'⟩ := r'
  obtain rfl : e' = e := he
  cases r₁ with
  | none =>
    obtain rfl := Option.map_eq_none_iff.mp hhead
    exact Or.inl ⟨e', rfl, rfl⟩
  | some s =>
    obtain ⟨s', rfl, hs⟩ := Option.map_eq_some_iff.mp hhead
    exact Or.inr ⟨s', s, e', rfl, rfl, hs⟩

theorem skipDeleted_heads (h : dir'.map headOf = dir.map headOf) : ∀ (fuel : Nat)
    (e : EntryEnumerator),
    (skipDeleted dir' fuel e).1.map headOf = (skipDeleted dir fuel e).1.map headOf ∧
      (skipDeleted dir' fuel e).2 = (skipDeleted dir fuel e).2 := by
  intro fuel
  induction fuel with
  | zero => exact fun _ => ⟨rfl, rfl⟩
  | succ fuel ih =>
    intro e
    obtain ⟨hhead, he⟩ := getNext_heads h e
    rw [skipDeleted, skipDeleted]
    rcases eq_or_heads hhead he with ⟨e', hr', hr⟩ | ⟨s', s, e', hr', hr, hs⟩
    · rw [hr', hr]
      exact ⟨rfl, rfl⟩
    · rw [hr', hr]
      obtain ⟨hord, -⟩ := Prod.mk.inj hs
      dsimp only
      rw [hord]
      split
      · exact ih e'
      · exact ⟨congrArg some hs, rfl⟩

theorem checkRun_heads (h : dir'.map headOf = dir.map headOf) (checksum checksum' : UInt8) :
    ∀ (i m m' : Nat) (e : EntryEnumerator),
      (∃ e', checkRun dir' checksum' i m' e = (none, e') ∧
        checkRun dir checksum i m e = (none, e')) ∨
      ∃ n' n e', checkRun dir' checksum' i m' e = (some n', e') ∧
        checkRun dir checksum i m e = (some n, e') := by
  intro i
  induction i with
  | zero => exact fun m m' e => Or.inr ⟨m', m, e, rfl, rfl⟩
  | succ i ih =>
    intro m m' e
    obtain ⟨hhead, he⟩ := getNext_heads h e
    rw [checkRun, checkRun]
    rcases eq_or_heads hhead he with ⟨e', hr', hr⟩ | ⟨s', s, e', hr', hr, -⟩
    · rw [hr', hr]
      exact Or.inl ⟨e', rfl, rfl⟩
    · rw [hr', hr]
      dsimp only
      split <;> split <;> exact ih _ _ e'

theorem parse_heads (h : dir'.map headOf = dir.map headOf) (e : EntryEnumerator) :
    (∃ e', parse dir' e = (none, e') ∧ parse dir e = (none, e')) ∨
      ∃ file' file e', parse dir' e = (some file', e') ∧ parse dir e = (some file, e') ∧
        file'.m_dir = file.m_dir := by
  have hlength : dir'.length = dir.length := by
    have hmap := congrArg List.length h
    rwa [List.length_map, List.length_map] at hmap
  obtain ⟨hhead, he⟩ := skipDeleted_heads h (dir.length + 1) e
  rw [parse, parse, hlength]
  rcases eq_or_heads hhead he with ⟨e₁, hr', hr⟩ | ⟨s', s, e₁, hr', hr, hs⟩
  · rw [hr', hr]
    exact Or.inl ⟨e₁, rfl, rfl⟩
  rw [hr', hr]
  have hlast := headOf_isLast hs
  obtain ⟨hord, -⟩ := Prod.mk.inj hs
  dsimp only
  simp only [hord, hlast]
  by_cases hempty : s.LDIR_Ord = SLOT_EMPTY
  · rw [if_pos hempty, if_pos hempty]
    exact Or.inl ⟨e₁, rfl, rfl⟩
  rw [if_neg hempty, if_neg hempty]
  by_cases hrun : s.IsLast
  · rw [if_pos hrun, if_pos hrun]
    generalize (s.LDIR_Ord &&& 0x3F).toNat = n
    by_cases hmax : n > MAX_LONGENTRY_COUNT
    · rw [if_pos hmax, if_pos hmax]
      exact Or.inl ⟨e₁, rfl, rfl⟩
    rw [if_neg hmax, if_neg hmax]
    rcases checkRun_heads h s.LDIR_Chksum s'.LDIR_Chksum (n - 1) n n e₁ with
      ⟨e₂, hr', hr⟩ | ⟨count', count, e₂, hr', hr⟩
    · rw [hr', hr]
      exact Or.inl ⟨e₂, rfl, rfl⟩
    · rw [hr', hr]
      obtain ⟨hhead', he'⟩ := getNext_heads h e₂
      dsimp only
      rcases eq_or_heads hhead' he' with ⟨e₃, hr', hr⟩ | ⟨t', t, e₃, hr', hr, -⟩
      · rw [hr', hr]
        exact Or.inl ⟨e₃, rfl, rfl⟩
      · rw [hr', hr]
        exact Or.inr ⟨_, _, e₃, rfl, rfl, rfl⟩
  · rw [if_neg hrun, if_neg hrun]
    exact Or.inr ⟨_, _, e₁, rfl, rfl, rfl⟩

theorem files_heads (h : dir'.map headOf = dir.map headOf) :
    (files dir').map FatFile.m_dir = (files dir).map FatFile.m_dir := by
  have hlength : dir'.length = dir.length := by
    have hmap := congrArg List.length h
    rwa [List.length_map, List.length_map] at hmap
  have hrest : ∀ (fuel : Nat) (e : EntryEnumerator),
      (enumerate dir' fuel e).map FatFile.m_dir = (enumerate dir fuel e).map FatFile.m_dir := by
    intro fuel
    induction fuel with
    | zero => exact fun _ => rfl
    | succ fuel ih =>
      intro e
      rw [enumerate, enumerate]
      rcases parse_heads h e with ⟨e₁, hr', hr⟩ | ⟨file', file, e₁, hr', hr, hsame⟩
      · rw [hr', hr]
      · rw [hr', hr]
        exact congrArg₂ List.cons hsame (ih e₁)
  rw [files, files, hlength]
  exact hrest _ _

@[simp] theorem headOf_stamp (s : Slot) (now : FatTime) : headOf (s.stamp now) = headOf s := rfl

end TinyClr.FatDirectory

namespace TinyClr.FatVolume

open TinyClr.Library TinyClr.FatLogicDisk TinyClr.FatFileHandle
open TinyClr.FatDirectory (Slot Directory FatFile FatTime EntryEnumerator)

variable {g : LogicDisk} {u v v' w : Volume} {D D' : Set Nat} {c s : Nat} {p q : Place}
  {now : FatTime}

/-! ### Setting dates -/

def Redated (now : FatTime) (v w : Volume) : Prop :=
  ∀ s k, w.slot ⟨s, 32 * k⟩ = v.slot ⟨s, 32 * k⟩ ∨
    w.slot ⟨s, 32 * k⟩ = (v.slot ⟨s, 32 * k⟩).stamp now

/-- Nothing but dates of entries has been changed. -/
structure Stamped (g : LogicDisk) (now : FatTime) (v w : Volume) : Prop where
  disk : w.disk = v.disk
  fat : ∀ s < fatEnd g, w.sectors s = v.sectors s
  slots : Redated now v w

theorem Stamped.refl (g : LogicDisk) (now : FatTime) (v : Volume) : Stamped g now v v :=
  ⟨rfl, fun _ _ => rfl, fun _ _ => Or.inl rfl⟩

theorem Redated.trans (h : Redated now u v) (h' : Redated now v w) : Redated now u w := by
  intro s k
  rcases h' s k with heq | heq
  · rw [heq]
    exact h s k
  · rcases h s k with heq' | heq'
    · rw [heq, heq']
      exact Or.inr rfl
    · rw [heq, heq', FatDirectory.stamp_stamp]
      exact Or.inr rfl

theorem redated_setSlot (hp : IsPlace g D p) :
    Redated now w (w.setSlot p ((w.slot p).stamp now)) := by
  intro s k
  obtain ⟨-, -, -, k', -, hdata⟩ := hp
  obtain ⟨s', o⟩ := p
  obtain rfl : o = 32 * k' := hdata
  by_cases hsame : s = s' ∧ k = k'
  · obtain ⟨rfl, rfl⟩ := hsame
    exact Or.inr (slot_setSlot_self _ _ _)
  · exact Or.inl (slot_setSlot_of_ne w _ (by omega))

theorem Stamped.setSlot (hg : Geometry g) (hr : RootGeometry g) (h : Stamped g now v w)
    (hp : IsPlace g D p) : Stamped g now v (w.setSlot p ((w.slot p).stamp now)) where
  disk := h.disk
  fat s hs := by
    obtain ⟨c, -, hsect, -⟩ := hp
    have hle := hsect.fatEnd_le hg hr
    rw [sectors_setSlot_of_ne w _ (by omega), h.fat s hs]
  slots := h.slots.trans (redated_setSlot hp)

theorem Stamped.entry (hg : Geometry g) (hv : Mounted g v) (h : Stamped g now v w) {base : Nat}
    (hlt : base + c / g.entriesPerSector < fatEnd g) : w.entry base c = v.entry base c := by
  refine entry_congr (by rw [h.disk]) (by rw [h.disk]) (h.fat _ ?_)
  rw [hv.entriesPerSector_eq, uint32_nat (hlt.trans hg.fatEnd_lt)]
  exact hlt

theorem Stamped.fat_eq (hg : Geometry g) (hv : Mounted g v) (h : Stamped g now v w) {c : Nat}
    (hc : c < g.totalClusterCount + 2) : w.fat c = v.fat c := by
  rw [Volume.fat, Volume.fat, h.disk]
  exact h.entry hg hv (hv.fatBaseSector₀_eq ▸ (hg.fat₀_lt hc).trans_le fatBaseSector₁_le)

theorem Stamped.mounted (hg : Geometry g) (hv : Mounted g v) (h : Stamped g now v w) :
    Mounted g w := by
  refine ⟨h.disk ▸ hv.onDisk, fun c hc => ?_, fun c hc => ?_⟩
  · have hfat := h.fat_eq hg hv hc
    rw [Volume.fat, Volume.fat, h.disk] at hfat
    rw [h.disk, hfat, h.entry hg hv (hv.fatBaseSector₁_eq ▸ fat₁_lt hc)]
    exact hv.agree c hc
  · rw [h.fat_eq hg hv (hc.trans_le (Nat.le_add_left _ _))]
    exact hv.reserved c hc

theorem Stamped.tidy (hg : Geometry g) (hv : Tidy g D v) (h : Stamped g now v w) : Tidy g D w :=
  hv.congr (h.mounted hg hv.mounted) fun _ hc => h.fat_eq hg hv.mounted hc

theorem Stamped.readFAT (hg : Geometry g) (hv : Mounted g v) (h : Stamped g now v w) (c : Nat) :
    w.readFAT c = v.readFAT c := by
  by_cases hc : c < g.totalClusterCount + 2
  · rw [readFAT_eq hg (h.mounted hg hv) hc, readFAT_eq hg hv hc, h.fat_eq hg hv hc]
  · have hmax : maxCluster v.disk ≤ c := by
      rw [hv.maxCluster_eq hg]
      exact Nat.not_lt.mp hc
    rw [Volume.readFAT, Volume.readFAT, h.disk, if_pos hmax, if_pos hmax]

theorem Stamped.getNextSect (hg : Geometry g) (hv : Mounted g v) (h : Stamped g now v w)
    (c s : Nat) : (w.getNextSect false c s).2 = (v.getNextSect false c s).2 := by
  rw [Volume.getNextSect, Volume.getNextSect, h.disk, h.readFAT hg hv]
  dsimp only
  split
  · split <;> rfl
  · split
    · rfl
    · split
      · rfl
      · split <;> rfl

theorem Stamped.sectorsAfter (hg : Geometry g) (hv : Mounted g v) (h : Stamped g now v w) :
    ∀ fuel c s, w.sectorsAfter fuel c s = v.sectorsAfter fuel c s := by
  intro fuel
  induction fuel with
  | zero => exact fun _ _ => rfl
  | succ fuel ih =>
    intro c s
    rw [Volume.sectorsAfter, Volume.sectorsAfter, h.getNextSect hg hv]
    rcases (v.getNextSect false c s).2 with _ | ⟨c', s'⟩
    · rfl
    · dsimp only
      rw [ih]

theorem Stamped.places (hg : Geometry g) (hv : Mounted g v) (h : Stamped g now v w) (fuel : Nat)
    (start : Place) : w.places fuel start = v.places fuel start := by
  rw [Volume.places, Volume.places, h.sectorsAfter hg hv, h.disk]

theorem Stamped.dirStart (h : Stamped g now v w) (c : Nat) : w.dirStart c = v.dirStart c := by
  rw [Volume.dirStart, Volume.dirStart, h.disk]

theorem Redated.slot (h : Redated now v w) (hp : IsPlace g D p) :
    (w.slot p).DIR_Attr = (v.slot p).DIR_Attr ∧ (w.slot p).getFstClus = (v.slot p).getFstClus ∧
      FatDirectory.headOf (w.slot p) = FatDirectory.headOf (v.slot p) := by
  obtain ⟨-, -, -, k, -, hdata⟩ := hp
  obtain ⟨s, o⟩ := p
  obtain rfl : o = 32 * k := hdata
  rcases h s k with heq | heq
  · rw [heq]
    exact ⟨rfl, rfl, rfl⟩
  · rw [heq]
    exact ⟨rfl, rfl, rfl⟩

/-! ### The directories that `GetFile` comes to -/

theorem searchCurDir_some {fuel fileNameLen : Nat} {fileName : List UInt16}
    (h : v.searchCurDir fuel c fileName fileNameLen = some (some p)) :
    ∃ places, v.places fuel (v.dirStart c) = some places ∧
      ∃ file ∈ FatDirectory.files (places.map v.slot), places[file.m_dir]? = some p := by
  obtain ⟨places, hplaces, h⟩ := Option.bind_eq_some_iff.mp h
  refine ⟨places, hplaces, ?_⟩
  simp only at h
  split at h
  · cases h
  · next file hfile => exact ⟨file, List.mem_of_find?_eq_some hfile, Option.some.inj h⟩

def Leads (g : LogicDisk) (A : Set Nat) (v : Volume) : Prop :=
  ∀ c, home g c ∈ A → ∀ fuel places, v.places fuel (v.dirStart c) = some places →
    ∀ file ∈ FatDirectory.files (places.map v.slot), ∀ p, places[file.m_dir]? = some p →
      IsDir (v.slot p) → home g (v.slot p).getFstClus ∈ A

theorem Stamped.leads (hg : Geometry g) (hr : RootGeometry g) (hv : Tidy g D v) {A : Set Nat}
    (hA : A ⊆ D) (hleads : Leads g A v) (h : Stamped g now v w) : Leads g A w := by
  intro c hc fuel places hplaces file hfile p hp hdir
  have hall : ∀ q ∈ places, IsPlace g D q := (h.tidy hg hv).places hg
    ⟨home g c, hA hc, (h.tidy hg hv).dirStart hg hr (hA hc), 0, by decide, rfl⟩ hplaces
  rw [h.places hg hv.mounted, h.dirStart] at hplaces
  have hheads : (places.map w.slot).map FatDirectory.headOf =
      (places.map v.slot).map FatDirectory.headOf := by
    rw [List.map_map, List.map_map]
    exact List.map_congr_left fun q hq => (h.slots.slot (hall q hq)).2.2
  have hmem := List.mem_map_of_mem (f := FatFile.m_dir) hfile
  rw [FatDirectory.files_heads hheads] at hmem
  obtain ⟨file', hfile', hsame⟩ := List.mem_map.mp hmem
  obtain ⟨hattr, hclus, -⟩ := h.slots.slot (hall p (List.mem_of_getElem? hp))
  rw [IsDir, hattr] at hdir
  rw [hclus]
  exact hleads c hc fuel places hplaces file' hfile' p (hsame.symm ▸ hp) hdir

/-- The loop of `GetFile` with the flags of `FindOpen`: dates are set, or a cluster is taken. -/
theorem Stamped.walk (hg : Geometry g) (hr : RootGeometry g) {A : Set Nat} (hA : A ⊆ D)
    {fuel : Nat} : ∀ {n : Nat} {v v' : Volume} {c : Nat} {dirEntry res : Option Place}
      {path : List UInt16}, Tidy g D v → Leads g A v → home g c ∈ A →
      Volume.walk fuel now GetFile.GET_DIRECTORY_ONLY n v c dirEntry path = some (v', res) →
      Takes g v v' ∨ Redated now v v' := by
  have hrefl : ∀ v, Redated now v v := fun v s k => Or.inl rfl
  intro n
  induction n with
  | zero =>
    intro v v' c dirEntry res path _ _ _ h
    cases path with
    | nil =>
      rw [Volume.walk] at h
      obtain ⟨rfl, -⟩ := Prod.mk.inj (Option.some.inj h)
      exact Or.inr (hrefl _)
    | cons x path =>
      rw [Volume.walk] at h
      cases h
  | succ n ih =>
    intro v v' c dirEntry res path hv hleads hc h
    cases path with
    | nil =>
      rw [Volume.walk] at h
      obtain ⟨rfl, -⟩ := Prod.mk.inj (Option.some.inj h)
      exact Or.inr (hrefl _)
    | cons x path =>
      rw [walk_getDirectoryOnly, findOrCreate_getDirectoryOnly] at h
      obtain ⟨⟨v₁, found⟩, hfound, h⟩ := Option.bind_eq_some_iff.mp h
      obtain ⟨searched, hsearch, hcreate⟩ := Option.bind_eq_some_iff.mp hfound
      rcases searched with _ | p
      · rcases hv.create hg hr (hA hc) hcreate with ⟨rfl, rfl, -⟩ | ⟨htakes, -, hmade⟩
        · obtain ⟨rfl, -⟩ := Prod.mk.inj (Option.some.inj h)
          exact Or.inr (hrefl _)
        · rcases found with _ | p
          · obtain ⟨rfl, -⟩ := Prod.mk.inj (Option.some.inj h)
            exact Or.inl htakes
          · obtain ⟨d, hmade⟩ := hmade p rfl
            obtain ⟨D', hp, hd⟩ := hmade.place
            have hstamped := hmade.fresh.setSlot hg hr hp hd ((v₁.slot p).stamp now)
            obtain ⟨-, hfat⟩ := setSlot_fat hg hr hmade.fresh.tidy.mounted hp
              ((v₁.slot p).stamp now)
            simp only at h
            rw [if_neg (not_not.mpr hmade.dir), hmade.clus] at h
            exact Or.inl ((htakes.trans_keeps (Keeps.of_eq hfat)).trans_keeps
              (hstamped.walk hg hr h))
      · obtain ⟨rfl, rfl⟩ := Prod.mk.inj (Option.some.inj hcreate)
        have hp := hv.searchCurDir hg hr (hA hc) hsearch
        have hstamped := (Stamped.refl g now v).setSlot hg hr hp
        simp only at h
        by_cases hdir : IsDir (v.slot p)
        · rw [if_neg (not_not.mpr hdir)] at h
          obtain ⟨places, hplaces, file, hfile, hplace⟩ := searchCurDir_some hsearch
          have hnext := hleads c hc fuel places hplaces file hfile p hplace hdir
          rcases ih (hstamped.tidy hg hv) (hstamped.leads hg hr hv hA hleads) hnext h with
            ⟨d, hd, hfree, hused⟩ | hrest
          · rw [hstamped.fat_eq hg hv.mounted hd] at hfree
            exact Or.inl ⟨d, hd, hfree, hused⟩
          · exact Or.inr (hstamped.slots.trans hrest)
        · rw [if_pos hdir] at h
          obtain ⟨rfl, -⟩ := Prod.mk.inj (Option.some.inj h)
          exact Or.inr hstamped.slots

end TinyClr.FatVolume
