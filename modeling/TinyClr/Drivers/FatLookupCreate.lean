import TinyClr.Drivers.FatLookupSpec

/-!
# What `Create` does to a volume

A slot of a directory is written, or a free cluster is cleared and linked: either way the directories
of the volume stay in order, and a cluster that is in use stays in use.  Whatever `Create` has done,
the volume is as it was or a cluster that was free is in use.
-/

namespace TinyClr.FatVolume

open TinyClr.Library TinyClr.FatLogicDisk TinyClr.FatFileHandle
open TinyClr.FatDirectory (Slot Directory FatTime)

variable {g : LogicDisk} {v v' v'' : Volume} {D D' : Set Nat} {c s : Nat} {p q : Place}

/-! ### What becomes of the clusters -/

/-- No cluster comes free. -/
def Keeps (g : LogicDisk) (v v' : Volume) : Prop :=
  ∀ c < g.totalClusterCount + 2, v.fat c ≠ CLUST_NONE → v'.fat c ≠ CLUST_NONE

/-- A free cluster comes to be used. -/
def Takes (g : LogicDisk) (v v' : Volume) : Prop :=
  ∃ c < g.totalClusterCount + 2, v.fat c = CLUST_NONE ∧ v'.fat c ≠ CLUST_NONE

theorem Keeps.of_eq (h : ∀ c < g.totalClusterCount + 2, v'.fat c = v.fat c) : Keeps g v v' :=
  fun c hc hne => (h c hc).symm ▸ hne

theorem Keeps.refl (g : LogicDisk) (v : Volume) : Keeps g v v := fun _ _ h => h

theorem Keeps.trans (h : Keeps g v v') (h' : Keeps g v' v'') : Keeps g v v'' :=
  fun c hc hne => h' c hc (h c hc hne)

theorem Takes.trans_keeps (h : Takes g v v') (h' : Keeps g v' v'') : Takes g v v'' := by
  obtain ⟨c, hc, hfree, hused⟩ := h
  exact ⟨c, hc, hfree, h' c hc hused⟩

theorem Keeps.trans_takes (h : Keeps g v v') (h' : Takes g v' v'') : Takes g v v'' := by
  obtain ⟨c, hc, hfree, hused⟩ := h'
  exact ⟨c, hc, by_contra fun hne => h c hc hne hfree, hused⟩

/-! ### Writing a slot -/

theorem sectors_setSlot_self (v : Volume) (p : Place) (slot : Slot) :
    (v.setSlot p slot).sectors p.sectIndex =
      memcpy (v.sectors p.sectIndex) p.dataIndex (List.ofFn slot) := Function.update_self _ _ _

theorem sectors_setSlot_of_ne (v : Volume) (slot : Slot) (h : s ≠ p.sectIndex) :
    (v.setSlot p slot).sectors s = v.sectors s := Function.update_of_ne h _ _

@[simp] theorem slot_setSlot_self (v : Volume) (p : Place) (slot : Slot) :
    (v.setSlot p slot).slot p = slot := by
  funext i
  have hi : i.val < (List.ofFn slot).length := by
    rw [List.length_ofFn]
    exact i.isLt
  rw [Volume.slot, sectors_setSlot_self, memcpy_inside i.val hi, List.getD_eq_getElem?_getD,
    List.getElem?_eq_getElem hi, Option.getD_some, List.getElem_ofFn]

theorem slot_setSlot_of_ne (v : Volume) (slot : Slot) {k k' s' : Nat}
    (hne : s' ≠ s ∨ k' ≠ k) :
    (v.setSlot ⟨s, 32 * k⟩ slot).slot ⟨s', 32 * k'⟩ = v.slot ⟨s', 32 * k'⟩ := by
  funext i
  have hi := i.isLt
  rw [Volume.slot, Volume.slot]
  by_cases hsect : s' = s
  · subst hsect
    have hsectors := sectors_setSlot_self v ⟨s', 32 * k⟩ slot
    simp only at hsectors ⊢
    rw [hsectors]
    refine memcpy_outside ?_
    rw [List.length_ofFn]
    omega
  · exact congrFun (sectors_setSlot_of_ne v slot hsect) _

theorem setSlot_fat (hg : Geometry g) (hr : RootGeometry g) (hv : Mounted g v)
    (hp : IsPlace g D p) (slot : Slot) : Mounted g (v.setSlot p slot) ∧
      ∀ c < g.totalClusterCount + 2, (v.setSlot p slot).fat c = v.fat c := by
  obtain ⟨c, -, hs, -⟩ := hp
  exact fat_setSector hg hv (hs.fatEnd_le hg hr) _

theorem Tidy.congr (hv : Tidy g D v) (hmounted : Mounted g v')
    (hfat : ∀ c < g.totalClusterCount + 2, v'.fat c = v.fat c) : Tidy g D v' where
  mounted := hmounted
  onDisk := hv.onDisk
  link c hc hcluster hdata := by
    rw [Volume.next, hfat c hcluster.2] at hdata ⊢
    exact hv.link c hc hcluster hdata

theorem Tidy.setSlot (hg : Geometry g) (hr : RootGeometry g) (hv : Tidy g D v)
    (hp : IsPlace g D' p) (slot : Slot) : Tidy g D (v.setSlot p slot) := by
  obtain ⟨hmounted, hfat⟩ := setSlot_fat hg hr hv.mounted hp slot
  exact hv.congr hmounted hfat

/-! ### Clearing a free cluster -/

theorem eraseCluster_sectors (hg : Geometry g) (hv : Mounted g v) (hc : IsCluster g c) :
    (v.eraseCluster c).disk = v.disk ∧
      (∀ s, (∀ r < g.sectorsPerCluster, s ≠ sectorOf g c r) →
        (v.eraseCluster c).sectors s = v.sectors s) ∧
      ∀ r < g.sectorsPerCluster, (v.eraseCluster c).sectors (sectorOf g c r) = fun _ => 0 := by
  have hperClus : v.disk.sectorsPerCluster = g.sectorsPerCluster := by
    obtain ⟨_, _, h⟩ := hv.onDisk
    rw [h]
  have hloop : ∀ n ≤ g.sectorsPerCluster,
      let w := (List.range n).foldl (fun w i =>
        w.setSector (uint32 (w.disk.clusToSect c + i : Nat)) fun _ => 0) v
      w.disk = v.disk ∧ (∀ s, (∀ r < n, s ≠ sectorOf g c r) → w.sectors s = v.sectors s) ∧
        ∀ r < n, w.sectors (sectorOf g c r) = fun _ => 0 := by
    intro n
    induction n with
    | zero =>
      intro _
      refine ⟨rfl, fun _ _ => rfl, fun r hr => ?_⟩
      omega
    | succ n ih =>
      intro hn
      obtain ⟨hdisk, hout, hin⟩ := ih (by omega)
      simp only [List.range_succ, List.foldl_append, List.foldl_cons, List.foldl_nil]
      generalize (List.range n).foldl (fun w i =>
        w.setSector (uint32 (w.disk.clusToSect c + i : Nat)) fun _ => 0) v = w at hdisk hout hin
      have hsect : uint32 (w.disk.clusToSect c + n : Nat) = sectorOf g c n := by
        rw [hdisk, clusToSect_eq hg hv hc]
        exact uint32_nat (Nat.lt_of_le_of_lt (sectorOf_le hc (Nat.le_of_lt hn)) hg.sectors_lt)
      rw [hsect]
      refine ⟨hdisk, fun s hs => ?_, fun r hr => ?_⟩
      · rw [Volume.setSector]
        refine (Function.update_of_ne (hs n (Nat.lt_succ_self n)) _ _).trans ?_
        exact hout s fun r hr => hs r (by omega)
      · rw [Volume.setSector]
        rcases Nat.eq_or_lt_of_le (Nat.le_of_lt_succ hr) with rfl | hlt
        · exact Function.update_self _ _ _
        · refine (Function.update_of_ne (fun heq => ?_) _ _).trans (hin r hlt)
          have hsame := (sectorOf_inj hc.1 hc.1 (by omega) (by omega) heq).2
          omega
  rw [Volume.eraseCluster, hperClus]
  -- the number of the sector comes from the disk, which the loop leaves as it is
  exact hloop _ (Nat.le_refl _)

theorem findFreeClus_some (hg : Geometry g) (hv : Mounted g v) (h : v.findFreeClus = some c) :
    c ∈ freeClusters g v := by
  have hfree : c < g.totalClusterCount + 2 ∧ v.fat c = CLUST_NONE := by
    unfold Volume.findFreeClus at h
    rw [hv.maxCluster_eq hg, CLUSTER_START] at h
    dsimp only at h
    generalize hstart : (if g.totalClusterCount + 2 ≤ v.disk.nextFree then 2
      else v.disk.nextFree) = start at h
    rcases hfirst : v.getNextFreeClusHelper start (g.totalClusterCount + 2) with _ | c'
    · rw [hfirst] at h
      dsimp only at h
      split at h
      · cases h
      · obtain ⟨-, hlt, hnone⟩ := getNextFreeClusHelper_some h
        refine ⟨?_, hnone⟩
        rw [← hstart] at hlt
        split at hlt <;> omega
    · rw [hfirst] at h
      obtain rfl := Option.some.inj h
      obtain ⟨-, hlt, hnone⟩ := getNextFreeClusHelper_some hfirst
      exact ⟨hlt, hnone⟩
  exact mem_freeClusters.mpr
    ⟨⟨Nat.not_lt.mp fun hlow => hv.reserved c hlow hfree.2, hfree.1⟩, hfree.2⟩

/-- What `GetNextFreeClus( TRUE )` does: nothing, or it finds a free cluster and clears it. -/
structure Cleared (g : LogicDisk) (D : Set Nat) (v v' : Volume) (c : Nat) : Prop where
  free : c ∈ freeClusters g v
  tidy : Tidy g D v'
  fat : ∀ c < g.totalClusterCount + 2, v'.fat c = v.fat c
  clear : ∀ s, HasSector g c s → v'.sectors s = fun _ => 0

theorem Tidy.getNextFreeClusCleared (hg : Geometry g) (hv : Tidy g D v) :
    (v.getNextFreeClusCleared = (v, none) ∧ v.findFreeClus = none) ∨
      ∃ v' c, v.getNextFreeClusCleared = (v', some c) ∧ Cleared g D v v' c := by
  rcases hfind : v.findFreeClus with _ | c
  · refine Or.inl ⟨?_, rfl⟩
    rw [Volume.getNextFreeClusCleared, Volume.getNextFreeClus, hfind]
  · have hmem := findFreeClus_some hg hv.mounted hfind
    obtain ⟨v₁, c', hfound, -, hv₁, hfat₁, -⟩ := getNextFreeClus_spec hg hv.mounted ⟨c, hmem⟩
    have hsame : c' = c := by
      rw [Volume.getNextFreeClus, hfind] at hfound
      exact (Option.some.inj (Prod.mk.inj hfound).2).symm
    subst hsame
    obtain ⟨hcluster, -⟩ := mem_freeClusters.mp hmem
    obtain ⟨hdisk, hout, hin⟩ := eraseCluster_sectors hg hv₁ hcluster
    have hpast : ∀ s, s < fatEnd g → ∀ r < g.sectorsPerCluster, s ≠ sectorOf g c' r := by
      intro s hs r _ heq
      have hle := fatEnd_le_sectorOf hg c' r
      omega
    have hentry : ∀ base c, base + c / g.entriesPerSector < fatEnd g →
        (v₁.eraseCluster c').entry base c = v₁.entry base c := fun base c hlt => by
      refine entry_congr (by rw [hdisk]) (by rw [hdisk]) (hout _ (hpast _ ?_))
      rw [hv₁.entriesPerSector_eq, uint32_nat (hlt.trans hg.fatEnd_lt)]
      exact hlt
    have hfat₂ : ∀ c < g.totalClusterCount + 2, (v₁.eraseCluster c').fat c = v₁.fat c := by
      intro c hc
      rw [Volume.fat, Volume.fat, hdisk]
      exact hentry _ c (hv₁.fatBaseSector₀_eq ▸ (hg.fat₀_lt hc).trans_le fatBaseSector₁_le)
    have hmounted : Mounted g (v₁.eraseCluster c') := by
      refine ⟨hdisk ▸ hv₁.onDisk, fun c hc => ?_, fun c hc => ?_⟩
      · rw [hdisk, hentry _ c (hv₁.fatBaseSector₁_eq ▸ fat₁_lt hc), hv₁.agree c hc]
        rw [← Volume.fat, ← hfat₂ c hc, Volume.fat, hdisk]
      · rw [hfat₂ c (hc.trans_le (Nat.le_add_left _ _))]
        exact hv₁.reserved c hc
    have hfat : ∀ c < g.totalClusterCount + 2, (v₁.eraseCluster c').fat c = v.fat c := fun c hc =>
      (hfat₂ c hc).trans (hfat₁ c hc)
    refine Or.inr ⟨v₁.eraseCluster c', c', ?_, hmem, hv.congr hmounted hfat, hfat, fun s hs => ?_⟩
    · rw [Volume.getNextFreeClusCleared, hfound]
    · rcases hs with ⟨hzero, -⟩ | ⟨-, r, hr, rfl⟩
      · have hlow := hcluster.1
        omega
      · exact hin r hr

theorem Tidy.free_notMem (hv : Tidy g D v) (hc : c ∈ freeClusters g v) : c ∉ D := by
  intro hmem
  obtain ⟨hcluster, hfree⟩ := mem_freeClusters.mp hc
  have hnext : v.next g c = CLUST_NONE := by
    rw [Volume.next, hfree, linkOf_none]
  obtain ⟨hlink, -⟩ := hv.link c hmem hcluster (hnext ▸ getClusType_none _)
  rw [hnext] at hlink
  exact absurd hlink.1 (by decide)

/-! ### A cluster more -/

/-- What becomes of a volume: nothing, or a free cluster is in use -/
structure Grown (g : LogicDisk) (D' : Set Nat) (v v' : Volume) : Prop where
  tidy : Tidy g D' v'
  keeps : Keeps g v v'
  takes : Takes g v v'

theorem fat_ne_of_link (h : linkOf g.isFAT16 (v.fat c) ≠ CLUST_NONE) : v.fat c ≠ CLUST_NONE := by
  intro hnone
  rw [hnone, linkOf_none] at h
  exact h rfl

theorem endMark_eof_ne (isFAT16 : Bool) : endMark isFAT16 CLUST_EOF ≠ CLUST_NONE := by
  cases isFAT16 <;> decide

theorem Cleared.single (hg : Geometry g) (h : Cleared g D v v' c) :
    Grown g D v (v'.writeFAT c CLUST_EOF).1 ∧ Tidy g {c} (v'.writeFAT c CLUST_EOF).1 ∧
      ∀ s, fatEnd g ≤ s → (v'.writeFAT c CLUST_EOF).1.sectors s = v'.sectors s := by
  obtain ⟨hcluster, hfree⟩ := mem_freeClusters.mp h.free
  have hnotMem : c ∉ D := h.tidy.free_notMem (mem_freeClusters.mpr
    ⟨hcluster, (h.fat c hcluster.2).trans hfree⟩)
  obtain ⟨hended, -⟩ := writeFAT_spec hg h.tidy.mounted hcluster (endMark_eof_lt g.isFAT16)
  generalize (v'.writeFAT c CLUST_EOF).1 = w at hended ⊢
  have hused : w.fat c ≠ CLUST_NONE := fat_ne_of_link (hended.link ▸ endMark_eof_ne g.isFAT16)
  refine ⟨⟨⟨hended.mounted, h.tidy.onDisk, fun d hd hd' hdata => ?_⟩, fun d hd hne => ?_,
    c, hcluster.2, hfree, hused⟩, ⟨hended.mounted, fun d hd => ?_, fun d hd _ hdata => ?_⟩,
    hended.frame⟩
  · have hdc : d ≠ c := fun heq => hnotMem (heq ▸ hd)
    rw [Volume.next, hended.others d hd'.2 hdc] at hdata ⊢
    exact h.tidy.link d hd hd' hdata
  · by_cases hdc : d = c
    · exact hdc ▸ hused
    · rw [hended.others d hd hdc, h.fat d hd]
      exact hne
  · rw [Set.mem_singleton_iff.mp hd]
    exact Or.inr hcluster
  · rw [Set.mem_singleton_iff.mp hd, Volume.next, hended.link, getClusType_endMark] at hdata
    cases hdata

theorem Cleared.linked (hg : Geometry g) (h : Cleared g D v v' c) {o : Nat}
    (ho : IsCluster g o) (hlast : getClusType g.isFAT16 (v.next g o) ≠ .data) :
    Grown g (Set.insert c D) v ((v'.writeFAT o c).1.writeFAT c CLUST_EOF).1 := by
  obtain ⟨hcluster, hfree⟩ := mem_freeClusters.mp h.free
  have hmark := endMark_cluster hg hcluster
  obtain ⟨hlinked, -⟩ := writeFAT_spec hg h.tidy.mounted ho
    (hmark.symm ▸ hcluster.2.trans hg.clusters_lt)
  rw [hmark] at hlinked
  obtain ⟨hended, -⟩ := writeFAT_spec hg hlinked.mounted hcluster (endMark_eof_lt g.isFAT16)
  have hoc : o ≠ c := by
    rintro rfl
    rw [Volume.next, hfree, linkOf_none] at hlast
    exact hlast (getClusType_none _)
  have hold : linkOf g.isFAT16 (((v'.writeFAT o c).1.writeFAT c CLUST_EOF).1.fat o) = c := by
    rw [hended.others o ho.2 hoc]
    exact hlinked.link
  have hother : ∀ d < g.totalClusterCount + 2, d ≠ c → d ≠ o →
      ((v'.writeFAT o c).1.writeFAT c CLUST_EOF).1.fat d = v'.fat d := fun d hd hdc hdo => by
    rw [hended.others d hd hdc, hlinked.others d hd hdo]
  have hlast' := hended.link
  have hmounted := hended.mounted
  generalize ((v'.writeFAT o c).1.writeFAT c CLUST_EOF).1 = w at hold hother hlast' hmounted ⊢
  have hused : w.fat c ≠ CLUST_NONE := fat_ne_of_link (hlast' ▸ endMark_eof_ne g.isFAT16)
  have hnonzero : c ≠ CLUST_NONE := by
    have hlow := hcluster.1
    rw [CLUST_NONE]
    omega
  refine ⟨⟨hmounted, fun d hd => ?_, fun d hd hd' hdata => ?_⟩, fun d hd hne => ?_,
    c, hcluster.2, hfree, hused⟩
  · rcases hd with rfl | hd
    · exact Or.inr hcluster
    · exact h.tidy.onDisk d hd
  · by_cases hdc : d = c
    · rw [Volume.next, hdc, hlast', getClusType_endMark] at hdata
      cases hdata
    · by_cases hdo : d = o
      · rw [Volume.next, hdo, hold]
        exact ⟨hcluster, Or.inl rfl⟩
      · rw [Volume.next, hother d hd'.2 hdc hdo] at hdata ⊢
        rcases hd with heq | hd
        · exact absurd heq hdc
        · obtain ⟨hnext, hmem⟩ := h.tidy.link d hd hd' hdata
          exact ⟨hnext, Or.inr hmem⟩
  · by_cases hdc : d = c
    · exact hdc ▸ hused
    · by_cases hdo : d = o
      · exact hdo ▸ fat_ne_of_link (hold.symm ▸ hnonzero)
      · rw [hother d hd hdc hdo, h.fat d hd]
        exact hne

/-! ### `GetNextFreeEntry` -/

theorem getNextSectCleared_some {x : Nat × Nat} (h : (v.getNextSect false c s).2 = some x) :
    v.getNextSectCleared c s = (v, some x) := by
  rw [Volume.getNextSect] at h
  rw [Volume.getNextSectCleared]
  dsimp only at h ⊢
  by_cases hroot : c < CLUSTER_START
  · rw [if_pos hroot] at h ⊢
    by_cases hmore : uint32 (s + 1 : Nat) < v.disk.firstDataSector
    · rw [if_pos hmore] at h ⊢
      exact congrArg _ h
    · rw [if_neg hmore] at h
      cases h
  rw [if_neg hroot] at h ⊢
  by_cases hsame : v.disk.sectToClus (uint32 (s + 1 : Nat)) = c
  · rw [if_pos hsame] at h ⊢
    exact congrArg _ h
  rw [if_neg hsame] at h ⊢
  by_cases hdata : getClusType v.disk.isFAT16 (v.readFAT c) = .data
  · rw [if_neg (not_not.mpr hdata)] at h ⊢
    by_cases hlow : v.readFAT c < CLUSTER_START
    · rw [if_pos hlow] at h
      cases h
    · rw [if_neg hlow] at h ⊢
      exact congrArg _ h
  · rw [if_pos hdata, if_neg (by decide)] at h
    cases h

theorem getNextSectCleared_root (h : (v.getNextSect false 0 s).2 = none) :
    v.getNextSectCleared 0 s = (v, none) := by
  have hroot : (0 : Nat) < CLUSTER_START := by decide
  rw [Volume.getNextSect] at h
  rw [Volume.getNextSectCleared]
  dsimp only at h ⊢
  rw [if_pos hroot] at h ⊢
  by_cases hmore : uint32 (s + 1 : Nat) < v.disk.firstDataSector
  · rw [if_pos hmore] at h
    cases h
  · exact if_neg hmore

theorem Tidy.getNextSectCleared_end (hg : Geometry g) (hv : Tidy g D v) (hc : c ∈ D)
    (hcluster : IsCluster g c) (h : (v.getNextSect false c s).2 = none) :
    getClusType g.isFAT16 (v.next g c) ≠ .data ∧ v.getNextSectCleared c s =
      match v.getNextFreeClusCleared with
      | (v, none) => (v, none)
      | (v, some clus) =>
          let v := (v.writeFAT c clus).1
          let v := (v.writeFAT clus CLUST_EOF).1
          if clus < CLUSTER_START then (v, none)
          else (v, some (clus, v.disk.clusToSect clus)) := by
  have hread : v.readFAT c = v.next g c := readFAT_eq hg hv.mounted hcluster.2
  have hlow : ¬ c < CLUSTER_START := Nat.not_lt.mpr hcluster.1
  rw [Volume.getNextSect] at h
  rw [Volume.getNextSectCleared]
  simp only [hread, hv.mounted.isFAT16_eq, if_neg hlow] at h ⊢
  by_cases hsame : v.disk.sectToClus (uint32 (s + 1 : Nat)) = c
  · rw [if_pos hsame] at h
    cases h
  · rw [if_neg hsame] at h ⊢
    by_cases hdata : getClusType g.isFAT16 (v.next g c) = .data
    · obtain ⟨hnext, -⟩ := hv.link c hc hcluster hdata
      rw [if_neg (not_not.mpr hdata), if_neg (show ¬ v.next g c < CLUSTER_START from
        Nat.not_lt.mpr hnext.1)] at h
      cases h
    · exact ⟨hdata, if_pos hdata⟩

theorem Tidy.getNextSectCleared (hg : Geometry g) (hv : Tidy g D v)
    (hc : c ∈ D) (hs : HasSector g c s) :
    (∃ c' s', v.getNextSect false c s = (v, some (c', s')) ∧
        v.getNextSectCleared c s = (v, some (c', s')) ∧ c' ∈ D ∧ HasSector g c' s') ∨
      (v.getNextSect false c s = (v, none) ∧
        ((v.getNextSectCleared c s = (v, none) ∧ (c = 0 ∨ v.findFreeClus = none)) ∨
          ∃ v' c' s', v.getNextSectCleared c s = (v', some (c', s')) ∧ HasSector g c' s' ∧
            Grown g (Set.insert c' D) v v')) := by
  rcases hv.getNextSect hg hc hs with hnone | ⟨c', s', hsome, hc', hs'⟩
  · refine Or.inr ⟨hnone, ?_⟩
    rcases hs.onDisk with ⟨rfl, -⟩ | hcluster
    · exact Or.inl ⟨getNextSectCleared_root (by rw [hnone]), Or.inl rfl⟩
    · obtain ⟨hlast, hrun⟩ := hv.getNextSectCleared_end hg hc hcluster (by rw [hnone])
      rcases hv.getNextFreeClusCleared hg with ⟨hclear, hfind⟩ | ⟨v₁, c', hclear, hcleared⟩
      · rw [hclear] at hrun
        exact Or.inl ⟨hrun, Or.inr hfind⟩
      · have hgrown := hcleared.linked hg hcluster hlast
        obtain ⟨hcluster', -⟩ := mem_freeClusters.mp hcleared.free
        rw [hclear] at hrun
        simp only at hrun
        rw [if_neg (show ¬ c' < CLUSTER_START from Nat.not_lt.mpr hcluster'.1),
          clusToSect_eq hg hgrown.tidy.mounted hcluster'] at hrun
        exact Or.inr ⟨_, c', _, hrun, Or.inr ⟨hcluster', 0, hg.perClus_pos, rfl⟩, hgrown⟩
  · exact Or.inl ⟨c', s', hsome, getNextSectCleared_some (by rw [hsome]), hc', hs'⟩

theorem Grown.trans (h : Grown g D v v') (h' : Grown g D' v' v'') : Grown g D' v v'' :=
  ⟨h'.tidy, h.keeps.trans h'.keeps, h.takes.trans_keeps h'.keeps⟩

theorem scanSlots_append (count : Nat) (places places' : List Place) : ∀ (num : Nat) (start : Place),
    v.scanSlots count (places ++ places') num start =
      match v.scanSlots count places num start with
      | .inl start => .inl start
      | .inr (num, start) => v.scanSlots count places' num start := by
  induction places with
  | nil => exact fun _ _ => rfl
  | cons p places ih =>
    intro num start
    rw [List.cons_append, Volume.scanSlots, Volume.scanSlots]
    by_cases hfree : isFree (v.slot p) = true
    · rw [if_pos hfree, if_pos hfree]
      by_cases hcount : num + 1 ≥ count
      · simp only [if_pos hcount]
      · simp only [if_neg hcount]
        exact ih _ _
    · rw [if_neg hfree, if_neg hfree]
      exact ih _ _

theorem scanSlots_place (count : Nat) : ∀ {places : List Place} {num : Nat} {start : Place},
    match v.scanSlots count places num start with
    | .inl p => p = start ∨ p ∈ places
    | .inr (_, p) => p = start ∨ p ∈ places := by
  intro places
  induction places with
  | nil => exact fun {_ _} => Or.inl rfl
  | cons q places ih =>
    intro num start
    have hrest : ∀ {num : Nat} {start' : Place}, start' = start ∨ start' = q →
        match v.scanSlots count places num start' with
        | .inl p => p = start ∨ p ∈ q :: places
        | .inr (_, p) => p = start ∨ p ∈ q :: places := by
      intro num start' hstart
      have hp : ∀ p, p = start' ∨ p ∈ places → p = start ∨ p ∈ q :: places := by
        rintro p (rfl | hmem)
        · rcases hstart with rfl | rfl
          · exact Or.inl rfl
          · exact Or.inr List.mem_cons_self
        · exact Or.inr (List.mem_cons_of_mem _ hmem)
      have hplace := @ih num start'
      split at hplace
      · exact hp _ hplace
      · exact hp _ hplace
    rw [Volume.scanSlots]
    have hstart : (if num = 0 then q else start) = start ∨ (if num = 0 then q else start) = q := by
      split
      · exact Or.inr rfl
      · exact Or.inl rfl
    by_cases hfree : isFree (v.slot q) = true
    · rw [if_pos hfree]
      by_cases hcount : num + 1 ≥ count
      · simp only [if_pos hcount]
        exact hstart.imp_right fun heq => List.mem_cons.mpr (Or.inl heq)
      · simp only [if_neg hcount]
        exact hrest hstart
    · rw [if_neg hfree]
      exact hrest (Or.inl rfl)

theorem Tidy.scanSectors_still (hg : Geometry g) (hv : Tidy g D v)
    (count : Nat) : ∀ {fuel c s num : Nat} {start : Place} {sectors : List Nat}, c ∈ D →
      HasSector g c s → c = 0 ∨ v.findFreeClus = none → v.sectorsAfter fuel c s = some sectors →
      Volume.scanSectors count fuel v c s num start =
        some (v, (v.scanSlots count (placesOf 512 s 0 ++
          sectors.flatMap fun s => placesOf 512 s 0) num start).getLeft?) := by
  intro fuel
  induction fuel with
  | zero =>
    intro c s num start sectors _ _ _ h
    cases h
  | succ fuel ih =>
    intro c s num start sectors hc hs hstill h
    rw [Volume.sectorsAfter] at h
    rw [Volume.scanSectors, hv.mounted.bytesPerSector_eq hg, scanSlots_append]
    rcases hscan : v.scanSlots count (placesOf 512 s 0) num start with p | ⟨num', start'⟩
    · rfl
    · dsimp only
      rcases hv.getNextSectCleared hg hc hs with
        ⟨c', s', hplain, hrun, hc', hs'⟩ | ⟨hplain, ⟨hrun, -⟩ | ⟨v', c', s', hrun, -, hgrown⟩⟩
      · rw [hplain] at h
        obtain ⟨rest, hrest, rfl⟩ := Option.map_eq_some_iff.mp h
        rw [hrun]
        dsimp only
        have hstill' : c' = 0 ∨ v.findFreeClus = none := by
          refine hstill.imp_left fun hzero => ?_
          rcases hs with ⟨-, -, -, hlt⟩ | ⟨hcluster, -⟩
          · rw [← hs'.sectToClus_eq hg hv.mounted]
            have hroot : v.getNextSect false 0 s = (v, some (c', s')) := hzero ▸ hplain
            rw [Volume.getNextSect] at hroot
            dsimp only at hroot
            rw [if_pos (show (0 : Nat) < CLUSTER_START by decide)] at hroot
            split at hroot
            · next hmore =>
              obtain ⟨-, rfl⟩ := Prod.mk.inj (Option.some.inj (Prod.mk.inj hroot).2)
              exact if_pos (hv.mounted.firstDataSector_eq ▸ hmore)
            · cases (Prod.mk.inj hroot).2
          · have hlow := hcluster.1
            omega
        rw [ih hc' hs' hstill' hrest, List.flatMap_cons]
      · rw [hplain] at h
        obtain rfl : [] = sectors := Option.some.inj h
        rw [hrun]
        rfl
      · exfalso
        obtain ⟨d, hd, hfree, -⟩ := hgrown.takes
        rcases hstill with rfl | hnone
        · rw [getNextSectCleared_root (by rw [hplain])] at hrun
          cases (Prod.mk.inj hrun).2
        · have hmem : d ∈ freeClusters g v := mem_freeClusters.mpr
            ⟨⟨Nat.not_lt.mp fun hlow => hv.mounted.reserved d hlow hfree, hd⟩, hfree⟩
          obtain ⟨e, hfind, -⟩ := findFreeClus_spec hg hv.mounted ⟨d, hmem⟩
          rw [hnone] at hfind
          cases hfind

/-- What `GetNextFreeEntry` has done, when it comes back -/
theorem scanSectors_spec (hg : Geometry g) (count : Nat) :
    ∀ {fuel : Nat} {D : Set Nat} {v v' : Volume} {c s num : Nat} {start : Place}
      {res : Option Place}, Tidy g D v → c ∈ D → HasSector g c s → IsPlace g D start →
      Volume.scanSectors count fuel v c s num start = some (v', res) →
      (v' = v ∧ (∀ p, res = some p → IsPlace g D p) ∧
        (res = none → g.isFAT16 = true ∨ v.findFreeClus = none)) ∨
      ∃ D', D ⊆ D' ∧ Grown g D' v v' ∧ ∀ p, res = some p → IsPlace g D' p := by
  intro fuel
  induction fuel with
  | zero =>
    intro D v v' c s num start res _ _ _ _ h
    cases h
  | succ fuel ih =>
    intro D v v' c s num start res hv hc hs hstart h
    rw [Volume.scanSectors, hv.mounted.bytesPerSector_eq hg] at h
    have hplace : ∀ q, q = start ∨ q ∈ placesOf 512 s 0 → IsPlace g D q := by
      rintro q (rfl | hmem)
      · exact hstart
      · obtain ⟨hsect, hdata⟩ := mem_placesOf (k := 0) rfl hmem
        exact ⟨c, hc, hsect ▸ hs, hdata⟩
    have hscanned := @scanSlots_place v count (placesOf 512 s 0) num start
    rcases hscan : v.scanSlots count (placesOf 512 s 0) num start with p | ⟨num', start'⟩
    · rw [hscan] at h hscanned
      obtain ⟨rfl, rfl⟩ := Prod.mk.inj (Option.some.inj h)
      refine Or.inl ⟨rfl, fun q hq => ?_, nofun⟩
      obtain rfl := Option.some.inj hq
      exact hplace _ hscanned
    · rw [hscan] at h hscanned
      dsimp only at h
      have hstart' : IsPlace g D start' := hplace _ hscanned
      rcases hv.getNextSectCleared hg hc hs with
        ⟨c', s', -, hrun, hc', hs'⟩ | ⟨-, ⟨hrun, hend⟩ | ⟨v₁, c', s', hrun, hs', hgrown⟩⟩
      · rw [hrun] at h
        exact ih hv hc' hs' hstart' h
      · rw [hrun] at h
        obtain ⟨rfl, rfl⟩ := Prod.mk.inj (Option.some.inj h)
        refine Or.inl ⟨rfl, nofun, fun _ => hend.imp_left fun hzero => ?_⟩
        rcases hs.onDisk with ⟨-, hfat16⟩ | hcluster
        · exact hfat16
        · have hlow := hcluster.1
          omega
      · rw [hrun] at h
        have hsub : D ⊆ Set.insert c' D := fun d hd => Or.inr hd
        rcases ih hgrown.tidy (Or.inl rfl) hs' (hstart'.mono hsub) h with
          ⟨rfl, hres, -⟩ | ⟨D', hD', hgrown', hres⟩
        · exact Or.inr ⟨_, hsub, hgrown, hres⟩
        · exact Or.inr ⟨D', hsub.trans hD', hgrown.trans hgrown', hres⟩

end TinyClr.FatVolume
