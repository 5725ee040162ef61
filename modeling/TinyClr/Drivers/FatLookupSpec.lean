import Mathlib.Data.Set.Insert
import TinyClr.Drivers.FatLookup
import TinyClr.Drivers.FileChain

/-!
# The directories of a volume

The clusters of a directory are closed under what the table leads to.  On a volume where they are
clusters of the disk, an enumerator stays inside of them.
-/

namespace TinyClr.FatVolume

open TinyClr.Library TinyClr.FatLogicDisk TinyClr.FatFileHandle
open TinyClr.FatDirectory (Slot Directory FatTime)

/-! ### Clusters of directories -/

/-- The root directory lies in front of the clusters on a FAT16 volume, and in a cluster on a FAT32
    volume. -/
structure RootGeometry (g : LogicDisk) : Prop where
  fat16 : g.isFAT16 = true → fatEnd g ≤ g.rootSectorStart ∧ g.rootSectorStart < g.firstDataSector
  fat32 : g.isFAT16 = false → ∃ c, IsCluster g c ∧ g.rootSectorStart = sectorOf g c 0

/-- The cluster of the root directory, 0 on a FAT16 volume -/
def rootClus (g : LogicDisk) : Nat := g.sectToClus g.rootSectorStart

/-- Where `ClusToSect` leads: a number that is no cluster is the root directory. -/
def home (g : LogicDisk) (c : Nat) : Nat := if c < 2 then rootClus g else c

/-- A cluster that a directory may have, or 0 for a root directory in front of the clusters -/
def OnDisk (g : LogicDisk) (c : Nat) : Prop := (c = 0 ∧ g.isFAT16 = true) ∨ IsCluster g c

def HasSector (g : LogicDisk) (c s : Nat) : Prop :=
  (c = 0 ∧ g.isFAT16 = true ∧ g.rootSectorStart ≤ s ∧ s < g.firstDataSector) ∨
    (IsCluster g c ∧ ∃ r < g.sectorsPerCluster, s = sectorOf g c r)

/-- What an entry says about its cluster -/
def Volume.next (v : Volume) (g : LogicDisk) (c : Nat) : Nat := linkOf g.isFAT16 (v.fat c)

def IsDir (slot : Slot) : Prop :=
  slot.DIR_Attr &&& FatDirectory.ATTR_DIRECTORY = FatDirectory.ATTR_DIRECTORY

instance (slot : Slot) : Decidable (IsDir slot) := inferInstanceAs (Decidable (_ = _))

structure Tidy (g : LogicDisk) (D : Set Nat) (v : Volume) : Prop where
  mounted : Mounted g v
  onDisk : ∀ c ∈ D, OnDisk g c
  link : ∀ c ∈ D, IsCluster g c → getClusType g.isFAT16 (v.next g c) = .data →
    IsCluster g (v.next g c) ∧ v.next g c ∈ D

def IsPlace (g : LogicDisk) (D : Set Nat) (p : Place) : Prop :=
  ∃ c ∈ D, HasSector g c p.sectIndex ∧ ∃ k < 16, p.dataIndex = 32 * k

variable {g : LogicDisk} {v v' : Volume} {D D' : Set Nat} {c s : Nat} {p : Place}

theorem Mounted.clusToSect_eq (hv : Mounted g v) (c : Nat) :
    v.disk.clusToSect c = g.clusToSect c := by
  obtain ⟨_, _, h⟩ := hv.onDisk
  rw [h]
  rfl

theorem Mounted.sectToClus_eq (hv : Mounted g v) (s : Nat) :
    v.disk.sectToClus s = g.sectToClus s := by
  obtain ⟨_, _, h⟩ := hv.onDisk
  rw [h]
  rfl

theorem Mounted.firstDataSector_eq (hv : Mounted g v) :
    v.disk.firstDataSector = g.firstDataSector := by
  obtain ⟨_, _, h⟩ := hv.onDisk
  rw [h]

theorem Mounted.bytesPerSector_eq (hv : Mounted g v) (hg : Geometry g) :
    v.disk.bytesPerSector = 512 := by
  obtain ⟨_, _, h⟩ := hv.onDisk
  rw [h]
  exact hg.bytesPerSector

theorem IsPlace.mono (hD : D ⊆ D') (h : IsPlace g D p) : IsPlace g D' p := by
  obtain ⟨c, hc, hp⟩ := h
  exact ⟨c, hD hc, hp⟩

theorem HasSector.onDisk (h : HasSector g c s) : OnDisk g c := by
  rcases h with ⟨hzero, hfat16, -⟩ | ⟨hcluster, -⟩
  · exact Or.inl ⟨hzero, hfat16⟩
  · exact Or.inr hcluster

theorem HasSector.fatEnd_le (hg : Geometry g) (hr : RootGeometry g) (h : HasSector g c s) :
    fatEnd g ≤ s := by
  rcases h with ⟨-, hfat16, hlow, -⟩ | ⟨-, r, -, rfl⟩
  · exact Nat.le_trans (hr.fat16 hfat16).1 hlow
  · exact fatEnd_le_sectorOf hg c r

theorem sectToClus_cluster (hg : Geometry g) (hv : Mounted g v) (hc : IsCluster g c) {r : Nat}
    (hlt : r < g.sectorsPerCluster) : g.sectToClus (sectorOf g c r) = c := by
  rw [← hv.sectToClus_eq, sectToClus_eq hg hv hc (Nat.le_of_lt hlt), if_neg (Nat.ne_of_lt hlt)]

theorem HasSector.sectToClus_eq (hg : Geometry g) (hv : Mounted g v) (h : HasSector g c s) :
    g.sectToClus s = c := by
  rcases h with ⟨rfl, -, -, hlt⟩ | ⟨hcluster, r, hlt, rfl⟩
  · exact if_pos hlt
  · exact sectToClus_cluster hg hv hcluster hlt

theorem rootClus_hasSector (hg : Geometry g) (hr : RootGeometry g) (hv : Mounted g v) :
    HasSector g (rootClus g) g.rootSectorStart := by
  cases hfat16 : g.isFAT16 with
  | true =>
    obtain ⟨-, hlt⟩ := hr.fat16 hfat16
    exact Or.inl ⟨if_pos hlt, hfat16, Nat.le_refl _, hlt⟩
  | false =>
    obtain ⟨c, hc, hroot⟩ := hr.fat32 hfat16
    have hclus : rootClus g = c := by
      rw [rootClus, hroot]
      exact sectToClus_cluster hg hv hc hg.perClus_pos
    exact Or.inr ⟨hclus ▸ hc, 0, hg.perClus_pos, hclus ▸ hroot⟩

theorem home_rootClus (hg : Geometry g) (hr : RootGeometry g) (hv : Mounted g v) :
    home g (rootClus g) = rootClus g := by
  rcases rootClus_hasSector hg hr hv with ⟨hzero, -⟩ | ⟨hcluster, -⟩
  · exact if_pos (by omega)
  · exact if_neg (Nat.not_lt.mpr hcluster.1)

theorem home_cluster (hc : IsCluster g c) : home g c = c := if_neg (Nat.not_lt.mpr hc.1)

theorem Tidy.dirStart (hg : Geometry g) (hr : RootGeometry g) (hv : Tidy g D v)
    (hc : home g c ∈ D) : HasSector g (home g c) (v.disk.clusToSect c) := by
  rw [hv.mounted.clusToSect_eq]
  by_cases hlow : c < 2
  · rw [home, if_pos hlow, LogicDisk.clusToSect, CLUSTER_START, if_pos hlow]
    exact rootClus_hasSector hg hr hv.mounted
  · rw [home, if_neg hlow] at hc ⊢
    rcases hv.onDisk c hc with ⟨hzero, -⟩ | hcluster
    · omega
    · rw [← hv.mounted.clusToSect_eq, clusToSect_eq hg hv.mounted hcluster]
      exact Or.inr ⟨hcluster, 0, hg.perClus_pos, rfl⟩

/-! ### Enumerators -/

theorem Tidy.getNextSect (hg : Geometry g) (hv : Tidy g D v) (hc : c ∈ D)
    (hs : HasSector g c s) : v.getNextSect false c s = (v, none) ∨
      ∃ c' s', v.getNextSect false c s = (v, some (c', s')) ∧ c' ∈ D ∧ HasSector g c' s' := by
  rcases id hs with ⟨rfl, hfat16, hlow, hlt⟩ | ⟨hcluster, r, hlt, rfl⟩
  · have hsect : uint32 (s + 1 : Nat) = s + 1 := by
      have hfirst := hg.firstDataSector_lt
      exact uint32_nat (by omega)
    rw [Volume.getNextSect, hsect, CLUSTER_START, if_pos (by decide), hv.mounted.firstDataSector_eq]
    by_cases hmore : s + 1 < g.firstDataSector
    · refine Or.inr ⟨0, s + 1, ?_, hc, Or.inl ⟨rfl, hfat16, by omega, hmore⟩⟩
      rw [if_pos hmore, hv.mounted.sectToClus_eq, LogicDisk.sectToClus, if_pos hmore]
      rfl
    · rw [if_neg hmore]
      exact Or.inl rfl
  · by_cases hmore : r + 1 < g.sectorsPerCluster
    · exact Or.inr ⟨c, _, getNextSect_same hg hv.mounted hcluster hmore false, hc,
        Or.inr ⟨hcluster, r + 1, hmore, rfl⟩⟩
    · by_cases hdata : getClusType g.isFAT16 (v.next g c) = .data
      · obtain ⟨hnext, hmem⟩ := hv.link c hc hcluster hdata
        exact Or.inr ⟨_, _, getNextSect_linked hg hv.mounted hcluster (by omega) rfl hnext false, hmem,
          Or.inr ⟨hnext, 0, hg.perClus_pos, rfl⟩⟩
      · refine Or.inl ((getNextSect_end hg hv.mounted hcluster (by omega) false).trans ?_)
        exact (if_pos hdata).trans (if_neg (by decide))

theorem Tidy.sectorsAfter (hg : Geometry g) (hv : Tidy g D v) :
    ∀ {fuel c s : Nat} {sectors : List Nat}, c ∈ D → HasSector g c s →
      v.sectorsAfter fuel c s = some sectors → ∀ s' ∈ sectors, ∃ c' ∈ D, HasSector g c' s' := by
  intro fuel
  induction fuel with
  | zero =>
    intro c s sectors _ _ h
    cases h
  | succ fuel ih =>
    intro c s sectors hc hs h s' hs'
    rw [Volume.sectorsAfter] at h
    rcases hv.getNextSect hg hc hs with hnone | ⟨c₁, s₁, hsome, hc₁, hs₁⟩
    · rw [hnone] at h
      obtain rfl : [] = sectors := Option.some.inj h
      cases hs'
    · rw [hsome] at h
      obtain ⟨rest, hrest, rfl⟩ := Option.map_eq_some_iff.mp h
      rcases List.mem_cons.mp hs' with rfl | hmem
      · exact ⟨c₁, hc₁, hs₁⟩
      · exact ih hc₁ hs₁ hrest s' hmem

theorem mem_placesOf {sectIndex dataIndex k : Nat} (hk : dataIndex = 32 * k)
    (h : p ∈ placesOf 512 sectIndex dataIndex) :
    p.sectIndex = sectIndex ∧ ∃ k' < 16, p.dataIndex = 32 * k' := by
  obtain ⟨j, hj, rfl⟩ := List.mem_map.mp h
  have hlt := List.mem_range.mp hj
  exact ⟨rfl, k + j, by omega, by simp only; omega⟩

theorem Tidy.places (hg : Geometry g) (hv : Tidy g D v) {fuel : Nat}
    {start : Place} {places : List Place} (hstart : IsPlace g D start)
    (h : v.places fuel start = some places) : ∀ p ∈ places, IsPlace g D p := by
  obtain ⟨c, hc, hs, k, hk, hdata⟩ := hstart
  rw [Volume.places, hv.mounted.bytesPerSector_eq hg, hv.mounted.sectToClus_eq,
    hs.sectToClus_eq hg hv.mounted] at h
  obtain ⟨sectors, hsectors, rfl⟩ := Option.map_eq_some_iff.mp h
  intro p hp
  rcases List.mem_append.mp hp with hfirst | hrest
  · obtain ⟨hsect, hplace⟩ := mem_placesOf hdata hfirst
    exact ⟨c, hc, hsect ▸ hs, hplace⟩
  · obtain ⟨s', hs', hmem⟩ := List.mem_flatMap.mp hrest
    obtain ⟨c', hc', hsector⟩ := hv.sectorsAfter hg hc hs hsectors s' hs'
    obtain ⟨hsect, hplace⟩ := mem_placesOf (k := 0) rfl hmem
    exact ⟨c', hc', hsect ▸ hsector, hplace⟩

theorem Tidy.searchCurDir (hg : Geometry g) (hr : RootGeometry g) (hv : Tidy g D v)
    {fuel fileNameLen : Nat} {fileName : List UInt16} (hc : home g c ∈ D)
    (h : v.searchCurDir fuel c fileName fileNameLen = some (some p)) : IsPlace g D p := by
  obtain ⟨places, hplaces, h⟩ := Option.bind_eq_some_iff.mp h
  refine hv.places hg ⟨home g c, hc, hv.dirStart hg hr hc, 0, by decide, rfl⟩ hplaces p ?_
  simp only at h
  split at h
  · cases h
  · exact List.mem_of_getElem? (Option.some.inj h)

end TinyClr.FatVolume
