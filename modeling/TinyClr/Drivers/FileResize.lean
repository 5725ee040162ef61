import TinyClr.Drivers.FileHandleOps

/-!
# Seeking and resizing an open file

`Seek` extends the file through `SetLength`, and `SetLength` seeks: to grow a file it writes zeros at
its end, to shrink it it frees clusters and puts the handle back.  A file that is cut to one cluster
or less keeps its first bytes; what happens to longer ones is no matter of this module.
-/

namespace TinyClr.FatFileHandle

open TinyClr.Library TinyClr.FatLogicDisk TinyClr.FatVolume

variable {g : LogicDisk} {v v' : Volume} {clus clus' : Nat → Nat} {length length' sect : Nat}
  {h h' : FileHandle} {p p' n q d new : Nat} {s s' : FileState} {data : List UInt8}

/-! ### `Seek` -/

section Seek

variable {setLength : FileState → Int → FileState × Except FileFailure Unit} {offset x : Int}
  {origin : Nat}

theorem seekWith_none (hs : OpenFile g s clus length data p)
    (hx : s.newPosition offset origin = none) :
    s.seekWith setLength offset origin = (s, .error .invalidParameter) := by
  rw [FileState.seekWith, clampPosition_eq hs, hx]

theorem seekWith_some (hs : OpenFile g s clus length data p)
    (hx : s.newPosition offset origin = some x) :
    s.seekWith setLength offset origin =
      if (data.length : Int) < x then check (setLength s x) fun s _ => s.seekWithin x
      else if x < 0 then (s, .error .fileError)
      else s.seekWithin x := by
  rw [FileState.seekWith, clampPosition_eq hs, hx]
  dsimp only
  rw [hs.fileSize]

theorem seek_within (hs : OpenFile g s clus length data p) (now : FatTime) (depth : Nat)
    (hx : s.newPosition offset origin = some (new : Int)) (hnew : new ≤ data.length) :
    FileState.seek now (depth + 1) s offset origin = s.seekWithin new := by
  rw [FileState.seek, seekWith_some hs hx, if_neg (by omega), if_neg (by omega)]

end Seek

/-! ### Growing -/

/-- `SetLength` may make the file longer: the distance to its end and the bytes to add are `int`s,
    the space on the disk as the code counts it suffices, and the way back is not refused. -/
def GrowInRange (s : FileState) (n : Nat) : Prop :=
  s.fileSize - s.handle.position < 2 ^ 31 ∧ n - s.fileSize < 2 ^ 31 ∧
    n - s.fileSize ≤ getDiskFreeSize s.volume.disk ∧
    (s.handle.position < 2 ^ 31 ∨ (512 * ((n - 1) / 512) : Nat) ≤ s.handle.position)

theorem OpenFile.fstClus_eq_zero_iff (hs : OpenFile g s clus length data p) :
    s.fstClus = 0 ↔ length = 0 := by
  rw [hs.fstClus]
  rcases Nat.eq_zero_or_pos length with hzero | hpos
  · simp [hzero]
  · have hcluster := (hs.chain.cluster 0 hpos).1
    rw [if_neg (by omega)]
    omega

theorem splice_zeros (hn : data.length ≤ n) :
    splice data data.length (List.replicate (n - data.length) 0) = resize data n 0 := by
  rw [splice, resize, List.take_length, List.drop_eq_nil_of_le (Nat.le_add_right _ _),
    List.append_nil, List.take_of_length_le hn]

theorem grow_spec (hg : Geometry g) (now : FatTime) (depth : Nat)
    (hs : OpenFile g s clus length data p) (hlong : data.length < n) (hn : n < 2 ^ 32)
    (hrange : GrowInRange s n) (hroom : HasRoom g s n)
    (hfirst : s.fstClus = 0 → (freeClusters g s.volume).Nonempty) :
    ∃ s' clus' length', s.grow (FileState.seek now (depth + 1)) now n = (s', .ok ()) ∧
      OpenFile g s' clus' length' (resize data n 0) p := by
  obtain ⟨hrest, hmore, hspace, hback⟩ := hrange
  have hposition := hs.stands.position
  have hsize := hs.fileSize
  rw [hsize] at hrest hmore hspace
  rw [hposition] at hrest hback
  -- to the end of the file
  have hend : s.newPosition 0 SEEKORIGIN_END = some (data.length : Int) := by
    rw [← hsize]
    simp [FileState.newPosition, SEEKORIGIN_END, SEEKORIGIN_BEGIN, SEEKORIGIN_CURRENT]
  have hple := hs.position_le
  obtain ⟨h₁, hseek₁, -, hs₁⟩ := hs.seekWithin hg data.length le_rfl (by
    rw [MoveInRange, hposition, if_neg (by omega)]
    omega)
  -- the zeros
  have hint : int32 ((n : Int) - (data.length : Int)) = (n - data.length : Nat) := by
    rw [int32_eq_self (by omega) (by omega)]
    omega
  have hzeros : Supplies none (List.replicate (n - data.length) (0 : UInt8)).length
      fun i => (List.replicate (n - data.length) (0 : UInt8)).getD i 0 := fun i hi => by
    rw [List.length_replicate] at hi
    exact List.getD_replicate 0 hi
  have hsum : data.length + (List.replicate (n - data.length) (0 : UInt8)).length = n := by
    rw [List.length_replicate]
    omega
  obtain ⟨s₂, clus₂, length₂, hwrite, hs₂, hindex⟩ := write_spec hg now hs₁ hzeros
    (by rw [hsum, HasRoom, hs₁.fileSize, ← hsize]; exact hroom)
    (fun hzero => hfirst (hs.fstClus_eq_zero_iff.mpr (hs₁.fstClus_eq_zero_iff.mp hzero)))
    (by rw [hsum]; exact hn)
  rw [hsum, splice_zeros hlong.le] at hs₂
  rw [hsum] at hindex
  rw [List.length_replicate] at hwrite hindex
  -- and back
  have hold : s₂.newPosition s.handle.position SEEKORIGIN_BEGIN = some (p : Int) := by
    rw [FileState.newPosition, if_pos rfl, hposition]
  obtain ⟨h₃, hseek₃, -, hs₃⟩ := hs₂.seekWithin hg p (by rw [length_resize]; omega) (by
    obtain ⟨q, d, hd, hd', hplace, hdata⟩ := hindex (by omega)
    rw [MoveInRange, hs₂.stands.position, if_pos (by omega), hdata]
    omega)
  refine ⟨_, clus₂, length₂, ?_, hs₃⟩
  rw [FileState.grow, if_neg (by rw [hsize]; omega)]
  dsimp only
  rw [seek_within hs now depth hend le_rfl, hseek₁, check_ok, hint, hwrite, check_ok,
    seek_within hs₂ now depth hold (by rw [length_resize]; omega), hseek₃, check_ok]

/-! ### Shrinking -/

/-- The table may differ at some clusters of a file, and nowhere past the FAT. -/
structure Truncated (g : LogicDisk) (clus : Nat → Nat) (first length : Nat) (v v' : Volume) :
    Prop where
  mounted : Mounted g v'
  others : ∀ c < g.totalClusterCount + 2, (∀ i, first ≤ i → i < length → clus i ≠ c) →
    v'.fat c = v.fat c
  frame : ∀ s, fatEnd g ≤ s → v'.sectors s = v.sectors s

theorem Truncated.refl (hv : Mounted g v) (first : Nat) : Truncated g clus first length v v :=
  ⟨hv, fun _ _ _ => rfl, fun _ _ => rfl⟩

theorem Truncated.step {first : Nat} {v₁ v₂ : Volume} {x : Nat}
    (h : Relinked g v v₁ (clus first) x) (hfirst : first < length)
    (h' : Truncated g clus (first + 1) length v₁ v₂) : Truncated g clus first length v v₂ where
  mounted := h'.mounted
  others := fun c hc hne => (h'.others c hc fun i hi => hne i (by omega)).trans
    (h.others c hc (hne first le_rfl hfirst).symm)
  frame := fun s hs => (h'.frame s hs).trans (h.frame s hs)

theorem truncateLoop_frees (hg : Geometry g) {newClusCount : Nat} :
    ∀ (turns clusNum j : Nat) (v : Volume), newClusCount ≤ clusNum → Mounted g v → j < length →
      (∀ i < length, IsCluster g (clus i)) →
      (∀ i < length, ∀ j < length, clus i = clus j → i = j) →
      (∀ i, j ≤ i → i + 1 < length → linkOf g.isFAT16 (v.fat (clus i)) = clus (i + 1)) →
      (∀ i, j ≤ i → i + 1 = length →
        getClusType g.isFAT16 (linkOf g.isFAT16 (v.fat (clus i))) ≠ .data) →
      Truncated g clus j length v (truncateLoop newClusCount turns clusNum v (clus j)) := by
  intro turns
  induction turns with
  | zero => exact fun _ j v _ hv _ _ _ _ _ => Truncated.refl hv j
  | succ turns ih =>
    intro clusNum j v hnum hv hj hcluster hinj hlink hlast
    obtain ⟨hfreed, hold⟩ := writeFAT_spec (x := CLUST_NONE) hg hv (hcluster j hj)
      (by cases g.isFAT16 <;> decide)
    rw [truncateLoop, if_neg (by omega), if_pos (by omega)]
    dsimp only
    rw [hold, hfreed.mounted.isFAT16_eq]
    have hothers : ∀ i, j < i → i < length → (v.writeFAT (clus j) CLUST_NONE).1.fat (clus i) =
        v.fat (clus i) := fun i hi hi' =>
      hfreed.others _ (hcluster i hi').2 fun heq => by
        have := hinj i hi' j hj heq
        omega
    rcases Nat.lt_or_ge (j + 1) length with hnext | hend
    · rw [hlink j le_rfl hnext, getClusType_cluster hg (hcluster _ hnext), if_neg (by simp)]
      refine Truncated.step hfreed hj (ih _ _ _ (by omega) hfreed.mounted hnext hcluster hinj ?_ ?_)
      · exact fun i hi hi' => by
          rw [hothers i (by omega) (by omega)]
          exact hlink i (by omega) hi'
      · exact fun i hi hi' => by
          rw [hothers i (by omega) (by omega)]
          exact hlast i (by omega) hi'
    · rw [if_pos (hlast j le_rfl (by omega))]
      exact Truncated.step hfreed hj (Truncated.refl hfreed.mounted _)

theorem clusterBytes_eq (hg : Geometry g) (hv : Mounted g v) :
    clusterBytes v.disk = clusSize g := by
  obtain ⟨_, _, hdisk⟩ := hv.onDisk
  have hle := hg.perClus_le
  rw [hdisk, clusterBytes, clusSize]
  change uint32 (g.bytesPerSector * g.sectorsPerCluster : Nat) = _
  rw [hg.bytesPerSector]
  exact uint32_nat (by omega)

theorem clusCount_eq (hg : Geometry g) (hv : Mounted g v) (hn : n + clusSize g ≤ 2 ^ 32) :
    clusCount v.disk n = wholeClusters g n := by
  have hpos := clusSize_pos hg
  have hsum : uint32 ((n : Int) + (clusSize g : Int) - 1) = n + (clusSize g - 1) := by
    rw [uint32_eq_toNat (by omega) (by omega)]
    omega
  rw [clusCount, clusterBytes_eq hg hv, hsum, wholeClusters]

theorem clusCount_wraps (hg : Geometry g) (hv : Mounted g v) (hn : n < 2 ^ 32)
    (hwraps : 2 ^ 32 < n + clusSize g) : clusCount v.disk n = 0 := by
  have hle := hg.perClus_le
  have hsum : uint32 ((n : Int) + (clusSize g : Int) - 1) = n + clusSize g - 1 - 2 ^ 32 := by
    unfold uint32 clusSize
    unfold clusSize at hwraps
    omega
  rw [clusCount, clusterBytes_eq hg hv, hsum]
  exact Nat.div_eq_of_lt (by omega)

/-- The chain that `SetLength` leaves of the clusters of a file -/
structure Kept (g : LogicDisk) (v : Volume) (clus : Nat → Nat) (length : Nat) (v' : Volume)
    (kept : Nat) : Prop where
  le : kept ≤ length
  mounted : Mounted g v'
  chain : Chain g v' clus kept
  reach : ∀ c, InReach g v' clus kept c → InReach g v clus length c
  frame : ∀ s, fatEnd g ≤ s → v'.sectors s = v.sectors s

theorem Truncated.reach {first kept : Nat} (h : Truncated g clus first length v v')
    (hkept : kept ≤ length) {c : Nat} (hc : InReach g v' clus kept c) :
    InReach g v clus length c := by
  obtain ⟨hcluster, hnone | ⟨i, hi, hclus⟩⟩ := hc
  · refine ⟨hcluster, ?_⟩
    by_cases hmem : ∃ i, i < length ∧ clus i = c
    · exact Or.inr hmem
    · exact Or.inl (h.others c hcluster.2 (fun i _ hi heq => hmem ⟨i, hi, heq⟩) ▸ hnone)
  · exact ⟨hcluster, Or.inr ⟨i, by omega, hclus⟩⟩

theorem truncateLoop_one (hg : Geometry g) (hv : Mounted g v) (hchain : Chain g v clus length)
    (hlength : 0 < length) (turns : Nat) :
    Kept g v clus length (truncateLoop 1 (turns + 1) 0 v (clus 0)) 1 := by
  have hcluster := hchain.cluster 0 hlength
  obtain ⟨hended, hold⟩ := writeFAT_spec (x := CLUST_EOF) hg hv hcluster (endMark_eof_lt g.isFAT16)
  have hothers : ∀ i, 0 < i → i < length →
      (v.writeFAT (clus 0) CLUST_EOF).1.fat (clus i) = v.fat (clus i) := fun i hi hi' =>
    hended.others _ (hchain.cluster i hi').2 fun heq => by
      have := hchain.inj i hi' 0 hlength heq
      omega
  have hrest : Truncated g clus 1 length (v.writeFAT (clus 0) CLUST_EOF).1
      (truncateLoop 1 (turns + 1) 0 v (clus 0)) := by
    rw [truncateLoop, if_pos rfl]
    dsimp only
    rw [hold, hended.mounted.isFAT16_eq]
    rcases Nat.lt_or_ge 1 length with hnext | hend
    · rw [hchain.link 0 hnext, getClusType_cluster hg (hchain.cluster _ hnext), if_neg (by simp)]
      refine truncateLoop_frees hg turns _ 1 _ le_rfl hended.mounted hnext hchain.cluster hchain.inj
        ?_ ?_
      · exact fun i hi hi' => by
          rw [hothers i (by omega) (by omega)]
          exact hchain.link i hi'
      · exact fun i hi hi' => by
          rw [hothers i (by omega) (by omega)]
          exact hchain.last i hi'
    · rw [if_pos (hchain.last 0 (by omega))]
      exact Truncated.refl hended.mounted 1
  have hfirst : (truncateLoop 1 (turns + 1) 0 v (clus 0)).fat (clus 0) =
      (v.writeFAT (clus 0) CLUST_EOF).1.fat (clus 0) :=
    hrest.others _ hcluster.2 fun i hi hi' heq => by
      have := hchain.inj i hi' 0 hlength heq
      omega
  have hall := Truncated.step hended hlength hrest
  refine ⟨hlength, hrest.mounted, ⟨fun i hi => ?_, fun i hi j hj _ => by omega,
    fun i hi => by omega, fun i hi => ?_⟩, fun c hc => hall.reach hlength hc, hall.frame⟩
  · exact hchain.cluster i (by omega)
  · obtain rfl : i = 0 := by omega
    rw [hfirst, hended.link, getClusType_endMark]
    exact ClusType.noConfusion

theorem wholeClusters_pos (hg : Geometry g) (hn : 0 < n) : 0 < wholeClusters g n := by
  have hpos := clusSize_pos hg
  rw [wholeClusters]
  exact Nat.div_pos (by omega) hpos

theorem truncate_keeps (hg : Geometry g) (hs : OpenFile g s clus length data p) (hn : 0 < n)
    (hlt : n < data.length)
    (hcond : 2 ^ 32 < data.length + clusSize g ∨ n ≤ clusSize g) :
    ∃ kept, Kept g s.volume clus length (truncateLoop (clusCount s.volume.disk n)
        (clusCount s.volume.disk data.length) 0 s.volume (clus 0)) kept ∧
      n ≤ kept * clusSize g ∧
      (2 ^ 32 < data.length + clusSize g ∧ kept = length ∨
        ¬ 2 ^ 32 < data.length + clusSize g ∧ kept = 1) := by
  have hsize := hs.size_le
  by_cases hwraps : 2 ^ 32 < data.length + clusSize g
  · rw [clusCount_wraps hg hs.mounted hs.length_lt hwraps]
    exact ⟨length, ⟨le_rfl, hs.mounted, hs.chain, fun _ h => h, fun _ _ => rfl⟩,
      by omega, Or.inl ⟨hwraps, rfl⟩⟩
  · have hle : n ≤ clusSize g := by omega
    have hpos := clusSize_pos hg
    have hnew : clusCount s.volume.disk n = 1 := by
      rw [clusCount_eq hg hs.mounted (by omega)]
      exact Nat.le_antisymm (wholeClusters_le hg (by omega)) (wholeClusters_pos hg hn)
    obtain ⟨turns, hturns⟩ : ∃ turns, clusCount s.volume.disk data.length = turns + 1 := by
      rw [clusCount_eq hg hs.mounted (by omega)]
      exact Nat.exists_eq_add_one_of_ne_zero (wholeClusters_pos hg (by omega)).ne'
    rw [hnew, hturns]
    exact ⟨1, truncateLoop_one hg hs.mounted hs.chain (hs.place (by omega)).1 turns, by omega,
      Or.inr ⟨hwraps, rfl⟩⟩

theorem truncate_frees (hg : Geometry g) (hs : OpenFile g s clus length data p)
    (hdata : 0 < data.length) :
    Truncated g clus 0 length s.volume (truncateLoop (clusCount s.volume.disk 0)
      (clusCount s.volume.disk data.length) 0 s.volume (clus 0)) := by
  have hpos := clusSize_pos hg
  have hzero : clusCount s.volume.disk 0 = 0 := by
    have hle := hg.perClus_le
    rw [clusCount_eq hg hs.mounted (by unfold clusSize; omega), wholeClusters]
    exact Nat.div_eq_of_lt (by omega)
  rw [hzero]
  exact truncateLoop_frees hg _ 0 0 _ le_rfl hs.mounted (hs.place hdata).1 hs.chain.cluster
    hs.chain.inj (fun i _ => hs.chain.link i) fun i _ => hs.chain.last i

/-- `SetLength` may make the file shorter: it frees no cluster, since the sum for their number wraps
    around, or it keeps at most one; and the handle is not left in a cluster that it frees. -/
def ShrinkInRange (s : FileState) (n : Nat) : Prop :=
  (2 ^ 32 < s.fileSize + clusterBytes s.volume.disk ∧
      ((n : Int) < s.handle.position → MoveInRange s n)) ∨
    (n ≤ clusterBytes s.volume.disk ∧
      ¬ (n = clusterBytes s.volume.disk ∧ s.handle.clusIndex ≠ s.fstClus ∧
        (n : Int) ≤ s.handle.position ∧ s.handle.position - n ≤ s.handle.dataIndex))

theorem seek_begin (now : FatTime) (depth new : Nat) (hp : s.handle.position ≤ s.fileSize)
    (hnew : new ≤ s.fileSize) :
    FileState.seek now (depth + 1) s new SEEKORIGIN_BEGIN = s.seekWithin new := by
  have hclamp : s.clampPosition = s := if_neg (by omega)
  have hx : s.newPosition new SEEKORIGIN_BEGIN = some (new : Int) := if_pos rfl
  rw [FileState.seek, FileState.seekWith, hclamp, hx]
  dsimp only
  rw [if_neg (by omega), if_neg (by omega)]

/-- Where the handle of a file that is cut comes to stand -/
theorem seekBack_spec (hg : Geometry g) (now : FatTime) (depth : Nat)
    (hs : OpenFile g s clus length data p) (hlt : n < data.length) {kept : Nat}
    (hkept : Kept g s.volume clus length v' kept) (hpos : 0 < kept)
    (hroom : n ≤ kept * clusSize g) (hd : d ≤ 512) (hp : 512 * q + d = p)
    (heq : s = ⟨s.volume, standAt g clus s.handle q d⟩)
    (hstay : p ≤ n ∨ p - n ≤ d → q / g.sectorsPerCluster < kept)
    (hmove : n < p → (p - n ≤ s.handle.dataIndex ∨ n < 2 ^ 31)) :
    ∃ h' x, (if (n : Int) ≤ s.handle.position then
        FileState.seek now (depth + 1) ⟨v', s.handle⟩ n SEEKORIGIN_BEGIN
      else (⟨v', s.handle⟩, .ok s.handle.position)) = (⟨v', h'⟩, .ok x) ∧
      Stands g clus kept h' (min p n) ∧ h'.dirSectIndex = s.handle.dirSectIndex ∧
      h'.dirDataIndex = s.handle.dirDataIndex := by
  have hposition := hs.stands.position
  have hple := hs.position_le
  have hsector : v'.sectors s.handle.dirSectIndex = s.volume.sectors s.handle.dirSectIndex :=
    hkept.frame _ hs.apart.1
  have hsize : FileState.fileSize ⟨v', s.handle⟩ = data.length :=
    (congrArg (getFileSize · _) hsector).trans hs.fileSize
  subst hp
  have hlength := (hs.place (by omega)).1
  have hstand : s.handle = standAt g clus s.handle q d := congrArg FileState.handle heq
  have hindex : s.handle.dataIndex = d := by rw [hstand]; rfl
  have hfst : FileState.fstClus ⟨v', s.handle⟩ = clus 0 := by
    refine (congrArg (getFstClus · _) hsector).trans (hs.fstClus.trans ?_)
    rw [if_neg (by omega)]
  have hseek := seek_begin (s := ⟨v', s.handle⟩) now depth n
    (by rw [hsize, hposition]; omega) (by rw [hsize]; exact hlt.le)
  rcases Nat.lt_trichotomy (512 * q + d) n with hlow | heqn | hhigh
  · rw [if_neg (by omega), Nat.min_eq_left hlow.le]
    exact ⟨s.handle, _, rfl, Or.inr ⟨q, d, hd, hstay (by omega), rfl, hstand⟩,
      rfl, rfl⟩
  · rw [if_pos (by omega), hseek, Nat.min_eq_left heqn.le,
      seekWithin_same (s := ⟨v', s.handle⟩) (p := n) (by rw [hposition, heqn])]
    exact ⟨s.handle, _, rfl, Or.inr ⟨q, d, hd, hstay (by omega), rfl, hstand⟩,
      rfl, rfl⟩
  · rw [if_pos (by omega), hseek, Nat.min_eq_right hhigh.le]
    rw [hindex] at hmove
    by_cases hin : 512 * q + d - n ≤ d
    · have hback : FileState.seekWithin ⟨v', standAt g clus s.handle q d⟩ n = _ :=
        seekWithin_back hhigh hin hd
      rw [← hstand] at hback
      exact ⟨_, _, hback, Or.inr ⟨q, d - (512 * q + d - n), by omega,
        hstay (by omega), by omega, rfl⟩, rfl, rfl⟩
    · obtain ⟨q', d', hd', hq', hplace, hrestart⟩ := seekWithin_restart (s := ⟨v', s.handle⟩) n hg
        hkept.mounted hkept.chain hpos hfst (by rw [hposition]; omega)
        (by rw [hposition, hindex]; omega) hroom (by omega)
      exact ⟨_, _, hrestart, Or.inr ⟨q', d', hd', hq', hplace, rfl⟩, rfl, rfl⟩

theorem resize_eq_take (hn : n ≤ data.length) : resize data n 0 = data.take n := by
  rw [resize, Nat.sub_eq_zero_of_le hn, List.replicate_zero, List.append_nil]

/-- The handle of a file that is emptied -/
theorem seekStart_spec (now : FatTime) (depth : Nat) (hs : OpenFile g s clus length data p)
    (hdata : 0 < data.length)
    (hsector : v'.sectors s.handle.dirSectIndex = s.volume.sectors s.handle.dirSectIndex) :
    ∃ h' x, (if ((0 : Nat) : Int) ≤ s.handle.position then
        FileState.seek now (depth + 1) ⟨v', s.handle⟩ (0 : Nat) SEEKORIGIN_BEGIN
      else (⟨v', s.handle⟩, .ok s.handle.position)) = (⟨v', h'⟩, .ok x) ∧
      h'.position = 0 ∧ h'.dataIndex = 0 ∧ h'.dirSectIndex = s.handle.dirSectIndex ∧
      h'.dirDataIndex = s.handle.dirDataIndex := by
  have hposition := hs.stands.position
  have hple := hs.position_le
  have hsize : FileState.fileSize ⟨v', s.handle⟩ = data.length :=
    (congrArg (getFileSize · _) hsector).trans hs.fileSize
  have hseek := seek_begin (s := ⟨v', s.handle⟩) now depth 0
    (by rw [hsize, hposition]; omega) (Nat.zero_le _)
  obtain ⟨-, q, d, hd, -, rfl, heq⟩ := hs.place hdata
  have hstand : s.handle = standAt g clus s.handle q d := congrArg FileState.handle heq
  have hindex : s.handle.dataIndex = d := by rw [hstand]; rfl
  rw [if_pos (by omega), hseek]
  rcases Nat.eq_zero_or_pos (512 * q + d) with hzero | hpos
  · rw [seekWithin_same (s := ⟨v', s.handle⟩) (p := 0) (by rw [hposition, hzero])]
    exact ⟨s.handle, _, rfl, by omega, by omega, rfl, rfl⟩
  · by_cases hin : 512 * q + d - 0 ≤ d
    · have hback : FileState.seekWithin ⟨v', standAt g clus s.handle q d⟩ (0 : Nat) = _ :=
        seekWithin_back hpos hin hd
      rw [← hstand] at hback
      refine ⟨_, _, hback, ?_, ?_, rfl, rfl⟩
      · change ((512 * q + (d - (512 * q + d - 0)) : Nat) : Int) = 0
        omega
      · change d - (512 * q + d - 0) = 0
        omega
    · rw [seekWithin_eq_restart (by rw [hposition]; omega) (by rw [hposition, hindex]; omega)]
      exact ⟨_, 0, rfl, rfl, rfl, rfl, rfl⟩

/-- The clusters of a file that is emptied are no longer its own. -/
theorem emptied_spec (hg : Geometry g) (hs : OpenFile g s clus length data p)
    (hlength : 0 < length) (htruncated : Truncated g clus 0 length s.volume v')
    (hposition : h'.position = 0) (hindex : h'.dataIndex = 0)
    (hsect : h'.dirSectIndex = s.handle.dirSectIndex) :
    let u := (FileState.mk v' h').updateEntry fun sector entry => setFileSize sector entry 0
    let u := u.updateEntry fun sector entry => setFstClus sector entry 0
    OpenFile g ⟨(u.volume.writeFAT (clus 0) CLUST_NONE).1, h'⟩ clus 0 [] 0 := by
  intro u₁ u₂
  have hpast : fatEnd g ≤ h'.dirSectIndex := hsect ▸ hs.apart.1
  obtain ⟨hv₁, hfat₁⟩ := fat_setSector hg htruncated.mounted hpast
    (setFileSize (v'.sectors h'.dirSectIndex) h'.dirDataIndex 0)
  obtain ⟨hv₂, hfat₂⟩ := fat_setSector hg hv₁ hpast
    (setFstClus (u₁.volume.sectors h'.dirSectIndex) h'.dirDataIndex 0)
  obtain ⟨hfreed, -⟩ := writeFAT_spec (x := CLUST_NONE) hg hv₂ (hs.chain.cluster 0 hlength)
    (by cases g.isFAT16 <;> decide)
  have hentry : (u₂.volume.writeFAT (clus 0) CLUST_NONE).1.sectors h'.dirSectIndex =
      setFstClus (setFileSize (v'.sectors h'.dirSectIndex) h'.dirDataIndex 0) h'.dirDataIndex 0 := by
    refine (hfreed.frame _ hpast).trans ((Function.update_self _ _ _).trans ?_)
    exact congrArg (setFstClus · _ _) (Function.update_self _ _ _)
  refine ⟨⟨⟨hfreed.mounted, ⟨fun i hi => by omega, fun i hi => by omega, fun i hi => by omega,
    fun i hi => by omega⟩, hpast, fun c hc r hr => ?_⟩, ?_, Nat.zero_le _, fun i hi => ?_, le_rfl,
    Or.inl ⟨rfl, rfl, hposition, hindex⟩⟩, ?_⟩
  · obtain ⟨hcluster, hnone | ⟨i, hi, -⟩⟩ := hc
    · change h'.dirSectIndex ≠ _
      rw [hsect]
      refine hs.apart.2 c ⟨hcluster, ?_⟩ r hr
      by_cases hmem : ∃ i, i < length ∧ clus i = c
      · exact Or.inr hmem
      · refine Or.inl ?_
        rw [← htruncated.others c hcluster.2 fun i _ hi heq => hmem ⟨i, hi, heq⟩,
          ← hfat₁ c hcluster.2, ← hfat₂ c hcluster.2,
          ← hfreed.others c hcluster.2 fun heq => hmem ⟨0, hlength, heq.symm⟩]
        exact hnone
    · omega
  · change getFstClus ((u₂.volume.writeFAT (clus 0) CLUST_NONE).1.sectors h'.dirSectIndex)
      h'.dirDataIndex = 0
    rw [hentry, getFstClus_setFstClus _ _ (by decide)]
  · exact absurd hi (Nat.not_lt_zero i)
  · change getFileSize ((u₂.volume.writeFAT (clus 0) CLUST_NONE).1.sectors h'.dirSectIndex)
      h'.dirDataIndex = 0
    rw [hentry, getFileSize_setFstClus, getFileSize_setFileSize _ _ (by decide)]

theorem shrink_spec (hg : Geometry g) (now : FatTime) (depth : Nat)
    (hs : OpenFile g s clus length data p) (hlt : n < data.length) (hrange : ShrinkInRange s n) :
    ∃ s' clus' length', s.shrink (FileState.seek now (depth + 1)) n = (s', .ok ()) ∧
      OpenFile g s' clus' length' (resize data n 0) (min p n) := by
  obtain ⟨hlength, q, d, hd, hq, hp, heq⟩ := hs.place (by omega)
  have hfst : s.fstClus = clus 0 := by rw [hs.fstClus, if_neg (by omega)]
  have hposition := hs.stands.position
  unfold ShrinkInRange at hrange
  rw [hs.fileSize, clusterBytes_eq hg hs.mounted, hposition, hfst] at hrange
  rcases Nat.eq_zero_or_pos n with rfl | hpos
  · have htruncated := truncate_frees hg hs hlt
    obtain ⟨h', x, hsought, hzero, hindex, hsect, -⟩ :=
      seekStart_spec now depth hs hlt (htruncated.frame _ hs.apart.1)
    rw [resize_eq_take (Nat.zero_le _), List.take_zero, Nat.min_zero]
    refine ⟨_, clus, 0, ?_, emptied_spec hg hs hlength htruncated hzero hindex hsect⟩
    rw [FileState.shrink, hfst, hs.fileSize]
    dsimp only
    rw [hsought, check_ok, if_pos rfl]
    rfl
  · obtain ⟨kept, hkept, hroom, hcase⟩ := truncate_keeps hg hs hpos hlt (by omega)
    have hkept_pos : 0 < kept := by omega
    obtain ⟨v', hv'⟩ : ∃ v', truncateLoop (clusCount s.volume.disk n)
      (clusCount s.volume.disk data.length) 0 s.volume (clus 0) = v' := ⟨_, rfl⟩
    rw [hv'] at hkept
    have hmove : n < p → (p - n ≤ s.handle.dataIndex ∨ n < 2 ^ 31) := fun hback => by
      rcases hrange with ⟨-, hmove⟩ | ⟨hle, -⟩
      · have := hmove (by omega)
        rw [MoveInRange, hposition, if_pos (by omega)] at this
        omega
      · have := hg.perClus_le
        unfold clusSize at hle
        omega
    have hindex : s.handle.dataIndex = d := by rw [heq]; rfl
    have hclus : s.handle.clusIndex = clus (q / g.sectorsPerCluster) := by rw [heq]; rfl
    have hstay : p ≤ n ∨ p - n ≤ d → q / g.sectorsPerCluster < kept := fun hnear => by
      rcases hcase with ⟨-, rfl⟩ | ⟨hwraps, rfl⟩
      · exact hq
      · obtain ⟨hle, hplaced⟩ := hrange.resolve_left fun h => hwraps h.1
        rw [sector_lt_iff hg, Nat.one_mul]
        refine Nat.lt_of_not_le fun hfar => hplaced ⟨by omega, ?_, by omega, by omega⟩
        have hsecond : ¬ q / g.sectorsPerCluster < 1 := by
          rw [sector_lt_iff hg]
          omega
        rw [hclus]
        exact fun heq => hsecond (by
          have := hs.chain.inj _ hq 0 hlength heq
          omega)
    obtain ⟨h', x, hsought, hstands, hsect, hdata⟩ :=
      seekBack_spec hg now depth hs hlt hkept hkept_pos hroom hd hp heq hstay hmove
    have hbody : FileBody g ⟨v', h'⟩ clus kept (data.take n) (min p n) := by
      refine ⟨⟨hkept.mounted, hkept.chain, ?_⟩, ?_, ?_, fun i hi => ?_, ?_, hstands⟩
      · change Apart g _ clus kept h'.dirSectIndex
        rw [hsect]
        exact ⟨hs.apart.1, fun c hc => hs.apart.2 c (hkept.reach c hc)⟩
      · rw [if_neg (by omega)]
        change getFstClus (v'.sectors h'.dirSectIndex) h'.dirDataIndex = clus 0
        rw [hsect, hdata, hkept.frame _ hs.apart.1]
        exact hfst
      · rw [List.length_take]
        omega
      · rw [List.length_take] at hi
        have hsize := hs.size_le
        rw [byteAt_congr hg (fun _ _ => rfl) hkept.frame
            (show i < length * clusSize g by omega),
          hs.content i (by omega), List.getD_eq_getElem?_getD, List.getD_eq_getElem?_getD,
          List.getElem?_take_of_lt (by omega)]
      · rw [List.length_take]
        omega
    have hlen : (data.take n).length = n := by rw [List.length_take]; omega
    have hsized := hbody.setFileSize hg (by have := hs.length_lt; omega)
    rw [resize_eq_take hlt.le]
    refine ⟨_, clus, kept, ?_, hsized⟩
    rw [FileState.shrink, hfst, hs.fileSize]
    dsimp only
    rw [hv', hsought, check_ok, if_neg (by omega), hlen]

/-! ### `SetLength` -/

/-- There is a cluster for each byte up to a size, and for an empty file one to begin with. -/
def Allocatable (g : LogicDisk) (s : FileState) (size : Nat) : Prop :=
  HasRoom g s size ∧ (s.fstClus = 0 → (freeClusters g s.volume).Nonempty)

/-- `SetLength` does what it is asked for. -/
def ResizeInRange (s : FileState) (n : Nat) : Prop :=
  (n < s.fileSize → ShrinkInRange s n) ∧ (s.fileSize < n → GrowInRange s n)

theorem setLength_spec (hg : Geometry g) (now : FatTime) (depth : Nat)
    (hs : OpenFile g s clus length data p) (hn : n < 2 ^ 32) (hrange : ResizeInRange s n)
    (hroom : s.fileSize < n → Allocatable g s n) :
    ∃ s' clus' length', s.setLength now (depth + 1) n = (s', .ok ()) ∧
      OpenFile g s' clus' length' (resize data n 0) (min p n) := by
  have hple := hs.position_le
  have hsize := hs.fileSize
  rw [FileState.setLength, FileState.setLengthWith, if_neg (by omega), Int.toNat_natCast]
  dsimp only
  rcases Nat.lt_trichotomy n data.length with hless | rfl | hmore
  · have hfst : ¬ s.fstClus = 0 := fun hzero => by
      have := (hs.place (by omega)).1
      have := hs.fstClus_eq_zero_iff.mp hzero
      omega
    rw [if_neg (by omega), if_pos (by omega)]
    exact shrink_spec hg now depth hs hless (hrange.1 (by omega))
  · rw [if_pos (Or.inl hsize.symm), resize_eq_take le_rfl, List.take_length,
      Nat.min_eq_left hple]
    exact ⟨s, clus, length, rfl, hs⟩
  · obtain ⟨hroom, hfirst⟩ := hroom (by omega)
    rw [if_neg (by omega), if_neg (by omega), Nat.min_eq_left (by omega)]
    exact grow_spec hg now depth hs hmore hn (hrange.2 (by omega)) hroom hfirst

theorem setLength_outOfRange (now : FatTime) (depth : Nat) {x : Int}
    (hx : x < 0 ∨ 0xFFFFFFFF < x) : s.setLength now depth x = (s, .error .outOfRange) := by
  rw [FileState.setLength, FileState.setLengthWith, if_pos hx]

/-! ### `Seek` past the end -/

/-- `Seek` to a place inside the file, or past its end, which makes it longer -/
def SeekInRange (s : FileState) (n : Nat) : Prop :=
  (n ≤ s.fileSize → MoveInRange s n) ∧
    (s.fileSize < n → GrowInRange s n ∧ n - s.handle.position < 2 ^ 31)

theorem seek_spec (hg : Geometry g) (now : FatTime) (depth : Nat)
    (hs : OpenFile g s clus length data p) {offset : Int} {origin : Nat}
    (hx : s.newPosition offset origin = some (n : Int)) (hn : n < 2 ^ 32)
    (hrange : SeekInRange s n) (hroom : s.fileSize < n → Allocatable g s n) :
    ∃ s' clus' length', FileState.seek now (depth + 2) s offset origin = (s', .ok (n : Int)) ∧
      OpenFile g s' clus' length' (if data.length < n then resize data n 0 else data) n := by
  have hsize := hs.fileSize
  rcases Nat.lt_or_ge data.length n with hmore | hless
  · obtain ⟨hgrow, hdistance⟩ := hrange.2 (by omega)
    have hple := hs.position_le
    obtain ⟨s₁, clus₁, length₁, hset, hs₁⟩ := setLength_spec hg now depth hs hn
      ⟨fun h => absurd h (by omega), fun _ => hgrow⟩ hroom
    rw [Nat.min_eq_left (by omega)] at hs₁
    rw [hs.stands.position] at hdistance
    obtain ⟨h₂, hseek, -, hs₂⟩ := hs₁.seekWithin hg n (by rw [length_resize]) (by
      rw [MoveInRange, hs₁.stands.position, if_neg (by omega)]
      omega)
    rw [if_pos hmore]
    refine ⟨_, clus₁, length₁, ?_, hs₂⟩
    rw [FileState.seek, seekWith_some hs hx, if_pos (by omega)]
    change check (s.setLength now (depth + 1) n) _ = _
    rw [hset, check_ok, hseek]
  · obtain ⟨h', hseek, -, hs'⟩ := hs.seekWithin hg n hless (hrange.1 (by omega))
    rw [if_neg (by omega), seek_within hs now (depth + 1) hx hless, hseek]
    exact ⟨_, clus, length, rfl, hs'⟩

/-! ### `Flush` -/

def FlushInRange (s : FileState) : Prop :=
  s.handle.readWriteState &&& ReadWriteState.WRITE ≠ 0 → s.handle.position < 2 ^ 31

/-- The walk of `Flush` comes to the end of the file, or does not leave its start. -/
theorem flushWalk_spec (hg : Geometry g) (hs : OpenFile g s clus length data p) :
    ∃ h' p', readWriteSeekHelper .flush s.restart none (int32 s.fileSize) =
        (⟨s.volume, h'⟩, .ok ([], 0)) ∧
      OpenFile g ⟨s.volume, h'⟩ clus length data p' ∧
      (p' = data.length ∧ data.length < 2 ^ 31 ∨ p' = 0) := by
  have hlt := hs.length_lt
  rw [hs.fileSize]
  rcases Nat.eq_zero_or_pos data.length with hzero | hpos
  · have hsize : (int32 (data.length : Nat)).toNat = 0 := by
      rw [hzero]
      rfl
    rw [readWriteSeekHelper, hsize, helperLoop_zero]
    refine ⟨s.restart.handle, 0, rfl, ?_, Or.inr rfl⟩
    rcases Nat.eq_zero_or_pos length with rfl | hlength
    · exact hs.moved (Or.inl ⟨rfl, rfl, rfl, rfl⟩) rfl rfl (Nat.zero_le _)
    · have hfst : s.fstClus = clus 0 := by rw [hs.fstClus, if_neg (by omega)]
      rw [restart_eq hg hs.mounted hs.chain hlength hfst]
      exact hs.atPlace (q := 0) (d := 0) (by omega) ((Nat.zero_div _).symm ▸ hlength) (by omega)
  · have hlength := (hs.place hpos).1
    have hfst : s.fstClus = clus 0 := by rw [hs.fstClus, if_neg (by omega)]
    have hstart : 0 / g.sectorsPerCluster < length := (Nat.zero_div _).symm ▸ hlength
    rw [restart_eq hg hs.mounted hs.chain hlength hfst, readWriteSeekHelper]
    rcases Nat.lt_or_ge data.length (2 ^ 31) with hshort | hlong
    · have hsize : (int32 (data.length : Nat)).toNat = data.length := by
        rw [int32_eq_self (by omega) (by omega)]
        exact Int.toNat_natCast _
      obtain ⟨q', d', hd', hq', hplace, -, -, hloop⟩ := helperLoop_moves (h := s.handle)
        (show Helper.flush ≠ .write by simp) hg hs.mounted hs.chain data.length data.length 0 0 none [] 0
        (by omega) hstart (by have := hs.size_le; omega) le_rfl
      rw [hsize, hloop]
      exact ⟨_, _, rfl, hs.atPlace hd' hq' (by omega), Or.inl ⟨by omega, hshort⟩⟩
    · have hsize : (int32 (data.length : Nat)).toNat = 0 := by
        rw [int32_eq_sub (by omega) (by omega)]
        omega
      rw [hsize, helperLoop_zero]
      exact ⟨_, _, rfl, hs.atPlace (q := 0) (d := 0) (by omega) hstart (by omega), Or.inr rfl⟩

theorem keepsFile_flushTimes (now : FatTime) : KeepsFile (flushTimes now) := by
  have haccessed : KeepsFile fun sector entry =>
      if getLstAccDate sector entry ≠ now.date then setLstAccDate sector entry now.date
      else sector := by
    intro sector entry
    dsimp only
    split
    · exact keepsFile_setLstAccDate now.date sector entry
    · exact ⟨rfl, rfl⟩
  exact (keepsFile_setWrtTime now.date now.time).comp haccessed

theorem flush_spec (hg : Geometry g) (now : FatTime) (depth : Nat)
    (hs : OpenFile g s clus length data p) (hrange : FlushInRange s) :
    ∃ s', s.flush now (depth + 1) = (s', .ok ()) ∧ OpenFile g s' clus length data p := by
  by_cases hclean : s.handle.readWriteState &&& ReadWriteState.WRITE = 0
  · exact ⟨s, if_pos hclean, hs⟩
  · have hple := hs.position_le
    have hint := hrange hclean
    rw [hs.stands.position] at hint
    have hs₁ := hs.updateEntry hg (keepsFile_flushTimes now)
    obtain ⟨h₂, p₂, hwalk, hs₂, hp₂⟩ := flushWalk_spec hg hs₁
    have hback : FileState.newPosition ⟨(s.updateEntry (flushTimes now)).volume, h₂⟩
        s.handle.position SEEKORIGIN_BEGIN = some (p : Int) := by
      rw [FileState.newPosition, if_pos rfl, hs.stands.position]
    obtain ⟨h₃, hseek, -, hs₃⟩ := hs₂.seekWithin hg p hple (by
      rw [MoveInRange, hs₂.stands.position]
      split <;> omega)
    refine ⟨_, ?_, hs₃⟩
    rw [FileState.flush, if_neg hclean]
    dsimp only
    rw [hwalk, check_ok]
    change ((FileState.seek now (depth + 1) _ s.handle.position SEEKORIGIN_BEGIN).1, _) = _
    rw [seek_within hs₂ now depth hback hple, hseek]

end TinyClr.FatFileHandle
