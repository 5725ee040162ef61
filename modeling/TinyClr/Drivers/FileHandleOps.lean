import Mathlib.Data.Int.Order.Basic
import TinyClr.Drivers.FileHandleState
import TinyClr.Library.Splice

/-!
# The operations on an open file

Each operation of a handle, on an open file that stands for its bytes and a position, makes of it an
open file for the bytes and the position that the operation asks for, as long as the numbers that
the code converts to `int` are less than 2 ^ 31.
-/

namespace TinyClr.FatFileHandle

open TinyClr.Library TinyClr.FatLogicDisk TinyClr.FatVolume

variable {g : LogicDisk} {v v' : Volume} {clus clus' : Nat → Nat} {length length' sect : Nat}
  {h h' : FileHandle} {p p' n q d new : Nat} {s s' : FileState} {data : List UInt8}

/-! ### Moving the handle -/

theorem OpenFile.moved (hs : OpenFile g s clus length data p) (hstands : Stands g clus length h' p')
    (hsect : h'.dirSectIndex = s.handle.dirSectIndex)
    (hdata : h'.dirDataIndex = s.handle.dirDataIndex) (hp : p' ≤ data.length) :
    OpenFile g ⟨s.volume, h'⟩ clus length data p' := by
  refine ⟨⟨⟨hs.mounted, hs.chain, ?_⟩, ?_, hs.size_le, hs.content, hp, hstands⟩, ?_⟩
  · change Apart g s.volume clus length h'.dirSectIndex
    rw [hsect]
    exact hs.apart
  · change getFstClus (s.volume.sectors h'.dirSectIndex) h'.dirDataIndex = _
    rw [hsect, hdata]
    exact hs.fstClus
  · change getFileSize (s.volume.sectors h'.dirSectIndex) h'.dirDataIndex = _
    rw [hsect, hdata]
    exact hs.fileSize

theorem restart_eq (hg : Geometry g) (hv : Mounted g s.volume)
    (hchain : Chain g s.volume clus length) (hlength : 0 < length) (hfst : s.fstClus = clus 0) :
    s.restart = ⟨s.volume, standAt g clus s.handle 0 0⟩ := by
  have hsect : s.volume.disk.clusToSect (clus 0) = fileSector g clus 0 := by
    rw [clusToSect_eq hg hv (hchain.cluster 0 hlength), fileSector, Nat.zero_div, Nat.zero_mod]
  rw [FileState.restart, hfst, hsect, standAt, Nat.zero_div]
  rfl

variable {x : Int}

theorem seekWithin_eq_back (hback : x - s.handle.position < 0)
    (hin : -(x - s.handle.position) ≤ s.handle.dataIndex) :
    s.seekWithin x =
      (⟨s.volume, { s.handle with
        dataIndex := uint32 (s.handle.dataIndex + (x - s.handle.position))
        position := s.handle.position + (x - s.handle.position) }⟩,
        .ok (s.handle.position + (x - s.handle.position))) := if_pos ⟨hback, hin⟩

theorem seekWithin_eq_restart (hback : x - s.handle.position < 0)
    (hin : ¬ -(x - s.handle.position) ≤ s.handle.dataIndex) :
    s.seekWithin x = check (readWriteSeekHelper .seek s.restart none (int32 x))
      fun s _ => (s, .ok s.handle.position) := by
  rw [FileState.seekWithin]
  dsimp only
  rw [if_neg fun h => hin h.2, if_pos hback]

theorem seekWithin_eq_forward (hforward : ¬ x - s.handle.position < 0) :
    s.seekWithin x =
      check (readWriteSeekHelper .seek s none (int32 (x - s.handle.position)))
        fun s _ => (s, .ok s.handle.position) := by
  rw [FileState.seekWithin]
  dsimp only
  rw [if_neg fun h => hforward h.1, if_neg hforward]

theorem seekWithin_same (hp : s.handle.position = p) :
    s.seekWithin p = (s, .ok (p : Int)) := by
  have hzero : ((p : Int) - s.handle.position) = 0 := by omega
  rw [seekWithin_eq_forward (by omega), hzero]
  change check (helperLoop .seek _ s none 0 [] 0) _ = _
  rw [helperLoop_zero, check_ok, hp]

theorem seekWithin_back (hlt : new < 512 * q + d) (hin : 512 * q + d - new ≤ d) (hd : d ≤ 512) :
    FileState.seekWithin ⟨v, standAt g clus h q d⟩ new =
      (⟨v, standAt g clus h q (d - (512 * q + d - new))⟩, .ok (new : Int)) := by
  have hoffset : (new : Int) - (512 * q + d : Nat) < 0 := by omega
  have hindex : -((new : Int) - (512 * q + d : Nat)) ≤ (d : Int) := by omega
  have hdata : uint32 ((d : Int) + ((new : Int) - (512 * q + d : Nat))) =
      d - (512 * q + d - new) := by
    rw [uint32_eq_toNat (by omega) (by omega)]
    omega
  have hposition : ((512 * q + d : Nat) : Int) + ((new : Int) - (512 * q + d : Nat)) =
      (512 * q + (d - (512 * q + d - new)) : Nat) := by omega
  have hnew : ((512 * q + (d - (512 * q + d - new)) : Nat) : Int) = new := by omega
  rw [seekWithin_eq_back hoffset hindex]
  simp only [standAt, hdata, hposition, hnew]

/-- The handle goes on by a distance that is an `int`. -/
theorem seekHelper_spec (hg : Geometry g) (hv : Mounted g v) (hchain : Chain g v clus length)
    (hd : d ≤ 512) (hq : q / g.sectorsPerCluster < length)
    (hroom : 512 * q + d + n ≤ length * clusSize g) (hint : n < 2 ^ 31) :
    ∃ q' d', d' ≤ 512 ∧ q' / g.sectorsPerCluster < length ∧ 512 * q' + d' = 512 * q + d + n ∧
      (0 < n → 0 < d') ∧
      check (readWriteSeekHelper .seek ⟨v, standAt g clus h q d⟩ none (int32 n))
        (fun s _ => (s, .ok s.handle.position)) =
          (⟨v, standAt g clus h q' d'⟩, .ok ((512 * q + d + n : Nat) : Int)) := by
  obtain ⟨q', d', hd', hq', heq, -, hmoved, hloop⟩ := helperLoop_moves (h := h)
    (show Helper.seek ≠ .write by simp) hg hv hchain n n q d none [] 0 hd hq hroom le_rfl
  refine ⟨q', d', hd', hq', heq, hmoved, ?_⟩
  have hsize : (int32 n).toNat = n := by
    rw [int32_eq_self (by omega) (by omega)]
    exact Int.toNat_natCast n
  rw [readWriteSeekHelper, hsize, hloop, check_ok, ← heq]
  rfl

theorem seekWithin_forward (hg : Geometry g) (hv : Mounted g v) (hchain : Chain g v clus length)
    (hd : d ≤ 512) (hq : q / g.sectorsPerCluster < length) (hle : 512 * q + d ≤ new)
    (hnew : new ≤ length * clusSize g) (hint : new - (512 * q + d) < 2 ^ 31) :
    ∃ q' d', d' ≤ 512 ∧ q' / g.sectorsPerCluster < length ∧ 512 * q' + d' = new ∧
      FileState.seekWithin ⟨v, standAt g clus h q d⟩ new =
        (⟨v, standAt g clus h q' d'⟩, .ok (new : Int)) := by
  obtain ⟨n, rfl⟩ := Nat.exists_eq_add_of_le hle
  obtain ⟨q', d', hd', hq', heq, -, hhelper⟩ :=
    seekHelper_spec (h := h) (n := n) hg hv hchain hd hq hnew (by omega)
  refine ⟨q', d', hd', hq', heq, ?_⟩
  have hoffset : ((512 * q + d + n : Nat) : Int) - (512 * q + d : Nat) = n := by omega
  rw [seekWithin_eq_forward (by change ¬ ((512 * q + d + n : Nat) : Int) - (512 * q + d : Nat) < 0
                                omega)]
  change check (readWriteSeekHelper .seek _ none
    (int32 (((512 * q + d + n : Nat) : Int) - (512 * q + d : Nat)))) _ = _
  rw [hoffset, hhelper]

theorem seekWithin_restart (new : Nat) (hg : Geometry g) (hv : Mounted g s.volume)
    (hchain : Chain g s.volume clus length) (hlength : 0 < length) (hfst : s.fstClus = clus 0)
    (hback : (new : Int) < s.handle.position)
    (hout : ¬ s.handle.position - new ≤ s.handle.dataIndex) (hnew : new ≤ length * clusSize g)
    (hint : new < 2 ^ 31) :
    ∃ q' d', d' ≤ 512 ∧ q' / g.sectorsPerCluster < length ∧ 512 * q' + d' = new ∧
      s.seekWithin new = (⟨s.volume, standAt g clus s.handle q' d'⟩, .ok (new : Int)) := by
  obtain ⟨q', d', hd', hq', heq, -, hhelper⟩ :=
    seekHelper_spec (h := s.handle) (q := 0) (d := 0) (n := new) hg hv hchain (by omega)
      ((Nat.zero_div _).symm ▸ hlength) (by omega) hint
  simp only [Nat.mul_zero, Nat.zero_add] at heq hhelper
  refine ⟨q', d', hd', hq', heq, ?_⟩
  rw [seekWithin_eq_restart (by omega) (by omega), restart_eq hg hv hchain hlength hfst, hhelper]

/-- `Seek` inside the file: forward by an `int`, back in the sector, or from the start to an
    `int`. -/
def MoveInRange (s : FileState) (new : Nat) : Prop :=
  if (new : Int) < s.handle.position then
    s.handle.position - new ≤ s.handle.dataIndex ∨ new < 2 ^ 31
  else new - s.handle.position < 2 ^ 31

theorem OpenFile.place (hs : OpenFile g s clus length data p) (hdata : 0 < data.length) :
    0 < length ∧ ∃ q d, d ≤ 512 ∧ q / g.sectorsPerCluster < length ∧ 512 * q + d = p ∧
      s = ⟨s.volume, standAt g clus s.handle q d⟩ := by
  have hsize := hs.size_le
  rcases hs.stands with ⟨rfl, -⟩ | ⟨q, d, hd, hq, hp, hstand⟩
  · rw [Nat.zero_mul] at hsize
    omega
  · exact ⟨Nat.zero_lt_of_lt hq, q, d, hd, hq, hp, congrArg (FileState.mk s.volume) hstand⟩

theorem OpenFile.clusIndex_ne (hs : OpenFile g s clus length data p) (hlength : 0 < length) :
    s.handle.clusIndex ≠ 0 := by
  rcases hs.stands with ⟨hzero, -⟩ | ⟨q, d, -, hq, -, hstand⟩
  · omega
  · have hcluster := (hs.chain.cluster _ hq).1
    rw [hstand]
    change clus (q / g.sectorsPerCluster) ≠ 0
    omega

theorem OpenFile.atPlace (hs : OpenFile g s clus length data p) (hd : d ≤ 512)
    (hq : q / g.sectorsPerCluster < length) (hp : 512 * q + d ≤ data.length) :
    OpenFile g ⟨s.volume, standAt g clus s.handle q d⟩ clus length data (512 * q + d) :=
  hs.moved (Or.inr ⟨q, d, hd, hq, rfl, rfl⟩) rfl rfl hp

theorem OpenFile.seekWithin (hg : Geometry g) (hs : OpenFile g s clus length data p) (new : Nat)
    (hnew : new ≤ data.length) (hmove : MoveInRange s new) :
    ∃ h', s.seekWithin new = (⟨s.volume, h'⟩, .ok (new : Int)) ∧
      h'.readWriteState = s.handle.readWriteState ∧
      OpenFile g ⟨s.volume, h'⟩ clus length data new := by
  have hposition := hs.stands.position
  have hple := hs.position_le
  have hroom : new ≤ length * clusSize g := hnew.trans hs.size_le
  unfold MoveInRange at hmove
  rw [hposition] at hmove
  rcases Nat.lt_trichotomy p new with hlt | rfl | hlt
  · obtain ⟨-, q, d, hd, hq, rfl, heq⟩ := hs.place (by omega)
    rw [if_neg (by omega)] at hmove
    obtain ⟨q', d', hd', hq', rfl, hseek⟩ := seekWithin_forward (h := s.handle) hg hs.mounted
      hs.chain hd hq hlt.le hroom (by omega)
    exact ⟨_, (congrArg (FileState.seekWithin · _) heq).trans hseek, rfl,
      hs.atPlace hd' hq' hnew⟩
  · exact ⟨s.handle, seekWithin_same hposition, rfl, hs⟩
  · obtain ⟨hlength, q, d, hd, hq, rfl, heq⟩ := hs.place (by omega)
    have hindex : s.handle.dataIndex = d := by rw [heq]; rfl
    rw [if_pos (by omega), hindex] at hmove
    by_cases hin : 512 * q + d - new ≤ d
    · refine ⟨_, (congrArg (FileState.seekWithin · _) heq).trans (seekWithin_back hlt hin hd),
        rfl, ?_⟩
      have hmoved := hs.atPlace (q := q) (d := d - (512 * q + d - new)) (by omega) hq (by omega)
      rwa [show 512 * q + (d - (512 * q + d - new)) = new by omega] at hmoved
    · have hfst : s.fstClus = clus 0 := by rw [hs.fstClus, if_neg (by omega)]
      obtain ⟨q', d', hd', hq', rfl, hseek⟩ := seekWithin_restart new hg hs.mounted hs.chain hlength
        hfst (by omega) (by omega) hroom (by omega)
      exact ⟨_, hseek, rfl, hs.atPlace hd' hq' hnew⟩

/-! ### `Write` -/

/-- The first cluster of an empty file -/
theorem allocateFirst_spec (hg : Geometry g) (hs : OpenFile g s clus 0 data p)
    (hfree : (freeClusters g s.volume).Nonempty) :
    ∃ s' c, s.allocateFirst = (s', .ok ()) ∧ OpenFile g s' (fun _ => c) 1 data p ∧
      (freeClusters g s.volume).card ≤ 1 + (freeClusters g s'.volume).card := by
  obtain ⟨v₁, c, hfound, hmem, hv₁, hfat₁, hframe₁⟩ := getNextFreeClus_spec hg hs.mounted hfree
  obtain ⟨hc, hnone⟩ := mem_freeClusters.mp hmem
  obtain ⟨hsect, hapart⟩ := hs.apart
  obtain ⟨hv₂, hfat₂⟩ := fat_setSector hg hv₁ hsect
    (setFstClus (v₁.sectors s.handle.dirSectIndex) s.handle.dirDataIndex c)
  generalize hv₂_eq : v₁.setSector s.handle.dirSectIndex
    (setFstClus (v₁.sectors s.handle.dirSectIndex) s.handle.dirDataIndex c) = v₂ at hv₂ hfat₂
  have hentry : v₂.sectors s.handle.dirSectIndex =
      setFstClus (v₁.sectors s.handle.dirSectIndex) s.handle.dirDataIndex c := by
    rw [← hv₂_eq]
    exact Function.update_self _ _ _
  obtain ⟨hended, -⟩ := writeFAT_spec hg hv₂ hc (endMark_eof_lt g.isFAT16)
  have hothers : ∀ d, IsCluster g d → d ≠ c →
      (v₂.writeFAT c CLUST_EOF).1.fat d = s.volume.fat d := fun d hd hne => by
    rw [hended.others d hd.2 hne, hfat₂ d hd.2, hfat₁ d hd.2]
  have hentry' : (v₂.writeFAT c CLUST_EOF).1.sectors s.handle.dirSectIndex =
      setFstClus (s.volume.sectors s.handle.dirSectIndex) s.handle.dirDataIndex c := by
    rw [hended.frame _ hsect, hentry, hframe₁ _ hsect]
  have hempty : data.length = 0 := by
    have := hs.size_le
    omega
  have hp : p = 0 := by
    have := hs.position_le
    omega
  have hc_lt : c < 2 ^ 32 := by
    have := hg.totalClusterCount_lt
    have := hc.2
    omega
  refine ⟨⟨(v₂.writeFAT c CLUST_EOF).1, standAt g (fun _ => c) s.handle 0 0⟩, c, ?_,
    ⟨⟨⟨hended.mounted, ?_, hsect, fun d hd => ?_⟩, ?_, ?_, fun i hi => ?_, hp ▸ Nat.zero_le _, ?_⟩,
      ?_⟩, ?_⟩
  · have hplace : (v₂.writeFAT c CLUST_EOF).1.disk.clusToSect c = fileSector g (fun _ => c) 0 := by
      rw [clusToSect_eq hg hended.mounted hc, fileSector, Nat.zero_mod]
    have hdone : s.allocateFirst = (⟨(v₂.writeFAT c CLUST_EOF).1,
        { s.handle with
          position := 0
          clusIndex := c
          sectIndex := (v₂.writeFAT c CLUST_EOF).1.disk.clusToSect c
          dataIndex := 0 }⟩, .ok ()) := by
      rw [FileState.allocateFirst, hfound, ← hv₂_eq]
      rfl
    rw [hdone, hplace]
    rfl
  · refine ⟨fun _ _ => hc, fun i hi j hj _ => by omega, fun i hi => by omega, fun _ _ => ?_⟩
    rw [hended.link, getClusType_endMark]
    exact ClusType.noConfusion
  · refine hapart d ⟨hd.1, Or.inl ?_⟩
    by_cases heq : d = c
    · exact heq ▸ hnone
    · rcases hd.2 with hzero | ⟨_, _, hclus⟩
      · exact hothers d hd.1 heq ▸ hzero
      · exact absurd hclus.symm heq
  · rw [if_neg Nat.one_ne_zero]
    change getFstClus ((v₂.writeFAT c CLUST_EOF).1.sectors s.handle.dirSectIndex)
      s.handle.dirDataIndex = c
    rw [hentry', getFstClus_setFstClus _ _ hc_lt]
  · omega
  · omega
  · exact Or.inr ⟨0, 0, by omega, by rw [Nat.zero_div]; exact Nat.one_pos, hp.symm, rfl⟩
  · change getFileSize ((v₂.writeFAT c CLUST_EOF).1.sectors s.handle.dirSectIndex)
      s.handle.dirDataIndex = data.length
    rw [hentry', getFileSize_setFstClus]
    exact hs.fileSize
  · rw [Nat.add_comm]
    exact card_freeClusters_le c fun d hd hne hzero => (hothers d hd hne).trans hzero

def wholeClusters (g : LogicDisk) (size : Nat) : Nat := (size + (clusSize g - 1)) / clusSize g

def HasRoom (g : LogicDisk) (s : FileState) (size : Nat) : Prop :=
  size ≤ (wholeClusters g s.fileSize + (freeClusters g s.volume).card) * clusSize g

theorem clusSize_pos (hg : Geometry g) : 0 < clusSize g := by
  have := hg.perClus_pos
  unfold clusSize
  omega

theorem wholeClusters_le (hg : Geometry g) (h : n ≤ length * clusSize g) :
    wholeClusters g n ≤ length := by
  have hpos := clusSize_pos hg
  rw [wholeClusters, Nat.div_le_iff_le_mul hpos]
  omega

theorem HasRoom.room (hg : Geometry g) (hs : OpenFile g s clus length data p)
    (hroom : HasRoom g s n) : n ≤ (length + (freeClusters g s.volume).card) * clusSize g :=
  hroom.trans (Nat.mul_le_mul_right _ (Nat.add_le_add_right
    (wholeClusters_le hg (hs.fileSize ▸ hs.size_le)) _))

variable {src : List UInt8}

theorem OpenFile.wrote {q' d' : Nat}
    (hs : OpenFile g s clus length data p) (hlength : 0 < length)
    (hwrote : Wrote g s.handle.dirSectIndex s.volume clus length v' clus' length' p src.length
      fun i => src.getD i 0)
    (hd : d' ≤ 512) (hq : q' / g.sectorsPerCluster < length') (hend : 512 * q' + d' = p + src.length) :
    FileBody g ⟨v', standAt g clus' s.handle q' d'⟩ clus' length' (splice data p src)
        (p + src.length) ∧
      FileState.fileSize ⟨v', standAt g clus' s.handle q' d'⟩ = data.length := by
  have hmono : length * clusSize g ≤ length' * clusSize g := Nat.mul_le_mul_right _ hwrote.le
  have hcovers := hwrote.covers
  have hsize := hs.size_le
  have hp := hs.position_le
  have hlen : (splice data p src).length = max data.length (p + src.length) := length_splice hp
  refine ⟨⟨⟨hwrote.mounted, hwrote.chain, hs.apart.wrote hwrote⟩, ?_, by omega, fun i hi => ?_,
    by omega, Or.inr ⟨q', d', hd, hq, hend, rfl⟩⟩, ?_⟩
  · change getFstClus (v'.sectors s.handle.dirSectIndex) s.handle.dirDataIndex = _
    have hle := hwrote.le
    rw [hwrote.entry, if_neg (by omega), hwrote.same 0 hlength]
    have hfst := hs.fstClus
    rwa [if_neg (by omega)] at hfst
  · rw [hwrote.content i (by omega) (by omega), getD_splice hp]
    rcases Nat.lt_or_ge i p with hlow | hlow
    · rw [overlay_outside (Or.inl hlow), overlay_outside (Or.inl hlow)]
      exact hs.content i (by omega)
    · rcases Nat.lt_or_ge i (p + src.length) with hhigh | hhigh
      · rw [overlay_inside hlow hhigh, overlay_inside hlow hhigh]
      · rw [overlay_outside (Or.inr hhigh), overlay_outside (Or.inr hhigh)]
        exact hs.content i (by omega)
  · change getFileSize (v'.sectors s.handle.dirSectIndex) s.handle.dirDataIndex = _
    rw [hwrote.entry]
    exact hs.fileSize

theorem OpenFile.flags (hs : OpenFile g s clus length data p) (flags : Nat) :
    OpenFile g ⟨s.volume, { s.handle with readWriteState := flags }⟩ clus length data p := by
  refine hs.moved ?_ rfl rfl hs.position_le
  rcases hs.stands with ⟨hlength, hp, hposition, hindex⟩ | ⟨q, d, hd, hq, hp, hstand⟩
  · exact Or.inl ⟨hlength, hp, hposition, hindex⟩
  · refine Or.inr ⟨q, d, hd, hq, hp, ?_⟩
    rw [hstand]
    rfl

theorem finishWrite_spec (hg : Geometry g) (now : FatTime) {oldLength : Nat}
    (hs : FileBody g s clus length data p) (hsize : s.fileSize = oldLength)
    (hdata : data.length = max oldLength p) (hlt : data.length < 2 ^ 32) :
    OpenFile g (s.finishWrite now) clus length data p ∧
      (s.finishWrite now).handle.dataIndex = s.handle.dataIndex := by
  have hposition := hs.stands.position
  have hkeeps : KeepsFile fun sector entry =>
      setLstAccDate (setWrtTime sector entry now.date now.time) entry now.date :=
    (keepsFile_setLstAccDate now.date).comp (keepsFile_setWrtTime now.date now.time)
  by_cases hgrown : (s.fileSize : Int) < s.handle.position
  · have hlength : data.length = uint32 s.handle.position := by
      rw [hposition, uint32_nat (by omega)]
      omega
    have hsized := hs.setFileSize hg hlt
    rw [hlength] at hsized
    unfold FileState.finishWrite
    rw [if_pos hgrown]
    exact ⟨(hsized.flags _).updateEntry hg hkeeps, rfl⟩
  · unfold FileState.finishWrite
    rw [if_neg hgrown]
    have hopen : OpenFile g s clus length data p := ⟨hs, by omega⟩
    exact ⟨(hopen.flags _).updateEntry hg hkeeps, rfl⟩

theorem write_bytes (hg : Geometry g) (now : FatTime) (hs : OpenFile g s clus length data p)
    (hlength : 0 < length) {buffer : Option (List UInt8)}
    (hbuffer : Supplies buffer src.length fun i => src.getD i 0)
    (hroom : p + src.length ≤ (length + (freeClusters g s.volume).card) * clusSize g)
    (hlt : p + src.length < 2 ^ 32) :
    ∃ s' clus' length',
      check (readWriteSeekHelper .write s buffer src.length)
        (fun s result => (s.finishWrite now, .ok result.2)) = (s', .ok src.length) ∧
      OpenFile g s' clus' length' (splice data p src) (p + src.length) ∧
      (0 < src.length → ∃ q d, 0 < d ∧ d ≤ 512 ∧ 512 * q + d = p + src.length ∧
        s'.handle.dataIndex = d) := by
  rcases hs.stands with ⟨hzero, -⟩ | ⟨q, d, hd, hq, rfl, hstand⟩
  · omega
  · have heq : s = ⟨s.volume, standAt g clus s.handle q d⟩ := congrArg (FileState.mk s.volume) hstand
    obtain ⟨v', clus', length', q', d', hd', hq', hend, -, hmoved, hwrote, hloop⟩ :=
      helperLoop_writes (h := s.handle) hg src.length src.length q d
        s.volume clus length buffer _ [] 0 hs.mounted hs.chain hs.apart hd hq hroom le_rfl hbuffer
    obtain ⟨hbody, hsize⟩ := hs.wrote hlength hwrote hd' hq' hend
    have hdata : (splice data _ src).length = _ := length_splice hs.position_le
    have hold := hs.length_lt
    obtain ⟨hopen, hindex⟩ := finishWrite_spec hg now hbody hsize hdata (by omega)
    refine ⟨_, clus', length', ?_, hopen, fun hpos => ⟨q', d', hmoved hpos, hd', hend, hindex⟩⟩
    have hhelper : readWriteSeekHelper .write s buffer src.length =
        (⟨v', standAt g clus' s.handle q' d'⟩, .ok ([], 0 + src.length)) := by
      rw [readWriteSeekHelper, Int.toNat_natCast]
      exact (congrArg (helperLoop .write _ · _ _ _ _) heq).trans hloop
    rw [hhelper, check_ok, Nat.zero_add]

theorem write_spec (hg : Geometry g) (now : FatTime) (hs : OpenFile g s clus length data p)
    {buffer : Option (List UInt8)}
    (hbuffer : Supplies buffer src.length fun i => src.getD i 0)
    (hroom : HasRoom g s (p + src.length))
    (hfirst : s.fstClus = 0 → (freeClusters g s.volume).Nonempty)
    (hlt : p + src.length < 2 ^ 32) :
    ∃ s' clus' length', s.write now buffer src.length = (s', .ok src.length) ∧
      OpenFile g s' clus' length' (splice data p src) (p + src.length) ∧
      (0 < src.length → ∃ q d, 0 < d ∧ d ≤ 512 ∧ 512 * q + d = p + src.length ∧
        s'.handle.dataIndex = d) := by
  have hroom' := hroom.room hg hs
  have hsize : ¬ (src.length : Int) < 0 := by omega
  rcases Nat.eq_zero_or_pos length with rfl | hlength
  · have hfst : s.fstClus = 0 := hs.fstClus
    obtain ⟨s₁, c, hallocated, hs₁, hcard⟩ := allocateFirst_spec hg hs (hfirst hfst)
    obtain ⟨s', clus', length', hwrite, hopen, hindex⟩ := write_bytes hg now hs₁ Nat.one_pos hbuffer
      (hroom'.trans (Nat.mul_le_mul_right _ (by omega))) hlt
    refine ⟨s', clus', length', ?_, hopen, hindex⟩
    rw [FileState.write, if_neg hsize]
    dsimp only
    rw [if_pos hfst, hallocated, check_ok, hwrite]
  · obtain ⟨s', clus', length', hwrite, hopen, hindex⟩ :=
      write_bytes hg now hs hlength hbuffer hroom' hlt
    have hfst : s.fstClus ≠ 0 := by
      have hcluster := (hs.chain.cluster 0 hlength).1
      rw [hs.fstClus, if_neg (by omega)]
      omega
    refine ⟨s', clus', length', ?_, hopen, hindex⟩
    rw [FileState.write, if_neg hsize]
    dsimp only
    rw [if_neg hfst, if_neg (hs.clusIndex_ne hlength), check_ok, hwrite]

/-! ### `Read` -/

theorem clampPosition_eq (hs : OpenFile g s clus length data p) : s.clampPosition = s := by
  have hp := hs.position_le
  have hsize := hs.fileSize
  refine if_neg ?_
  rw [hs.stands.position]
  omega

def readResult (data : List UInt8) (p n : Nat) : Option (List UInt8 × Nat) :=
  if data.length = p then none
  else some ((data.drop p).take n, min n (data.length - p))

theorem readBytes_eq (hs : OpenFile g s clus length data p) (hn : p + n ≤ data.length) :
    readBytes g s.volume clus .read p n = (data.drop p).take n := by
  refine List.ext_getElem? fun i => ?_
  rw [readBytes, if_pos rfl, List.getElem?_map]
  rcases Nat.lt_or_ge i n with hi | hi
  · rw [List.getElem?_range hi, List.getElem?_take_of_lt hi, List.getElem?_drop, Option.map_some,
      hs.content _ (by omega), List.getD_eq_getElem _ _ (by omega),
      List.getElem?_eq_getElem (by omega)]
  · rw [List.getElem?_eq_none (by rw [List.length_range]; exact hi), Option.map_none,
      List.getElem?_eq_none (by rw [List.length_take]; omega)]

theorem readLimit {rest : Nat} (hpos : 0 < rest) (hlt : rest < 2 ^ 32)
    (hrest : n = 0 ∨ rest < 2 ^ 31) :
    int32 (rest : Nat) ≠ 0 ∧
      (if int32 (rest : Nat) < n then int32 (rest : Nat) else (n : Int)).toNat = min n rest := by
  rcases Nat.lt_or_ge rest (2 ^ 31) with hshort | hlong
  · rw [int32_eq_self (by omega) (by omega)]
    refine ⟨by omega, ?_⟩
    split <;> omega
  · rw [int32_eq_sub (by omega) (by omega)]
    refine ⟨by omega, ?_⟩
    split <;> omega

theorem read_spec (hg : Geometry g) (now : FatTime) (hs : OpenFile g s clus length data p)
    (hint : n < 2 ^ 31) (hrest : n = 0 ∨ data.length - p < 2 ^ 31) :
    ∃ s', s.read now n = (s', .ok (readResult data p n)) ∧
      OpenFile g s' clus length data (p + min n (data.length - p)) := by
  have hple := hs.position_le
  have hlt := hs.length_lt
  have hsize : ¬ (n : Int) < 0 := by omega
  have hreach : p + min n (data.length - p) ≤ data.length := by omega
  have hlimit : (s.fileSize : Int) - s.handle.position = (data.length - p : Nat) := by
    rw [hs.fileSize, hs.stands.position]
    omega
  rw [FileState.read, if_neg hsize, clampPosition_eq hs]
  dsimp only
  rw [hlimit]
  by_cases hend : data.length = p
  · have hzero : int32 (data.length - p : Nat) = 0 := int32_eq_self (by omega) (by omega) |>.trans
      (by omega)
    rw [if_pos hzero, readResult, if_pos hend, hend, Nat.sub_self, Nat.min_zero]
    exact ⟨s, rfl, hs⟩
  · obtain ⟨hlength, q, d, hd, hq, hp, heq⟩ := hs.place (by omega)
    obtain ⟨hzero, htake⟩ := readLimit (show 0 < data.length - p by omega) (by omega) hrest
    have hroom := hreach.trans hs.size_le
    obtain ⟨q', d', hd', hq', hplace, -, -, hloop⟩ := helperLoop_moves (h := s.handle)
      (show Helper.read ≠ .write by simp) hg hs.mounted hs.chain (min n (data.length - p))
      (min n (data.length - p)) q d none [] 0 hd hq (hp.symm ▸ hroom) le_rfl
    rw [hp] at hplace hloop
    have hhelper : readWriteSeekHelper .read s none
        (if int32 (data.length - p : Nat) < n then int32 (data.length - p : Nat) else n) =
        (⟨s.volume, FatFileHandle.standAt g clus s.handle q' d'⟩,
          .ok ((data.drop p).take n, min n (data.length - p))) := by
      rw [readWriteSeekHelper, htake]
      refine ((congrArg (helperLoop .read _ · _ _ _ _) heq).trans hloop).trans ?_
      rw [readBytes_eq hs hreach, if_pos rfl, List.nil_append, Nat.zero_add,
        ← List.length_drop, ← List.take_eq_take_min]
    rw [if_neg hzero, if_neg (hs.clusIndex_ne hlength), hhelper, check_ok, readResult, if_neg hend]
    refine ⟨_, rfl, ?_⟩
    rw [← hplace] at hreach ⊢
    exact ((hs.atPlace hd' hq' hreach).flags _).updateEntry hg (keepsFile_setLstAccDate now.date)

end TinyClr.FatFileHandle
