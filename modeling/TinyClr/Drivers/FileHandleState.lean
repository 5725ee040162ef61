import TinyClr.Drivers.FileHandleSpec

/-!
# The state of an open file

An open file stands for its bytes and a position in them: the directory entry has its length and its
first cluster, the sectors of its clusters have the bytes, and the handle stands where its position
says.  A file without a cluster is empty.
-/

namespace TinyClr.FatFileHandle

open TinyClr.Library TinyClr.FatLogicDisk TinyClr.FatVolume

variable {g : LogicDisk} {v v' : Volume} {clus clus' : Nat → Nat} {length length' sect : Nat}
  {h : FileHandle} {p n q d : Nat} {s : FileState} {data : List UInt8}

/-! ### Directory entries -/

theorem getFstClus_eq (sector : Sector) (entry : Nat) :
    getFstClus sector entry = word16 sector (entry + 20) * 2 ^ 16 + word16 sector (entry + 26) :=
  shift_or 16 _ (word16_lt _ _)

theorem getFstClus_setFstClus (sector : Sector) (entry : Nat) {value : Nat} (h : value < 2 ^ 32) :
    getFstClus (setFstClus sector entry value) entry = value := by
  rw [getFstClus_eq, setFstClus, word16_memcpy_of_disjoint (by rw [length_bytes16]; omega),
    word16_memcpy, word16_memcpy,
    show value &&& 0xFFFF = value % 2 ^ 16 from and_mask 16 rfl value, Nat.shiftRight_eq_div_pow]
  omega

theorem getFileSize_setFileSize (sector : Sector) (entry : Nat) {value : Nat} (h : value < 2 ^ 32) :
    getFileSize (setFileSize sector entry value) entry = value := by
  rw [getFileSize, setFileSize, word32_memcpy, Nat.mod_eq_of_lt h]

@[simp] theorem getFileSize_setFstClus (sector : Sector) (entry value : Nat) :
    getFileSize (setFstClus sector entry value) entry = getFileSize sector entry := by
  rw [getFileSize, setFstClus, word32_memcpy_of_disjoint (by rw [length_bytes16]; omega),
    word32_memcpy_of_disjoint (by rw [length_bytes16]; omega), getFileSize]

@[simp] theorem getFstClus_setFileSize (sector : Sector) (entry value : Nat) :
    getFstClus (setFileSize sector entry value) entry = getFstClus sector entry := by
  rw [getFstClus, setFileSize, word16_memcpy_of_disjoint (by rw [length_bytes32]; omega),
    word16_memcpy_of_disjoint (by rw [length_bytes32]; omega), getFstClus]

def KeepsFile (change : Sector → Nat → Sector) : Prop :=
  ∀ sector entry, getFstClus (change sector entry) entry = getFstClus sector entry ∧
    getFileSize (change sector entry) entry = getFileSize sector entry

theorem keepsFile_setLstAccDate (date : Nat) :
    KeepsFile fun sector entry => setLstAccDate sector entry date := by
  intro sector entry
  dsimp only
  constructor
  · rw [getFstClus, setLstAccDate, word16_memcpy_of_disjoint (by rw [length_bytes16]; omega),
      word16_memcpy_of_disjoint (by rw [length_bytes16]; omega), getFstClus]
  · rw [getFileSize, setLstAccDate, word32_memcpy_of_disjoint (by rw [length_bytes16]; omega),
      getFileSize]

theorem keepsFile_setWrtTime (date time : Nat) :
    KeepsFile fun sector entry => setWrtTime sector entry date time := by
  intro sector entry
  dsimp only
  constructor
  · rw [getFstClus, setWrtTime]
    simp (disch := (try simp only [length_bytes16]) <;> omega) only [word16_memcpy_of_disjoint]
    rw [getFstClus]
  · rw [getFileSize, setWrtTime]
    simp (disch := (try simp only [length_bytes16]) <;> omega) only [word32_memcpy_of_disjoint]
    rw [getFileSize]

variable {change : Sector → Nat → Sector}

theorem KeepsFile.comp {change' : Sector → Nat → Sector} (h : KeepsFile change)
    (h' : KeepsFile change') : KeepsFile fun sector entry => change (change' sector entry) entry :=
  fun sector entry => ⟨((h _ entry).1).trans (h' sector entry).1,
    ((h _ entry).2).trans (h' sector entry).2⟩

/-! ### Open files -/

/-- The volume has the chain of the file, and its directory entry apart from it. -/
structure Placed (g : LogicDisk) (s : FileState) (clus : Nat → Nat) (length : Nat) : Prop where
  mounted : Mounted g s.volume
  chain : Chain g s.volume clus length
  apart : Apart g s.volume clus length s.handle.dirSectIndex

/-- Where the handle stands; a file without a cluster has no place but its start. -/
def Stands (g : LogicDisk) (clus : Nat → Nat) (length : Nat) (h : FileHandle) (p : Nat) : Prop :=
  (length = 0 ∧ p = 0 ∧ h.position = 0 ∧ h.dataIndex = 0) ∨
    ∃ q d, d ≤ 512 ∧ q / g.sectorsPerCluster < length ∧ 512 * q + d = p ∧
      h = standAt g clus h q d

/-- The clusters have the bytes of a file, and the handle stands at a position in them. -/
structure FileBody (g : LogicDisk) (s : FileState) (clus : Nat → Nat) (length : Nat)
    (data : List UInt8) (p : Nat) : Prop extends Placed g s clus length where
  fstClus : s.fstClus = if length = 0 then 0 else clus 0
  size_le : data.length ≤ length * clusSize g
  content : ∀ i < data.length, byteAt g s.volume clus i = data.getD i 0
  position_le : p ≤ data.length
  stands : Stands g clus length s.handle p

structure OpenFile (g : LogicDisk) (s : FileState) (clus : Nat → Nat) (length : Nat)
    (data : List UInt8) (p : Nat) : Prop extends FileBody g s clus length data p where
  fileSize : s.fileSize = data.length

theorem Stands.position (hs : Stands g clus length h p) : h.position = p := by
  rcases hs with ⟨-, rfl, hposition, -⟩ | ⟨q, d, -, -, rfl, hstand⟩
  · exact hposition
  · rw [hstand]
    rfl

theorem FileState.fileSize_lt (s : FileState) : s.fileSize < 2 ^ 32 := word32_lt _ _

theorem OpenFile.length_lt (hs : OpenFile g s clus length data p) : data.length < 2 ^ 32 :=
  hs.fileSize ▸ s.fileSize_lt

theorem Placed.updateEntry (hg : Geometry g) (hs : Placed g s clus length)
    (change : Sector → Nat → Sector) :
    Placed g (s.updateEntry change) clus length ∧
      (freeClusters g (s.updateEntry change).volume = freeClusters g s.volume) ∧
      ∀ i < length * clusSize g,
        byteAt g (s.updateEntry change).volume clus i = byteAt g s.volume clus i := by
  obtain ⟨hv, hfat⟩ := fat_setSector hg hs.mounted hs.apart.1
    (change (s.volume.sectors s.handle.dirSectIndex) s.handle.dirDataIndex)
  refine ⟨⟨hv, hs.chain.congr hfat, hs.apart.1, fun c hc => hs.apart.2 c (hc.congr hfat)⟩,
    freeClusters_congr hfat, fun i hi => ?_⟩
  have hk := byte_sector_lt hg hi
  refine congrFun (Function.update_of_ne (Ne.symm ?_) _ _) (i % 512)
  exact hs.apart.2 _ ⟨hs.chain.cluster _ hk, Or.inr ⟨_, hk, rfl⟩⟩ _ (Nat.mod_lt _ hg.perClus_pos)

theorem updateEntry_fstClus (s : FileState) (change : Sector → Nat → Sector) :
    (s.updateEntry change).fstClus =
      getFstClus (change (s.volume.sectors s.handle.dirSectIndex) s.handle.dirDataIndex)
        s.handle.dirDataIndex :=
  congrArg (getFstClus · _) (Function.update_self _ _ _)

theorem updateEntry_fileSize (s : FileState) (change : Sector → Nat → Sector) :
    (s.updateEntry change).fileSize =
      getFileSize (change (s.volume.sectors s.handle.dirSectIndex) s.handle.dirDataIndex)
        s.handle.dirDataIndex :=
  congrArg (getFileSize · _) (Function.update_self _ _ _)

theorem FileBody.updateEntry (hg : Geometry g) (hs : FileBody g s clus length data p)
    (hchange : ∀ sector entry, getFstClus (change sector entry) entry = getFstClus sector entry) :
    FileBody g (s.updateEntry change) clus length data p := by
  obtain ⟨hplaced, -, hbytes⟩ := hs.toPlaced.updateEntry hg change
  refine ⟨hplaced, ?_, hs.size_le, fun i hi => ?_, hs.position_le, hs.stands⟩
  · rw [updateEntry_fstClus, hchange]
    exact hs.fstClus
  · rw [hbytes i (hi.trans_le hs.size_le)]
    exact hs.content i hi

theorem OpenFile.updateEntry (hg : Geometry g) (hs : OpenFile g s clus length data p)
    (hchange : KeepsFile change) :
    OpenFile g (s.updateEntry change) clus length data p := by
  refine ⟨hs.toFileBody.updateEntry hg fun sector entry => (hchange sector entry).1, ?_⟩
  rw [updateEntry_fileSize, (hchange _ _).2]
  exact hs.fileSize

theorem FileBody.setFileSize (hg : Geometry g) (hs : FileBody g s clus length data p)
    (hlt : data.length < 2 ^ 32) :
    OpenFile g (s.updateEntry fun sector entry => setFileSize sector entry data.length) clus length
      data p := by
  refine ⟨hs.updateEntry hg fun sector entry => getFstClus_setFileSize sector entry _, ?_⟩
  rw [updateEntry_fileSize, getFileSize_setFileSize _ _ hlt]

end TinyClr.FatFileHandle
