import TinyClr.Drivers.FileResize
import TinyClr.Library.Runs

/-!
# A file handle as an array of bytes

An open file is an array of bytes with a position: `ByteFile` says what each call makes of them, and
a handle agrees with it, in what the calls give back and in the bytes, the length and the position,
over every sequence of calls that stays clear of the conversions and the truncation that go wrong.
-/

namespace TinyClr.FatFileHandle

open TinyClr.Library TinyClr.FatLogicDisk TinyClr.FatVolume

inductive FileOp where
  | read (size : Nat)
  | write (buffer : List UInt8)
  | seek (offset : Int) (origin : Nat)
  | setLength (length : Int)
  | getLength
  | flush

inductive Reply where
  | read (bytes : Option (List UInt8 × Nat))
  | written (count : Nat)
  | position (x : Int)
  | length (n : Nat)
  | done
deriving DecidableEq

/-! ### The array of bytes -/

structure ByteFile where
  data : List UInt8
  position : Nat

/-- The position that a call of `Seek` is for -/
def ByteFile.target (f : ByteFile) (offset : Int) (origin : Nat) : Option Int :=
  if origin = SEEKORIGIN_BEGIN then some offset
  else if origin = SEEKORIGIN_CURRENT then some (f.position + offset)
  else if origin = SEEKORIGIN_END then some (f.data.length + offset)
  else none

def ByteFile.seek (f : ByteFile) (offset : Int) (origin : Nat) :
    ByteFile × Except FileFailure Reply :=
  match f.target offset origin with
  | none => (f, .error .invalidParameter)
  | some x =>
      if x < 0 then (f, .error .fileError)
      else if 0xFFFFFFFF < x then (f, .error .outOfRange)
      else
        let n := x.toNat
        (⟨if f.data.length < n then resize f.data n 0 else f.data, n⟩, .ok (.position x))

def ByteFile.setLength (f : ByteFile) (x : Int) : ByteFile × Except FileFailure Reply :=
  if x < 0 ∨ 0xFFFFFFFF < x then (f, .error .outOfRange)
  else
    let n := x.toNat
    (⟨resize f.data n 0, min f.position n⟩, .ok .done)

/-- What a call makes of an array of bytes -/
def ByteFile.step (f : ByteFile) : FileOp → ByteFile × Except FileFailure Reply
  | .read size =>
      (⟨f.data, f.position + min size (f.data.length - f.position)⟩,
        .ok (.read (readResult f.data f.position size)))
  | .write buffer =>
      (⟨splice f.data f.position buffer, f.position + buffer.length⟩, .ok (.written buffer.length))
  | .seek offset origin => f.seek offset origin
  | .setLength x => f.setLength x
  | .getLength => (f, .ok (.length f.data.length))
  | .flush => (f, .ok .done)

/-! ### The handle -/

def reply {α : Type} (wrap : α → Reply) (r : FileState × Except FileFailure α) :
    FileState × Except FileFailure Reply :=
  (r.1, r.2.map wrap)

/-- A call of the handle, at a time of day -/
def FileState.step (depth : Nat) (s : FileState) (now : FatTime) :
    FileOp → FileState × Except FileFailure Reply
  | .read size => reply .read (s.read now size)
  | .write buffer => reply .written (s.write now (some buffer) buffer.length)
  | .seek offset origin => reply .position (FileState.seek now depth s offset origin)
  | .setLength x => reply (fun _ => .done) (s.setLength now depth x)
  | .getLength => (s, .ok (.length s.getLength))
  | .flush => reply (fun _ => .done) (s.flush now depth)

/-- The numbers are those that a call can have, and the volume has room for the bytes that the call
    adds. -/
def Fits (g : LogicDisk) (s : FileState) : FileOp → Prop
  | .read size => size < 2 ^ 31
  | .write buffer =>
      buffer.length < 2 ^ 31 ∧ ∃ n : Nat, s.handle.position + buffer.length = n ∧ n < 2 ^ 32 ∧
        Allocatable g s n
  | .seek offset origin =>
      offset.natAbs < 2 ^ 32 ∧ ∀ n : Nat, s.newPosition offset origin = some (n : Int) →
        n < 2 ^ 32 → s.fileSize < n → Allocatable g s n
  | .setLength x => ∀ n : Nat, x = n → n < 2 ^ 32 → s.fileSize < n → Allocatable g s n
  | .getLength => True
  | .flush => True

/-- No conversion to `int` goes wrong, and no cluster that the file still needs is cut off. -/
def InRange (s : FileState) : FileOp → Prop
  | .read size => size = 0 ∨ s.fileSize - s.handle.position < 2 ^ 31
  | .write _ => True
  | .seek offset origin =>
      ∀ n : Nat, s.newPosition offset origin = some (n : Int) → n < 2 ^ 32 → SeekInRange s n
  | .setLength x => ∀ n : Nat, x = n → n < 2 ^ 32 → ResizeInRange s n
  | .getLength => True
  | .flush => FlushInRange s

variable {g : LogicDisk} {s s' : FileState} {clus : Nat → Nat} {length p : Nat} {data : List UInt8}

def Represents (g : LogicDisk) (s : FileState) (f : ByteFile) : Prop :=
  ∃ clus length, OpenFile g s clus length f.data f.position

variable {f : ByteFile}

theorem newPosition_eq (hs : OpenFile g s clus length f.data f.position)
    (offset : Int) (origin : Nat) : s.newPosition offset origin = f.target offset origin := by
  rw [FileState.newPosition, ByteFile.target, hs.stands.position, hs.fileSize]

theorem seek_refines (hg : Geometry g) (depth : Nat) (now : FatTime)
    (hs : OpenFile g s clus length f.data f.position) (offset : Int) (origin : Nat)
    (hfits : Fits g s (.seek offset origin)) (hrange : InRange s (.seek offset origin)) :
    ∃ s', reply .position (FileState.seek now (depth + 2) s offset origin) =
        (s', (f.seek offset origin).2) ∧ Represents g s' (f.seek offset origin).1 := by
  have hlt := hs.length_lt
  have htarget := newPosition_eq hs offset origin
  unfold ByteFile.seek
  rcases hx : f.target offset origin with _ | x
  · rw [hx] at htarget
    refine ⟨s, ?_, clus, length, hs⟩
    rw [FileState.seek, seekWith_none hs htarget]
    rfl
  · rw [hx] at htarget
    dsimp only
    by_cases hneg : x < 0
    · rw [if_pos hneg]
      refine ⟨s, ?_, clus, length, hs⟩
      rw [FileState.seek, seekWith_some hs htarget, if_neg (by omega), if_pos hneg]
      rfl
    · rw [if_neg hneg]
      by_cases hfar : 0xFFFFFFFF < x
      · rw [if_pos hfar]
        refine ⟨s, ?_, clus, length, hs⟩
        rw [FileState.seek, seekWith_some hs htarget, if_pos (by omega)]
        change reply _ (check (s.setLength now (depth + 1) x) _) = _
        rw [setLength_outOfRange now (depth + 1) (Or.inr hfar)]
        rfl
      · rw [if_neg hfar]
        obtain ⟨n, rfl⟩ := Int.eq_ofNat_of_zero_le (Int.not_lt.mp hneg)
        obtain ⟨s', clus', length', hseek, hs'⟩ := seek_spec hg now depth hs htarget (by omega)
          (hrange n htarget (by omega)) (hfits.2 n htarget (by omega))
        exact ⟨s', by rw [hseek]; rfl, clus', length', hs'⟩

theorem setLength_refines (hg : Geometry g) (depth : Nat) (now : FatTime)
    (hs : OpenFile g s clus length f.data f.position) (x : Int)
    (hfits : Fits g s (.setLength x)) (hrange : InRange s (.setLength x)) :
    ∃ s', reply (fun _ => .done) (s.setLength now (depth + 1) x) = (s', (f.setLength x).2) ∧
      Represents g s' (f.setLength x).1 := by
  unfold ByteFile.setLength
  by_cases hout : x < 0 ∨ 0xFFFFFFFF < x
  · rw [if_pos hout, setLength_outOfRange now _ hout]
    exact ⟨s, rfl, clus, length, hs⟩
  · rw [if_neg hout]
    obtain ⟨n, rfl⟩ := Int.eq_ofNat_of_zero_le (show 0 ≤ x by omega)
    obtain ⟨s', clus', length', hset, hs'⟩ := setLength_spec hg now depth hs (by omega)
      (hrange n rfl (by omega)) (hfits n rfl (by omega))
    exact ⟨s', by rw [hset]; rfl, clus', length', hs'⟩

theorem step_refines (hg : Geometry g) (depth : Nat) (now : FatTime)
    (hs : Represents g s f) (op : FileOp) (hfits : Fits g s op) (hrange : InRange s op) :
    ∃ s', s.step (depth + 2) now op = (s', (f.step op).2) ∧ Represents g s' (f.step op).1 := by
  obtain ⟨clus, length, hs⟩ := hs
  have hposition := hs.stands.position
  have hsize := hs.fileSize
  cases op with
  | read size =>
    have hrest : size = 0 ∨ f.data.length - f.position < 2 ^ 31 := by
      rcases hrange with hzero | hshort
      · exact Or.inl hzero
      · rw [hsize, hposition] at hshort
        exact Or.inr (by omega)
    obtain ⟨s', hread, hs'⟩ := read_spec hg now hs hfits hrest
    exact ⟨s', by rw [FileState.step, hread]; rfl, clus, length, hs'⟩
  | write buffer =>
    obtain ⟨-, n, hn, hlt, hroom, hfirst⟩ := hfits
    obtain rfl : f.position + buffer.length = n := by omega
    obtain ⟨s', clus', length', hwrite, hs', -⟩ := write_spec hg now hs
      (show Supplies (some buffer) buffer.length _ from ⟨le_rfl, fun _ _ => rfl⟩) hroom hfirst hlt
    exact ⟨s', by rw [FileState.step, hwrite]; rfl, clus', length', hs'⟩
  | seek offset origin => exact seek_refines hg depth now hs offset origin hfits hrange
  | setLength x => exact setLength_refines hg (depth + 1) now hs x hfits hrange
  | getLength => exact ⟨s, by rw [FileState.step, FileState.getLength, hsize]; rfl, clus, length, hs⟩
  | flush =>
    obtain ⟨s', hflush, hs'⟩ := flush_spec hg now (depth + 1) hs hrange
    exact ⟨s', by rw [FileState.step, hflush]; rfl, clus, length, hs'⟩

/-- The array of bytes as a machine; the time of day is nothing to it. -/
def ByteFile.call (f : ByteFile) (call : FatTime × FileOp) :
    ByteFile × Except FileFailure Reply :=
  f.step call.2

/-- The handle as a machine; a call never faults. -/
def machine (depth : Nat) (s : FileState) (call : FatTime × FileOp) :
    Option (FileState × Except FileFailure Reply) :=
  some (s.step depth call.1 call.2)

theorem openFile_refines (hg : Geometry g) (hs : OpenFile g s clus length data p) (depth : Nat)
    (calls : List (FatTime × FileOp))
    (hcalls : Meets (machine (depth + 2)) (fun s call => Fits g s call.2 ∧ InRange s call.2) s
      calls) :
    ∃ s', run (machine (depth + 2)) s calls =
        some (s', (runSpec ByteFile.call (ByteFile.mk data p) calls).2) ∧
      Represents g s' (runSpec ByteFile.call (ByteFile.mk data p) calls).1 := by
  have hrep : Represents g s ⟨data, p⟩ := ⟨clus, length, hs⟩
  refine run_simulates (machine (depth + 2)) ByteFile.call ?_ calls s ⟨data, p⟩ hrep
    hcalls
  intro s f call hrep hcond
  obtain ⟨s', hstep, hrep'⟩ := step_refines hg depth call.1 hrep call.2 hcond.1 hcond.2
  exact ⟨s', congrArg some hstep, hrep'⟩

/-! ### Files on a volume -/

/-- The file whose directory entry lies at an offset of a sector: its clusters and its bytes -/
structure FileOn (g : LogicDisk) (v : Volume) (dirSect dirData : Nat) (clus : Nat → Nat)
    (length : Nat) (data : List UInt8) : Prop where
  mounted : Mounted g v
  chain : Chain g v clus length
  apart : Apart g v clus length dirSect
  fstClus : getFstClus (v.sectors dirSect) dirData = if length = 0 then 0 else clus 0
  fileSize : getFileSize (v.sectors dirSect) dirData = data.length
  size_le : data.length ≤ length * clusSize g
  content : ∀ i < data.length, byteAt g v clus i = data.getD i 0

variable {v : Volume} {dirSect dirData : Nat}

def openFile (v : Volume) (dirSect dirData : Nat) : FileState :=
  openHandle v (getFstClus (v.sectors dirSect) dirData) dirSect dirData

theorem openFile_spec (hg : Geometry g) (hfile : FileOn g v dirSect dirData clus length data) :
    OpenFile g (openFile v dirSect dirData) clus length data 0 := by
  refine ⟨⟨⟨hfile.mounted, hfile.chain, hfile.apart⟩, hfile.fstClus, hfile.size_le, hfile.content,
    Nat.zero_le _, ?_⟩, hfile.fileSize⟩
  rcases Nat.eq_zero_or_pos length with hzero | hpos
  · exact Or.inl ⟨hzero, rfl, rfl, rfl⟩
  · refine Or.inr ⟨0, 0, by omega, by rw [Nat.zero_div]; exact hpos, rfl, ?_⟩
    have hfst : getFstClus (v.sectors dirSect) dirData = clus 0 := by
      rw [hfile.fstClus, if_neg (by omega)]
    have hsect : v.disk.clusToSect (clus 0) = fileSector g clus 0 := by
      rw [clusToSect_eq hg hfile.mounted (hfile.chain.cluster 0 hpos), fileSector, Nat.zero_div,
        Nat.zero_mod]
    rw [openFile, openHandle, hfst, hsect, standAt, Nat.zero_div]
    rfl

/-- Over every sequence of calls that fit and stay in range, a file that is opened gives back what an
    array of its bytes does, and comes to have the bytes, the length and the position of it. -/
theorem file_refines_bytes (hg : Geometry g) (hfile : FileOn g v dirSect dirData clus length data)
    (depth : Nat) (calls : List (FatTime × FileOp))
    (hcalls : Meets (machine (depth + 2)) (fun s call => Fits g s call.2 ∧ InRange s call.2)
      (openFile v dirSect dirData) calls) :
    ∃ s', run (machine (depth + 2)) (openFile v dirSect dirData) calls =
        some (s', (runSpec ByteFile.call (ByteFile.mk data 0) calls).2) ∧
      Represents g s' (runSpec ByteFile.call (ByteFile.mk data 0) calls).1 :=
  openFile_refines hg (openFile_spec hg hfile) depth calls hcalls

def smallDisk : LogicDisk where
  diskSize := 4150 * 512
  baseAddress := 0
  sectorCount := 4150
  fatBaseSector₀ := 1
  fatBaseSector₁ := 17
  firstDataSector := 65
  totalClusterCount := 4085
  totalSectorCount := 4150
  entriesPerSector := 256
  sectorFSInfo := 0
  freeCount := 4082
  nextFree := 5
  isFAT16 := true
  rootSectorStart := 33
  bytesPerSector := 512
  sectorsPerCluster := 1

/-- The entries of clusters 2, 3 and 4, which are the chain of a file -/
def threeEntries : Sector :=
  fun i => [0xf8, 0xff, 0xff, 0xff, 3, 0, 4, 0, 0xff, 0xff].getD i 0

/-- The directory entry of the file: its first cluster is 2, and its size 1536. -/
def threeClusterEntry : Sector := fun i => if i = 26 then 2 else if i = 29 then 6 else 0

def threeClusterVolume : Volume where
  disk := smallDisk
  sectors := fun s =>
    if s = 1 ∨ s = 17 then threeEntries else if s = 33 then threeClusterEntry else fun _ => 0

theorem geometry_smallDisk : Geometry smallDisk := by
  constructor <;> decide

theorem threeCluster_entry (c : Nat) {base : Nat} (hbase : base = 1 ∨ base = 17)
    (hc : c < 4087) :
    threeClusterVolume.entry base c =
      if c / 256 = 0 then word16 threeEntries (2 * (c % 256)) else 0 := by
  have hsect : uint32 (base + c / 256 : Nat) = base + c / 256 := uint32_nat (by omega)
  have hentry : threeClusterVolume.entry base c =
      word16 (threeClusterVolume.sectors (uint32 (base + c / 256 : Nat))) (2 * (c % 256)) := rfl
  rw [hentry, hsect]
  by_cases hfirst : c / 256 = 0
  · rw [if_pos hfirst, hfirst, Nat.add_zero]
    have : threeClusterVolume.sectors base = threeEntries := if_pos hbase
    rw [this]
  · have hzero : threeClusterVolume.sectors (base + c / 256) = fun _ => 0 :=
      (if_neg (by omega)).trans (if_neg (by omega))
    rw [if_neg hfirst, hzero, word16_zero]

theorem threeCluster_data (c r : Nat) :
    threeClusterVolume.sectors (sectorOf smallDisk c r) = fun _ => 0 := by
  have hpast : 65 ≤ sectorOf smallDisk c r :=
    (Nat.le_add_right 65 _).trans (Nat.le_add_right _ _)
  exact (if_neg (by omega)).trans (if_neg (by omega))

theorem fileOn_threeClusterVolume :
    FileOn smallDisk threeClusterVolume 33 0 (fun i => i + 2) 3 (List.replicate 1536 0) := by
  refine ⟨⟨⟨4082, 5, rfl⟩, fun c hc => ?_, fun c hc => ?_⟩, ⟨fun i hi => ⟨by omega, ?_⟩,
    fun i _ j _ heq => by omega, fun i hi => ?_, fun i hi => ?_⟩, ⟨by decide, fun c _ r _ => ?_⟩,
    by decide, ?_, ?_, fun i hi => ?_⟩
  · exact (threeCluster_entry c (Or.inr rfl) hc).trans (threeCluster_entry c (Or.inl rfl) hc).symm
  · have hentry := threeCluster_entry c (Or.inl rfl) (show c < 4087 by omega)
    have hcases : c = 0 ∨ c = 1 := by omega
    rcases hcases with rfl | rfl
    · exact fun h => absurd (hentry.symm.trans h) (by decide)
    · exact fun h => absurd (hentry.symm.trans h) (by decide)
  · change i + 2 < 4087
    omega
  · have hcases : i = 0 ∨ i = 1 := by omega
    rcases hcases with rfl | rfl
    · decide
    · decide
  · obtain rfl : i = 2 := by omega
    decide
  · have hpast : 65 ≤ sectorOf smallDisk c r :=
      (Nat.le_add_right 65 _).trans (Nat.le_add_right _ _)
    omega
  · rw [List.length_replicate]
    decide
  · rw [List.length_replicate]
    decide
  · rw [List.length_replicate] at hi
    rw [List.getD_replicate 0 hi]
    exact congrFun (threeCluster_data _ _) _

/-- `SetLength` of a file of three clusters to two of them cuts it to the first one. -/
def cutCalls : List (FatTime × FileOp) :=
  [(⟨0, 0⟩, .setLength 1024), (⟨0, 0⟩, .seek 512 SEEKORIGIN_BEGIN), (⟨0, 0⟩, .read 1)]

theorem cutCalls_replies :
    (run (machine 2) (openFile threeClusterVolume 33 0) cutCalls).map (·.2) =
      some [.ok .done, .ok (.position 512), .error .fileError] := by
  decide

theorem shrunk_file_is_cut :
    Geometry smallDisk ∧
    FileOn smallDisk threeClusterVolume 33 0 (fun i => i + 2) 3 (List.replicate 1536 0) ∧
    Meets (machine 2) (fun s call => Fits smallDisk s call.2) (openFile threeClusterVolume 33 0)
      cutCalls ∧
    ¬ ∃ s', run (machine 2) (openFile threeClusterVolume 33 0) cutCalls =
      some (s', (runSpec ByteFile.call
        (ByteFile.mk (List.replicate 1536 0) 0) cutCalls).2) := by
  refine ⟨geometry_smallDisk, fileOn_threeClusterVolume,
    ⟨fun n hn _ hgrow => ?_, fun s₁ r₁ h₁ => ⟨⟨by decide, fun n hn _ hgrow => ?_⟩,
      fun _ _ _ => ⟨show 1 < 2 ^ 31 by decide, fun _ _ _ => trivial⟩⟩⟩, ?_⟩
  · have hsize : (openFile threeClusterVolume 33 0).fileSize = 1536 := by decide
    omega
  · obtain rfl : _ = s₁ := congrArg Prod.fst (Option.some.inj h₁)
    have hsize : (FileState.step 2 (openFile threeClusterVolume 33 0) ⟨0, 0⟩
        (.setLength 1024)).1.fileSize = 1024 := by decide
    have hposition : (512 : Int) = n := Option.some.inj hn
    change FileState.fileSize (FileState.step 2 (openFile threeClusterVolume 33 0) ⟨0, 0⟩
      (.setLength 1024)).1 < n at hgrow
    omega
  · rintro ⟨s', hrun⟩
    have hreplies := congrArg (Option.map (·.2)) hrun
    rw [cutCalls_replies] at hreplies
    generalize List.replicate 1536 (0 : UInt8) = data at hreplies
    simp only [runSpec, cutCalls, ByteFile.call, ByteFile.step, Option.map_some, Option.some.injEq,
      List.cons.injEq] at hreplies
    exact nomatch hreplies.2.2.1

def writeCalls : List (FatTime × FileOp) :=
  [(⟨0, 0⟩, .seek 512 SEEKORIGIN_BEGIN), (⟨0, 0⟩, .write [1, 2, 3]), (⟨0, 0⟩, .getLength)]

/-- Three bytes are put into the second cluster of the file. -/
theorem file_refines_bytes_write :
    ∃ s', run (machine 2) (openFile threeClusterVolume 33 0) writeCalls =
        some (s', (runSpec ByteFile.call
          (ByteFile.mk (List.replicate 1536 0) 0) writeCalls).2) ∧
      Represents smallDisk s' (runSpec ByteFile.call
        (ByteFile.mk (List.replicate 1536 0) 0) writeCalls).1 := by
  have hsize : (openFile threeClusterVolume 33 0).fileSize = 1536 := by decide
  have hstart : (openFile threeClusterVolume 33 0).handle.position = 0 := by decide
  refine file_refines_bytes geometry_smallDisk fileOn_threeClusterVolume 0 writeCalls
    ⟨⟨⟨by decide, fun n hn _ hgrow => ?_⟩, fun n hn _ => ⟨fun _ => ?_, fun hgrow => ?_⟩⟩,
      fun s₁ r₁ h₁ => ⟨⟨⟨show 3 < 2 ^ 31 by decide, 515, ?_, by decide, ?_, fun hzero => ?_⟩,
        trivial⟩, fun _ _ _ => ⟨⟨trivial, trivial⟩, fun _ _ _ => trivial⟩⟩⟩
  · have hposition : (512 : Int) = n := Option.some.inj hn
    omega
  · have hposition : (512 : Int) = n := Option.some.inj hn
    rw [MoveInRange, hstart, if_neg (by omega)]
    omega
  · have hposition : (512 : Int) = n := Option.some.inj hn
    omega
  · obtain rfl : _ = s₁ := congrArg Prod.fst (Option.some.inj h₁)
    decide
  · obtain rfl : _ = s₁ := congrArg Prod.fst (Option.some.inj h₁)
    have hsize₁ : (FileState.step 2 (openFile threeClusterVolume 33 0) ⟨0, 0⟩
        (.seek 512 SEEKORIGIN_BEGIN)).1.fileSize = 1536 := by decide
    change HasRoom smallDisk (FileState.step 2 (openFile threeClusterVolume 33 0) ⟨0, 0⟩
        (.seek 512 SEEKORIGIN_BEGIN)).1 515
    have hthree : 515 ≤ wholeClusters smallDisk 1536 * clusSize smallDisk := by decide
    rw [HasRoom, hsize₁]
    exact hthree.trans (Nat.mul_le_mul_right _ (Nat.le_add_right _ _))
  · obtain rfl : _ = s₁ := congrArg Prod.fst (Option.some.inj h₁)
    exact absurd hzero (by decide)

end TinyClr.FatFileHandle
