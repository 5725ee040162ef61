import Mathlib.Data.List.GetD
import TinyClr.Drivers.FileChain
import TinyClr.Drivers.FileHandle

/-!
# What the operations of a file handle do

A handle that stands at an offset of a sector of its file goes on to the next sector only when it
needs a byte of it.  `ReadWriteSeekHelper` moves it by as many bytes as it is asked for, and takes
the bytes of the file on the way or puts others in their place.
-/

namespace TinyClr.FatFileHandle

open TinyClr.Library TinyClr.FatLogicDisk TinyClr.FatVolume

variable {g : LogicDisk} {v v' : Volume} {clus clus' : Nat → Nat} {length length' sect : Nat}
  {h : FileHandle} {p n q d : Nat}

def standAt (g : LogicDisk) (clus : Nat → Nat) (h : FileHandle) (q d : Nat) : FileHandle :=
  { h with
    position := (512 * q + d : Nat)
    clusIndex := clus (q / g.sectorsPerCluster)
    sectIndex := fileSector g clus q
    dataIndex := d }

theorem bytesPerSector_eq (hg : Geometry g) (hv : Mounted g v) : v.disk.bytesPerSector = 512 := by
  obtain ⟨_, _, h⟩ := hv.onDisk
  rw [h]
  exact hg.bytesPerSector

theorem advance_standAt (v : Volume) (h : FileHandle) (q d count : Nat) :
    FileState.advance ⟨v, standAt g clus h q d⟩ count = ⟨v, standAt g clus h q (d + count)⟩ := by
  have hposition : ((512 * q + d : Nat) : Int) + (count : Int) = (512 * q + (d + count) : Nat) := by
    push_cast
    omega
  simp only [FileState.advance, standAt, hposition]

theorem count_standAt (hg : Geometry g) (hv : Mounted g v) (hd : d < 512) (n : Nat) :
    FileState.count ⟨v, standAt g clus h q d⟩ n = min n (512 - d) := by
  have hcount : uint32 ((512 : Nat) - (d : Nat) : Int) = 512 - d := by
    rw [uint32_eq_toNat (by omega) (by omega)]
    omega
  have hint : int32 (512 - d : Nat) = (512 - d : Nat) := int32_eq_self (by omega) (by omega)
  rw [FileState.count, bytesPerSector_eq hg hv]
  change (if (n : Int) < int32 (uint32 ((512 : Nat) - (d : Nat) : Int)) then n
    else uint32 ((512 : Nat) - (d : Nat) : Int)) = _
  rw [hcount, hint]
  split <;> omega

/-! ### The next sector -/

theorem pageIn_inside (hg : Geometry g) (hv : Mounted g v) (hd : d < 512) (create : Bool) :
    FileState.pageIn create ⟨v, standAt g clus h q d⟩ = (⟨v, standAt g clus h q d⟩, .ok ()) := by
  rw [FileState.pageIn, bytesPerSector_eq hg hv]
  exact if_neg (show d ≠ 512 by omega)

theorem pageIn_end (hg : Geometry g) (hv : Mounted g v) (create : Bool) :
    FileState.pageIn create ⟨v, standAt g clus h q 512⟩ =
      match v.getNextSect create (clus (q / g.sectorsPerCluster)) (fileSector g clus q) with
      | (volume, none) => (⟨volume, standAt g clus h q 512⟩, .error .fileError)
      | (volume, some (clusIndex, sectIndex)) =>
          (⟨volume, { standAt g clus h q 512 with clusIndex, sectIndex, dataIndex := 0 }⟩, .ok ()) := by
  rw [FileState.pageIn, bytesPerSector_eq hg hv]
  exact if_pos rfl

theorem pageIn_next (hg : Geometry g) (hv : Mounted g v) (hchain : Chain g v clus length)
    (hq : (q + 1) / g.sectorsPerCluster < length) (create : Bool) :
    FileState.pageIn create ⟨v, standAt g clus h q 512⟩ =
      (⟨v, standAt g clus h (q + 1) 0⟩, .ok ()) := by
  have hsect : v.getNextSect create (clus (q / g.sectorsPerCluster)) (fileSector g clus q) =
      (v, some (clus ((q + 1) / g.sectorsPerCluster), fileSector g clus (q + 1))) := by
    rcases next_place hg.perClus_pos q with ⟨hdiv, hmod, hlt⟩ | ⟨hdiv, hmod, hlast⟩
    · rw [hdiv] at hq
      rw [fileSector, fileSector, hdiv, hmod]
      exact getNextSect_same hg hv (hchain.cluster _ hq) hlt create
    · rw [hdiv] at hq
      rw [fileSector, fileSector, hdiv, hmod]
      exact getNextSect_linked hg hv (hchain.cluster _ (Nat.lt_of_succ_lt hq)) hlast
        (hchain.link _ hq) (hchain.cluster _ hq) create
  rw [pageIn_end hg hv, hsect]
  rfl

theorem pageIn_create (hg : Geometry g) (hv : Mounted g v)
    (hchain : Chain g v clus (length + 1)) (hq : q / g.sectorsPerCluster < length + 1)
    (hnext : ¬ (q + 1) / g.sectorsPerCluster < length + 1) (hfree : (freeClusters g v).Nonempty) :
    ∃ v' c', Appended g v v' (clus length) c' ∧
      FileState.pageIn true ⟨v, standAt g clus h q 512⟩ =
        (⟨v', standAt g (Function.update clus (length + 1) c') h (q + 1) 0⟩, .ok ()) := by
  rcases next_place hg.perClus_pos q with ⟨hdiv, hmod, hlt⟩ | ⟨hdiv, hmod, hlast⟩
  · omega
  · have hplace : q / g.sectorsPerCluster = length := by omega
    obtain ⟨v', c', hsect, happ⟩ := getNextSect_create hg hv (hchain.cluster length (by omega)) hlast
      (hchain.last length rfl) hfree
    refine ⟨v', c', happ, ?_⟩
    have hnew : Function.update clus (length + 1) c' ((q + 1) / g.sectorsPerCluster) = c' := by
      rw [hdiv, hplace]
      exact Function.update_self _ _ _
    rw [pageIn_end hg hv, fileSector, hplace, hsect]
    simp only [standAt, fileSector, hnew, hmod]
    rfl

theorem pageIn_ready (hg : Geometry g) (hv : Mounted g v) (hchain : Chain g v clus length)
    (hd : d ≤ 512) (hlt : 512 * q + d < length * clusSize g) (create : Bool) :
    ∃ q₁ d₁, d₁ < 512 ∧ 512 * q₁ + d₁ = 512 * q + d ∧ q₁ / g.sectorsPerCluster < length ∧
      FileState.pageIn create ⟨v, standAt g clus h q d⟩ = (⟨v, standAt g clus h q₁ d₁⟩, .ok ()) := by
  rcases Nat.lt_or_ge d 512 with hin | hend
  · exact ⟨q, d, hin, rfl, (sector_lt_iff hg).mpr (by omega), pageIn_inside hg hv hin create⟩
  · obtain rfl : d = 512 := by omega
    have hq : (q + 1) / g.sectorsPerCluster < length := (sector_lt_iff hg).mpr (by omega)
    exact ⟨q + 1, 0, by decide, by omega, hq, pageIn_next hg hv hchain hq create⟩

theorem stand_le (hg : Geometry g) (hq : q / g.sectorsPerCluster < length) (hd : d ≤ 512) :
    512 * q + d ≤ length * clusSize g := by
  have hplace := (sector_lt_iff hg).mp hq
  have hwhole : length * clusSize g = 512 * (length * g.sectorsPerCluster) := by
    rw [clusSize, Nat.mul_left_comm]
  omega

theorem pageIn_ready_create (hg : Geometry g) (hv : Mounted g v)
    (hchain : Chain g v clus length) (hsect : fatEnd g ≤ sect) (hd : d ≤ 512)
    (hq : q / g.sectorsPerCluster < length) (bytes : Nat → UInt8)
    (hlt : 512 * q + d < (length + (freeClusters g v).card) * clusSize g) :
    ∃ v₁ clus₁ length₁ q₁ d₁,
      Wrote g sect v clus length v₁ clus₁ length₁ (512 * q + d) 0 bytes ∧ d₁ < 512 ∧
      512 * q₁ + d₁ = 512 * q + d ∧ q₁ / g.sectorsPerCluster < length₁ ∧
      FileState.pageIn true ⟨v, standAt g clus h q d⟩ =
        (⟨v₁, standAt g clus₁ h q₁ d₁⟩, .ok ()) := by
  have hle := stand_le hg hq hd
  by_cases hinside : 512 * q + d < length * clusSize g
  · obtain ⟨q₁, d₁, hd₁, heq, hq₁, hpage⟩ := pageIn_ready (h := h) hg hv hchain hd hinside true
    exact ⟨v, clus, length, q₁, d₁, Wrote.refl hv hchain hle, hd₁, heq, hq₁, hpage⟩
  · obtain ⟨last, rfl⟩ :=
      Nat.exists_eq_add_one_of_ne_zero (Nat.ne_of_gt (Nat.zero_lt_of_lt hq))
    have hplace := (sector_lt_iff hg).mp hq
    have hwhole : (last + 1) * clusSize g = 512 * ((last + 1) * g.sectorsPerCluster) := by
      rw [clusSize, Nat.mul_left_comm]
    obtain rfl : d = 512 := by omega
    have hnext : ¬ (q + 1) / g.sectorsPerCluster < last + 1 := by
      rw [sector_lt_iff hg]
      omega
    have hfree : (freeClusters g v).Nonempty := by
      rw [← Finset.card_pos]
      refine Nat.pos_of_ne_zero fun hzero => ?_
      rw [hzero] at hlt
      exact hinside hlt
    obtain ⟨v₁, c', happ, hpage⟩ := pageIn_create (h := h) hg hv hchain hq hnext hfree
    refine ⟨v₁, _, last + 2, q + 1, 0, Wrote.append hg hchain happ hsect hle, by decide, by omega,
      ?_, hpage⟩
    rcases next_place hg.perClus_pos q with ⟨hdiv, -, -⟩ | ⟨hdiv, -, -⟩ <;> omega

/-! ### The loop of `ReadWriteSeekHelper` -/

theorem helperLoop_zero (type : Helper) (fuel : Nat) (s : FileState)
    (buffer : Option (List UInt8)) (out : List UInt8) (done : Nat) :
    helperLoop type fuel s buffer 0 out done = (s, .ok (out, done)) := by
  cases fuel with
  | zero => rfl
  | succ fuel => exact if_pos rfl

theorem helperLoop_succ (type : Helper) (fuel : Nat) (s : FileState)
    (buffer : Option (List UInt8)) {size : Nat} (hsize : 0 < size) (out : List UInt8) (done : Nat) :
    helperLoop type (fuel + 1) s buffer size out done =
      check (s.pageIn (type = .write)) fun s _ =>
        let (s', bytes) := s.piece type buffer (s.count size)
        helperLoop type fuel (s'.advance (s.count size))
          (buffer.map fun bytes => bytes.drop (s.count size)) (size - s.count size) (out ++ bytes)
          (done + if type = .read ∨ type = .write then s.count size else 0) := by
  rw [helperLoop, if_neg (by omega)]

def readBytes (g : LogicDisk) (v : Volume) (clus : Nat → Nat) (type : Helper) (p n : Nat) :
    List UInt8 :=
  if type = .read then (List.range n).map fun i => byteAt g v clus (p + i) else []

theorem readBytes_append (type : Helper) (p m n : Nat) :
    readBytes g v clus type p m ++ readBytes g v clus type (p + m) n =
      readBytes g v clus type p (m + n) := by
  unfold readBytes
  split
  · rw [List.range_add, List.map_append, List.map_map]
    simp only [Function.comp_def, Nat.add_assoc]
  · rfl

variable {type : Helper}

theorem piece_moves (htype : type ≠ .write) (buffer : Option (List UInt8))
    {count : Nat} (hd : d + count ≤ 512) :
    FileState.piece type ⟨v, standAt g clus h q d⟩ buffer count =
      (⟨v, standAt g clus h q d⟩, readBytes g v clus type (512 * q + d) count) := by
  cases type with
  | read =>
    have hbytes : ∀ i ∈ List.range count, v.sectors (fileSector g clus q) (d + i) =
        byteAt g v clus (512 * q + d + i) := fun i hi => by
      have hlt := List.mem_range.mp hi
      rw [byteAt, show (512 * q + d + i) / 512 = q by omega,
        show (512 * q + d + i) % 512 = d + i by omega]
    exact Prod.ext rfl (List.map_congr_left hbytes)
  | write => exact absurd rfl htype
  | seek => rfl
  | flush => rfl

variable {k : Nat}

theorem turn_moves (htype : type ≠ .write) (hg : Geometry g) (hv : Mounted g v)
    {s : FileState} (hpage : s.pageIn (type = .write) = (⟨v, standAt g clus h q d⟩, .ok ()))
    (hd : d < 512) {fuel : Nat} (hn : 0 < n) (hk : k = min n (512 - d))
    (buffer : Option (List UInt8)) (out : List UInt8) (done : Nat) :
    helperLoop type (fuel + 1) s buffer n out done =
      helperLoop type fuel ⟨v, standAt g clus h q (d + k)⟩ (buffer.map fun bytes => bytes.drop k)
        (n - k) (out ++ readBytes g v clus type (512 * q + d) k)
        (done + if type = .read ∨ type = .write then k else 0) := by
  have hroom : d + k ≤ 512 := by omega
  rw [helperLoop_succ _ _ _ _ hn, hpage, check_ok, count_standAt hg hv hd, ← hk,
    piece_moves htype _ hroom]
  dsimp only
  rw [advance_standAt]

theorem helperLoop_moves (htype : type ≠ .write) (hg : Geometry g)
    (hv : Mounted g v) (hchain : Chain g v clus length) :
    ∀ (fuel n q d : Nat) (buffer : Option (List UInt8)) (out : List UInt8) (done : Nat),
      d ≤ 512 → q / g.sectorsPerCluster < length → 512 * q + d + n ≤ length * clusSize g →
      n ≤ fuel →
      ∃ q' d', d' ≤ 512 ∧ q' / g.sectorsPerCluster < length ∧ 512 * q' + d' = 512 * q + d + n ∧
        (n = 0 → q' = q ∧ d' = d) ∧ (0 < n → 0 < d') ∧
        helperLoop type fuel ⟨v, standAt g clus h q d⟩ buffer n out done =
          (⟨v, standAt g clus h q' d'⟩,
            .ok (out ++ readBytes g v clus type (512 * q + d) n,
              done + if type = .read then n else 0)) := by
  intro fuel
  induction fuel with
  | zero =>
    intro n q d buffer out done hd hq _ hn
    obtain rfl : n = 0 := by omega
    refine ⟨q, d, hd, hq, rfl, fun _ => ⟨rfl, rfl⟩, fun h => absurd h (Nat.lt_irrefl 0), ?_⟩
    rw [helperLoop_zero]
    simp [readBytes]
  | succ fuel ih =>
    intro n q d buffer out done hd hq hroom hn
    rcases Nat.eq_zero_or_pos n with rfl | hpos
    · refine ⟨q, d, hd, hq, rfl, fun _ => ⟨rfl, rfl⟩, fun h => absurd h (Nat.lt_irrefl 0), ?_⟩
      rw [helperLoop_zero]
      simp [readBytes]
    · obtain ⟨q₁, d₁, hd₁, heq, hq₁, hpage⟩ :=
        pageIn_ready (h := h) (q := q) hg hv hchain hd (by omega) (decide (type = .write))
      obtain ⟨k, hk⟩ : ∃ k, k = min n (512 - d₁) := ⟨_, rfl⟩
      obtain ⟨q', d', hd', hq', heq', hsame, hmoved, hloop⟩ :=
        ih (n - k) q₁ (d₁ + k) (buffer.map fun bytes => bytes.drop k)
          (out ++ readBytes g v clus type (512 * q₁ + d₁) k)
          (done + if type = .read ∨ type = .write then k else 0) (by omega) hq₁ (by omega) (by omega)
      refine ⟨q', d', hd', hq', by omega, by omega, fun _ => ?_, ?_⟩
      · rcases Nat.eq_zero_or_pos (n - k) with hzero | hmore
        · have := (hsame hzero).2
          omega
        · exact hmoved hmore
      · rw [turn_moves htype hg hv hpage hd₁ hpos hk, hloop, List.append_assoc, ← Nat.add_assoc, readBytes_append, heq,
          Nat.add_sub_cancel' (show k ≤ n by omega)]
        have hdone : done + (if type = .read ∨ type = .write then k else 0) +
            (if type = .read then n - k else 0) = done + if type = .read then n else 0 := by
          by_cases hread : type = .read
          · simp only [hread, true_or, if_true]
            omega
          · simp only [hread, htype, or_self, if_false]
        rw [hdone]

def Supplies (buffer : Option (List UInt8)) (n : Nat) (bytes : Nat → UInt8) : Prop :=
  match buffer with
  | some src => n ≤ src.length ∧ ∀ i < n, src.getD i 0 = bytes i
  | none => ∀ i < n, bytes i = 0

variable {buffer : Option (List UInt8)} {bytes : Nat → UInt8}

theorem Supplies.drop (hbuffer : Supplies buffer n bytes) (k : Nat) :
    Supplies (buffer.map fun src => src.drop k) (n - k) fun i => bytes (k + i) := by
  rcases buffer with _ | src
  · exact fun i hi => hbuffer (k + i) (by omega)
  · obtain ⟨hlen, hsrc⟩ := hbuffer
    refine ⟨by rw [List.length_drop]; omega, fun i hi => ?_⟩
    rw [List.getD_eq_getElem?_getD, List.getElem?_drop, ← List.getD_eq_getElem?_getD]
    exact hsrc (k + i) (by omega)

theorem piece_writes (g : LogicDisk) (v : Volume) (clus : Nat → Nat) (h : FileHandle) (q d : Nat)
    (hbuffer : Supplies buffer n bytes) (hk : k ≤ n) :
    ∃ src : List UInt8, src.length = k ∧ (∀ i < src.length, src.getD i 0 = bytes i) ∧
      FileState.piece .write ⟨v, standAt g clus h q d⟩ buffer k =
        (⟨v.setSector (fileSector g clus q) (memcpy (v.sectors (fileSector g clus q)) d src),
          standAt g clus h q d⟩, []) := by
  rcases buffer with _ | src
  · refine ⟨List.replicate k 0, List.length_replicate, fun i hi => ?_, rfl⟩
    rw [List.length_replicate] at hi
    rw [List.getD_replicate 0 hi]
    exact (hbuffer i (by omega)).symm
  · obtain ⟨hlen, hsrc⟩ := hbuffer
    have htake : (src.take k).length = k := by rw [List.length_take]; omega
    refine ⟨src.take k, htake, fun i hi => ?_, rfl⟩
    rw [htake] at hi
    rw [List.getD_eq_getElem?_getD, List.getElem?_take_of_lt hi, ← List.getD_eq_getElem?_getD]
    exact hsrc i (by omega)

theorem turn_writes (hg : Geometry g) (hv : Mounted g v) (hchain : Chain g v clus length)
    (hapart : Apart g v clus length sect) {s : FileState}
    (hpage : s.pageIn true = (⟨v, standAt g clus h q d⟩, .ok ())) (hd : d < 512)
    (hq : q / g.sectorsPerCluster < length) (fuel : Nat) (hn : 0 < n)
    (hk : k = min n (512 - d)) (hbuffer : Supplies buffer n bytes) (out : List UInt8) (done : Nat) :
    ∃ v', Wrote g sect v clus length v' clus length (512 * q + d) k bytes ∧
      helperLoop .write (fuel + 1) s buffer n out done =
        helperLoop .write fuel ⟨v', standAt g clus h q (d + k)⟩
          (buffer.map fun bytes => bytes.drop k) (n - k) out (done + k) := by
  have hroom : d + k ≤ 512 := by omega
  obtain ⟨src, hlen, hsrc, hpiece⟩ :=
    piece_writes g v clus h q d hbuffer (show k ≤ n by omega)
  refine ⟨_, hlen ▸ Wrote.piece hg hv hchain hapart hq (by omega) hsrc, ?_⟩
  rw [helperLoop_succ _ _ _ _ hn]
  change check (s.pageIn true) _ = _
  rw [hpage, check_ok, count_standAt hg hv hd, ← hk, hpiece]
  dsimp only
  rw [advance_standAt, List.append_nil, if_pos (Or.inr rfl)]

theorem helperLoop_writes (hg : Geometry g) :
    ∀ (fuel n q d : Nat) (v : Volume) (clus : Nat → Nat) (length : Nat)
      (buffer : Option (List UInt8)) (bytes : Nat → UInt8) (out : List UInt8) (done : Nat),
      Mounted g v → Chain g v clus length → Apart g v clus length sect → d ≤ 512 →
      q / g.sectorsPerCluster < length →
      512 * q + d + n ≤ (length + (freeClusters g v).card) * clusSize g → n ≤ fuel →
      Supplies buffer n bytes →
      ∃ v' clus' length' q' d', d' ≤ 512 ∧ q' / g.sectorsPerCluster < length' ∧
        512 * q' + d' = 512 * q + d + n ∧ (n = 0 → q' = q ∧ d' = d) ∧ (0 < n → 0 < d') ∧
        Wrote g sect v clus length v' clus' length' (512 * q + d) n bytes ∧
        helperLoop .write fuel ⟨v, standAt g clus h q d⟩ buffer n out done =
          (⟨v', standAt g clus' h q' d'⟩, .ok (out, done + n)) := by
  intro fuel
  induction fuel with
  | zero =>
    intro n q d v clus length buffer bytes out done hv hchain _ hd hq _ hn _
    obtain rfl : n = 0 := by omega
    exact ⟨v, clus, length, q, d, hd, hq, rfl, fun _ => ⟨rfl, rfl⟩,
      fun h => absurd h (Nat.lt_irrefl 0), Wrote.refl hv hchain (stand_le hg hq hd), rfl⟩
  | succ fuel ih =>
    intro n q d v clus length buffer bytes out done hv hchain hapart hd hq hroom hn hbuffer
    rcases Nat.eq_zero_or_pos n with rfl | hpos
    · exact ⟨v, clus, length, q, d, hd, hq, rfl, fun _ => ⟨rfl, rfl⟩,
        fun h => absurd h (Nat.lt_irrefl 0), Wrote.refl hv hchain (stand_le hg hq hd),
        helperLoop_zero _ _ _ _ _ _⟩
    · obtain ⟨v₁, clus₁, length₁, q₁, d₁, hgrown, hd₁, heq, hq₁, hpage⟩ :=
        pageIn_ready_create (h := h) (q := q) hg hv hchain hapart.1 hd hq bytes (by omega)
      obtain ⟨k, hk⟩ : ∃ k, k = min n (512 - d₁) := ⟨_, rfl⟩
      obtain ⟨v₂, hpiece, hturn⟩ := turn_writes hg hgrown.mounted hgrown.chain
        (hapart.wrote hgrown) hpage hd₁ hq₁ fuel hpos hk hbuffer out done
      have hstep : Wrote g sect v clus length v₂ clus₁ length₁ (512 * q + d) k bytes := by
        rw [heq] at hpiece
        have hpiece' : Wrote g sect v₁ clus₁ length₁ v₂ clus₁ length₁ (512 * q + d + 0) k
            fun i => bytes (0 + i) := by simpa using hpiece
        simpa using hgrown.trans hpiece'
      have hmono := Nat.mul_le_mul_right (clusSize g) hstep.budget
      obtain ⟨v', clus', length', q', d', hd', hq', heq', hsame, hmoved, hrest, hloop⟩ :=
        ih (n - k) q₁ (d₁ + k) v₂ clus₁ length₁ (buffer.map fun bytes => bytes.drop k)
          (fun i => bytes (k + i)) out (done + k) hstep.mounted hstep.chain (hapart.wrote hstep)
          (by omega) hq₁ (by omega) (by omega) (hbuffer.drop k)
      refine ⟨v', clus', length', q', d', hd', hq', by omega, by omega, fun _ => ?_, ?_, ?_⟩
      · rcases Nat.eq_zero_or_pos (n - k) with hzero | hmore
        · have := (hsame hzero).2
          omega
        · exact hmoved hmore
      · rw [show 512 * q₁ + (d₁ + k) = 512 * q + d + k by omega] at hrest
        have := hstep.trans hrest
        rwa [Nat.add_sub_cancel' (show k ≤ n by omega)] at this
      · rw [hturn, hloop, Nat.add_assoc, Nat.add_sub_cancel' (show k ≤ n by omega)]

end TinyClr.FatFileHandle
