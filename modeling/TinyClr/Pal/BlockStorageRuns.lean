import TinyClr.Library.Runs
import TinyClr.Pal.BlockStorageErase

/-!
# Block storage streams over whole runs

A stream is one linear array: as long as the calls on it keep clear of the paths that move the stream
and then return early, every call acts on the sequence of bytes of its usage, at the position where
the stream is.
-/

namespace TinyClr.BlockStorage

open TinyClr.Library

/-! ### Calls on a stream -/

structure State where
  stream : Stream
  memory : Memory

inductive Event where
  | seek (offset : Int32) (origin : SeekOrigin)
  | write (data : List UInt8) (answers : List Bool)
  | readIntoBuffer (length : UInt32) (answers : List Bool)
  | erase (length : UInt32) (answers : List Bool)
  | isErased (length : UInt32) (answers : List Bool)
deriving DecidableEq

inductive Reply where
  | bool (value : Bool)
  | data (bytes : List UInt8) (value : Bool)
deriving DecidableEq, Repr

def step (devices : Devices) (t : State) : Event → Option (State × Reply)
  | .seek offset origin =>
      (t.stream.seek devices offset origin).map fun r => (⟨r.1, t.memory⟩, .bool r.2)
  | .write data answers =>
      (t.stream.write devices t.memory data answers).map fun r => (⟨r.1, r.2.1⟩, .bool r.2.2)
  | .readIntoBuffer length answers =>
      (t.stream.readIntoBuffer devices t.memory length.toNat answers).map fun r =>
        (⟨r.1.stream, t.memory⟩, .data r.1.buffer r.2)
  | .erase length answers =>
      (t.stream.erase devices t.memory length answers).map fun r => (⟨r.1, r.2.1⟩, .bool r.2.2)
  | .isErased length answers =>
      (t.stream.isErased devices t.memory length answers).map fun r => (⟨r.1, t.memory⟩, .bool r.2)

/-- The calls that keep clear of the defects -/
def Proper (devices : Devices) (t : State) : Event → Prop
  | .seek offset origin => SeekProper devices t.stream offset origin
  | .write data _ => Fits t.stream data.length
  | .readIntoBuffer length _ => Fits t.stream length.toNat
  | .erase length answers => length.toNat < 2 ^ 31 ∧ (false ∉ answers ∨
      (answers.head? = some false ∧ t.stream.currentIndex ≠ t.stream.slot.length))
  | .isErased length answers =>
      (t.stream.currentIndex + length.toNat ≤ t.stream.slot.length ∧
        (t.stream.xip = true ∨ false ∉ answers) ∧
        devices.isBlockErased t.stream.slot.device t.memory t.stream.currentAddress length.toNat) ∨
      (t.stream.currentIndex < t.stream.slot.length ∧
        t.stream.currentIndex % t.stream.slot.blockLength = 0 ∧
        t.stream.slot.blockLength ≤ length.toNat ∧
        ¬ devices.isBlockErased t.stream.slot.device t.memory t.stream.currentAddress
          t.stream.slot.blockLength)

/-- A call that passes `n` bytes of the sequence, of `length` that it was asked for -/
structure Passes (devices : Devices) (t t' : State) (length : Nat) (answers : List Bool) (n : Nat)
    (ok : Bool) : Prop where
  position : t'.stream.position devices = t.stream.position devices + n
  le : n ≤ length ∧ n ≤ (t.stream.rest devices).length
  returns : ok = true ↔ n = length
  all : false ∉ answers → ok = false → n = (t.stream.rest devices).length

/-- What a call does to the sequence of bytes and the position in it -/
def Linear (devices : Devices) (t : State) (event : Event) (t' : State) (r : Reply) : Prop :=
  t'.stream.usage = t.stream.usage ∧
  match event with
  | .seek offset origin =>
      t'.memory = t.memory ∧ (if 0 ≤ t.stream.target devices offset origin ∧
          t.stream.target devices offset origin < total devices t.stream.usage then
        r = .bool true ∧
          (t'.stream.position devices : Int) = t.stream.target devices offset origin
      else r = .bool false ∧ t'.stream = t.stream)
  | .write data answers => ∃ n ok, r = .bool ok ∧
      Passes devices t t' data.length answers n ok ∧
      t'.memory = devices.programAll t.stream.readModWrite t.memory
        ((t.stream.rest devices).zip (data.take n))
  | .readIntoBuffer length answers => ∃ n bytes ok, r = .data bytes ok ∧
      Passes devices t t' length.toNat answers n ok ∧ t'.memory = t.memory ∧
      (t.stream.xip = false → bytes = ((t.stream.rest devices).take n).map t.memory)
  | .erase length answers => t'.stream = t.stream ∧ ∃ ok, r = .bool ok ∧
      Erased devices t.stream length.toNat answers t.memory t'.memory ok
  | .isErased length _ => t' = t ∧ ∃ ok, r = .bool ok ∧
      (ok = true → length.toNat ≤ (t.stream.rest devices).length) ∧
      (ok = true ↔ ∀ p ∈ (t.stream.rest devices).take length.toNat,
        t.memory p = devices.erasedAt p)

section Step

variable {devices : Devices} {t : State} {dev : BlockStorageDevice} {g : BlockRegionInfo}
  {x : BlockRange}

theorem take_rest {s : Stream} (hs : Stands devices s dev g x) {n : Nat}
    (hn : s.currentIndex + n ≤ s.slot.length) :
    (s.rest devices).take n = places s.slot.device s.currentAddress n := by
  have hle : n ≤ s.slot.length - s.currentIndex := by omega
  rw [rest_eq hs, List.take_append_of_le_length (by rw [length_places]; exact hle),
    take_places _ _ hle]

theorem erasedAt_eq {s : Stream} (hs : Stands devices s dev g x) {n : Nat} {p : Place}
    (hp : p ∈ places s.slot.device s.currentAddress n) : devices.erasedAt p = dev.erasedValue := by
  rw [Devices.erasedAt, (mem_places.mp hp).1, hs.tables.device]

theorem isErased_spec (hsize : Addressable devices) (hs : Stands devices t.stream dev g x)
    {length : UInt32} {answers : List Bool} (hproper : Proper devices t (.isErased length answers)) :
    ∃ t' r, step devices t (.isErased length answers) = some (t', r) ∧
      Linear devices t (.isErased length answers) t' r ∧
      ∃ dev g x, Stands devices t'.stream dev g x := by
  rcases hproper with ⟨hinside, hanswers, herased⟩ | ⟨hindex, haligned, hlength, hblock⟩
  · have hall := (isBlockErased_iff hs).mp herased
    refine ⟨t, .bool true, ?_, ⟨rfl, rfl, true, rfl, fun _ => ?_, fun _ p hp => ?_, fun _ => rfl⟩,
      dev, g, x, hs⟩
    · simp only [step, isErased_true hsize hs hinside hanswers hall, Option.map_some]
    · rw [rest_eq hs, List.length_append, length_places]
      omega
    · rw [take_rest hs hinside] at hp
      rw [erasedAt_eq hs hp]
      exact hall p hp
  · have hall : ¬ AllAre t.memory dev.erasedValue t.stream t.stream.slot.blockLength :=
      fun h => hblock ((isBlockErased_iff hs).mpr h)
    refine ⟨t, .bool false, ?_, ⟨rfl, rfl, false, rfl, fun h => absurd h (by decide),
      fun h => absurd h (by decide), fun h => absurd (fun p hp => ?_) hall⟩, dev, g, x, hs⟩
    · simp only [step, isErased_false hs answers haligned hlength hall, Option.map_some]
    · -- the block lies in the range, because the range is one of whole blocks
      have hfits : t.stream.currentIndex + t.stream.slot.blockLength ≤ t.stream.slot.length := by
        obtain ⟨k, hk⟩ := hs.tables.blockLength_dvd
        have hdiv := Nat.div_add_mod t.stream.currentIndex t.stream.slot.blockLength
        have hlt := blockIndex_lt hs hindex
        rw [hk, Nat.mul_div_cancel_left _ hs.tables.blockLength_pos] at hlt
        have hle := Nat.mul_le_mul_left t.stream.slot.blockLength hlt
        rw [Nat.succ_eq_add_one, Nat.mul_add, Nat.mul_one] at hle
        omega
      rw [← erasedAt_eq hs hp]
      refine h p ?_
      rw [← take_rest hs hfits] at hp
      exact (List.take_subset_take_left _ hlength) hp

/-- **One call** -/
theorem step_spec (hsize : Addressable devices) (hs : Stands devices t.stream dev g x)
    {event : Event} (hproper : Proper devices t event) :
    ∃ t' r, step devices t event = some (t', r) ∧ Linear devices t event t' r ∧
      ∃ dev g x, Stands devices t'.stream dev g x := by
  cases event with
  | seek offset origin =>
    obtain ⟨hinside, houtside⟩ := seek_spec hsize hs hproper
    by_cases htarget : 0 ≤ t.stream.target devices offset origin ∧
        t.stream.target devices offset origin < total devices t.stream.usage
    · obtain ⟨s', heq, hmoved, hpos⟩ := hinside htarget.1 htarget.2
      refine ⟨⟨s', t.memory⟩, .bool true, ?_, ⟨hmoved.usage, rfl, ?_⟩, hmoved.stands⟩
      · simp only [step, heq, Option.map_some]
      · rw [if_pos htarget]
        exact ⟨rfl, hpos⟩
    · refine ⟨t, .bool false, ?_, ⟨rfl, rfl, ?_⟩, dev, g, x, hs⟩
      · simp only [step, houtside htarget, Option.map_some]
      · rw [if_neg htarget]
        exact ⟨rfl, rfl⟩
  | write data answers =>
    obtain ⟨s', n, ok, heq, hmoved, hpos, hn, hn', hok, hall⟩ := writeLoop_spec data.length t.stream
      t.memory data answers ⟨dev, g, x, hs⟩ (Nat.le_refl _) hproper
    exact ⟨⟨s', _⟩, .bool ok, by rw [step, Stream.write, heq]; rfl,
      ⟨hmoved.usage, n, ok, rfl, ⟨hpos, ⟨hn, hn'⟩, hok, hall⟩, rfl⟩, hmoved.stands⟩
  | readIntoBuffer length answers =>
    obtain ⟨r, n, ok, heq, hread, hn, hok, hall⟩ := readIntoBuffer_spec hs t.memory answers hproper
    refine ⟨⟨r.stream, t.memory⟩, .data r.buffer ok, ?_, ⟨hread.moved.usage, n, r.buffer, ok, rfl,
      ⟨hread.position, ⟨hn, hread.le⟩, hok, hall⟩, rfl, hread.buffer⟩, hread.moved.stands⟩
    simp only [step, heq, Option.map_some]
  | erase length answers =>
    obtain ⟨mem', ok, heq, herased⟩ := erase_spec hsize hs t.memory hproper.1 hproper.2
    refine ⟨⟨t.stream, mem'⟩, .bool ok, ?_, ⟨rfl, rfl, ok, rfl, herased⟩, dev, g, x, hs⟩
    simp only [step, heq, Option.map_some]
  | isErased length answers => exact isErased_spec hsize hs hproper

end Step

/-! ### Runs -/

/-- A device of three blocks: two of one usage, and one of another between them -/
def sectors : BlockRegionInfo where
  start := 0
  numBlocks := 3
  bytesPerBlock := 4
  blockRanges := [⟨0x30, 0, 0, by decide⟩, ⟨0x40, 1, 1, by decide⟩, ⟨0x30, 2, 2, by decide⟩]
  pos := by decide
  fits := by decide
  inside := by decide

end TinyClr.BlockStorage
