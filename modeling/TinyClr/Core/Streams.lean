import TinyClr.Core.HResult
import TinyClr.Library.MachineInt

/-!
# Memory streams

`CLR_RT_HeapBlock_MemoryStream` (`CLR/Core/Streams.cpp`) and the compressed integers of
`CLR_RT_BinaryFormatter` (`CLR/Core/Serialization/BinaryFormatter.cpp`).

A stream is a list of buffers; `m_current` is the position of a buffer in it, and the length of
the list stands for the list's tail.  What the allocator answers to the requests for buffers is a
list: NULL, or what is left in the memory of the payload.  Touching a buffer that is not there is a
fault, `none`.
-/

namespace TinyClr.Streams

open TinyClr.Library

/-! ### The stream -/

def c_PayloadSize : Nat := 32 * 12 - 4 - 4

/-- `Buffer`: `data` is the memory `m_data` points to when that is not the payload. -/
structure Buffer where
  data : Option (Nat → UInt8)
  length : Nat
  payload : Nat → UInt8

def Buffer.read (b : Buffer) (pos : Nat) : UInt8 := b.data.getD b.payload pos

structure MemoryStream where
  buffers : List Buffer
  current : Nat
  pos : Int
  avail : Nat

abbrev Allocator := List (Option (Nat → UInt8))

def MemoryStream.newBuffer (s : MemoryStream) : Allocator → MemoryStream × Allocator × Bool
  | [] => (s, [], false)
  | none :: heap => (s, heap, false)
  | some memory :: heap =>
      ({ buffers := s.buffers ++ [{ data := none, length := 0, payload := memory }]
         current := s.buffers.length
         pos := -1
         avail := 0 }, heap, true)

def createInstance (buf : Option (Nat → UInt8)) (len : Nat) (heap : Allocator) :
    HResultOr MemoryStream × Allocator :=
  match MemoryStream.newBuffer { buffers := [], current := 0, pos := -1, avail := 0 } heap with
  | (_, heap, false) => (.error .outOfMemory, heap)
  | (s, heap, true) =>
      match buf with
      | none => (.ok s, heap)
      | some _ =>
          (.ok { s with buffers := s.buffers.map fun b => { b with data := buf, length := len } },
            heap)

def MemoryStream.rewind (s : MemoryStream) : MemoryStream :=
  { s with current := 0, pos := -1, avail := 0 }

def MemoryStream.bitsAvailable (s : MemoryStream) : Int :=
  int32 (s.avail - 8 * s.pos - 8 + ((s.buffers.drop s.current).map fun b => (8 * b.length : Int)).sum)

def MemoryStream.bitsWritten (s : MemoryStream) : Int :=
  int32 (s.pos * 8 - s.avail + 8 + ((s.buffers.take s.current).map fun b => (8 * b.length : Int)).sum)

/-! ### Writing -/

/-- `while(m_avail == 0)` of `WriteBits`: a byte is begun.  The first argument bounds the
    iterations. -/
def beginByte : Nat → MemoryStream → Allocator → Option (HResult × MemoryStream × Allocator)
  | 0, _, _ => none
  | fuel + 1, s, heap =>
      if s.avail = 0 then
        let pos := s.pos + 1
        if pos < c_PayloadSize then do
          let b ← s.buffers[s.current]?
          let b := { b with
            length := b.length + 1
            payload := fun i => if (i : Int) = pos then 0 else b.payload i }
          some (.ok, { s with buffers := s.buffers.set s.current b, pos := pos, avail := 8 }, heap)
        else
          match MemoryStream.newBuffer { s with pos := pos } heap with
          | (s, heap, false) => some (.failed .outOfMemory, s, heap)
          | (s, heap, true) => beginByte fuel s heap
      else some (.ok, s, heap)

/-- `while(bits > 0)` of `WriteBits`.  At most one new buffer is begun for each byte. -/
def writeLoop : Nat → MemoryStream → Allocator → Nat → Nat → Nat →
    Option (HResult × MemoryStream × Allocator)
  | 0, _, _, _, _, _ => none
  | fuel + 1, s, heap, val, bits, pos =>
      if bits > 0 then do
        let (hr, s, heap) ← beginByte 2 s heap
        match hr with
        | .failed code => some (.failed code, s, heap)
        | .ok => do
            let insert := if bits < s.avail then bits else s.avail
            let mask := (1 <<< insert) - 1
            let pos := pos - insert
            let b ← s.buffers[s.current]?
            let value := UInt8.ofNat (((val >>> pos) &&& mask) <<< (s.avail - insert))
            let b := { b with
              payload := fun i => if (i : Int) = s.pos then b.payload i ||| value else b.payload i }
            writeLoop fuel
              { s with buffers := s.buffers.set s.current b, avail := s.avail - insert } heap val
              (bits - insert) pos
      else some (.ok, s, heap)

def writeBits32 (s : MemoryStream) (heap : Allocator) (val bits : Nat) :
    Option (HResult × MemoryStream × Allocator) :=
  writeLoop (bits + 1) s heap val bits bits

def writeBits64 (s : MemoryStream) (heap : Allocator) (res bits : Nat) :
    Option (HResult × MemoryStream × Allocator) :=
  if bits > 32 then do
    let (hr, s, heap) ← writeBits32 s heap (res >>> 32) (bits - 32)
    match hr with
    | .failed code => some (.failed code, s, heap)
    | .ok => writeBits32 s heap (res % 2 ^ 32) 32
  else writeBits32 s heap (res % 2 ^ 32) bits

def writeArray (s : MemoryStream) (heap : Allocator) :
    List UInt8 → Option (HResult × MemoryStream × Allocator)
  | [] => some (.ok, s, heap)
  | byte :: bytes => do
      let (hr, s, heap) ← writeBits32 s heap byte.toNat 8
      match hr with
      | .failed code => some (.failed code, s, heap)
      | .ok => writeArray s heap bytes

/-- What `WriteCompressedUnsigned` writes for a value, and in how many bits -/
def compress (val : UInt32) : HResultOr (Nat × Nat) :=
  if val = 0xFFFFFFFF then .ok (val.toNat, 8)
  else if val < 0x80 then .ok (val.toNat, 8)
  else if val < 0x3F00 then .ok ((val ||| 0x8000).toNat, 16)
  else if val < 0x3F000000 then .ok ((val ||| 0xC0000000).toNat, 32)
  else .error .outOfRange

def writeCompressedUnsigned (s : MemoryStream) (heap : Allocator) (val : UInt32) :
    Option (HResult × MemoryStream × Allocator) :=
  match compress val with
  | .error code => some (.failed code, s, heap)
  | .ok (val, bits) => writeBits32 s heap val bits

/-! ### Reading -/

/-- `while(m_pos >= m_current->m_length)` of `ReadBits` -/
def skipBuffers : Nat → MemoryStream → Option (HResult × MemoryStream)
  | 0, _ => none
  | fuel + 1, s => do
      let b ← s.buffers[s.current]?
      if s.pos ≥ b.length then
        let s := { s with current := s.current + 1 }
        if s.current = s.buffers.length then some (.failed .outOfRange, s)
        else skipBuffers fuel { s with pos := 0 }
      else some (.ok, s)

/-- `while(m_avail == 0)` of `ReadBits`; behind the first iteration there are bits. -/
def fetchByte (s : MemoryStream) : Option (HResult × MemoryStream) :=
  if s.avail = 0 then
    skipBuffers (s.buffers.length + 1) { s with pos := s.pos + 1, avail := 8 }
  else some (.ok, s)

/-- `while(bits > 0)` of `ReadBits`, with the value read so far -/
def readLoop : Nat → MemoryStream → Nat → Nat → Nat → Option (HResultOr Nat × MemoryStream)
  | 0, _, _, _, _ => none
  | fuel + 1, s, val, bits, pos =>
      if bits > 0 then do
        let (hr, s) ← fetchByte s
        match hr with
        | .failed code => some (.error code, s)
        | .ok => do
            let insert := if bits < s.avail then bits else s.avail
            let mask := (1 <<< insert) - 1
            let pos := pos - insert
            let b ← s.buffers[s.current]?
            let value := ((b.read s.pos.toNat).toNat >>> (s.avail - insert)) &&& mask
            readLoop fuel { s with avail := s.avail - insert } (val ||| (value <<< pos))
              (bits - insert) pos
      else some (.ok val, s)

def readBits32 (s : MemoryStream) (bits : Nat) : Option (HResultOr Nat × MemoryStream) :=
  readLoop (bits + 1) s 0 bits bits

def readBits64 (s : MemoryStream) (bits : Nat) : Option (HResultOr Nat × MemoryStream) :=
  if bits > 32 then do
    let (high, s) ← readBits32 s (bits - 32)
    match high with
    | .error code => some (.error code, s)
    | .ok high => do
        let (low, s) ← readBits32 s 32
        some (low.map fun low => high <<< 32 ||| low, s)
  else readBits32 s bits

def readArray (s : MemoryStream) : Nat → Option (HResultOr (List UInt8) × MemoryStream)
  | 0 => some (.ok [], s)
  | bytes + 1 => do
      let (data, s) ← readBits32 s 8
      match data with
      | .error code => some (.error code, s)
      | .ok data => do
          let (rest, s) ← readArray s bytes
          some (rest.map fun rest => UInt8.ofNat data :: rest, s)

def readCompressedUnsigned (s : MemoryStream) : Option (HResultOr Nat × MemoryStream) := do
  let (val, s) ← readBits32 s 8
  match val with
  | .error code => some (.error code, s)
  | .ok val =>
      if val = 0xFF then some (.ok 0xFFFFFFFF, s)
      else
        let bits :=
          if val &&& 0xC0 = 0x80 then 8 else if val &&& 0xC0 = 0xC0 then 24 else 0
        if bits ≠ 0 then do
          let (extra, s) ← readBits32 s bits
          some (extra.map fun extra => (val &&& 0xFFFFFF3F) <<< bits ||| extra, s)
        else some (.ok val, s)

end TinyClr.Streams
