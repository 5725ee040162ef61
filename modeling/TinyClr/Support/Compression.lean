import TinyClr.Library.MachineInt
import Mathlib.Logic.Function.Basic

/-!
# LZ77 compression

`LZ77_Compressor::Execute` and `LZ77_Decompress` (`Support/WireProtocol/Compression.cpp`).  The
compressor reads ahead into the ring of the last 4096 bytes that it searches for matches.

The pointers and sizes of the decompressor are natural numbers, and of `m_dataBytes` there are the
first `m_dataCount` bytes.  A loop has as many rounds as its first argument says, `none` if these
are not enough.
-/

namespace TinyClr.Compression

open TinyClr.Library

def WINSIZE : Nat := 4096

def MAXLEN : Nat := 18

/-! ### Codes -/

def LENGTH (x : UInt8) : Nat := (x.toNat &&& 0x0F) + 3

def OFFSET (x1 x2 : UInt8) : Nat :=
  (((((x2.toNat &&& 0xF0) >>> 4) * 0x0100 + x1.toNat) &&& 0x0FFF)) + 0x0010

def FAKE2REAL_POS (x : Nat) : Nat := x &&& (WINSIZE - 1)

def BITSET (byte : UInt8) (bit : Nat) : Bool := (byte.toNat &&& (1 <<< bit)) > 0

def COMP_CODE (x y : Nat) : Nat :=
  ((uint32 (x - 3) &&& 0x0F) <<< 8) + ((uint32 (y - 0x10) &&& 0x0F00) <<< 4) +
    (uint32 (y - 0x10) &&& 0x00FF)

def COMP_CODE_LOBYTE (x : Nat) : UInt8 := UInt8.ofNat x

def COMP_CODE_HIBYTE (x : Nat) : UInt8 := UInt8.ofNat ((uint16 x >>> 8) &&& 0xFF)

def DROP_INDEX (x : Nat) : Nat := if x = 0 then WINSIZE - 1 else x - 1

def ADD_INDEX (x : Nat) : Nat := if x + 1 = WINSIZE then 0 else x + 1

/-! ### Decompression -/

/-- The variables of `LZ77_Decompress`; `outBuf` is what has been written. -/
structure Decoder where
  inBuf : List UInt8
  outBuf : List UInt8
  window : Nat → UInt8
  currPos : Nat

def Decoder.read (d : Decoder) : Option (UInt8 × Decoder) :=
  match d.inBuf with
  | [] => none
  | byte :: inBuf => some (byte, { d with inBuf })

def Decoder.write (outSize : Nat) (d : Decoder) (byte : UInt8) : Option Decoder :=
  if d.outBuf.length < outSize then
    some { d with
      outBuf := d.outBuf ++ [byte]
      window := Function.update d.window (FAKE2REAL_POS d.currPos) byte
      currPos := d.currPos + 1 }
  else none

def Decoder.copy (outSize : Nat) : Nat → Nat → Decoder → Option Decoder
  | 0, _, d => some d
  | length + 1, offset, d => do
      let d ← d.write outSize (d.window (FAKE2REAL_POS offset))
      copy outSize length (offset + 1) d

def Decoder.item (outSize : Nat) (bitMap : UInt8) (counter : Nat) (d : Decoder) :
    Option Decoder := do
  if BITSET bitMap counter then
    let (byte1, d) ← d.read
    d.write outSize byte1
  else
    let (byte1, d) ← d.read
    let (byte2, d) ← d.read
    d.copy outSize (LENGTH byte2) (OFFSET byte1 byte2)

/-- `for(counter = 0; counter < 8 && outBuf < outBufEnd; counter++)`, with the rounds that are
    left -/
def Decoder.items (outSize : Nat) (bitMap : UInt8) : Nat → Decoder → Option Decoder
  | 0, d => some d
  | rounds + 1, d =>
      if d.outBuf.length < outSize then do
        let d ← d.item outSize bitMap (7 - rounds)
        items outSize bitMap rounds d
      else some d

/-- `while(inBuf < inBufEnd)`.  Each round reads a byte, so that there are no more of them than
    bytes. -/
def Decoder.loop (outSize : Nat) : Nat → Decoder → Option Decoder
  | 0, d => some d
  | rounds + 1, d =>
      match d.inBuf with
      | [] => some d
      | bitMap :: inBuf => do
          let d ← items outSize bitMap 8 { d with inBuf }
          loop outSize rounds d

/-- `LZ77_Decompress` without functions for the memory: what it has written when it returns 1, and
    `none` when it returns -1 -/
def LZ77_Decompress (inBuf : List UInt8) (outSize : Nat) : Option (List UInt8) :=
  (Decoder.loop outSize inBuf.length
    { inBuf, outBuf := [], window := fun _ => 0x20, currPos := 0 }).map fun d => d.outBuf

/-! ### Input of the compressor -/

/-- `m_window`, `m_currPos` and `m_infilePos` -/
structure Reader where
  window : Nat → UInt8
  currPos : Nat
  infilePos : Nat

/-- `GetNextChar`; `none` is `EOF`. -/
def Reader.getNextChar (infile : List UInt8) (r : Reader) : Option UInt8 × Reader :=
  match infile[r.infilePos]? with
  | none => (none, r)
  | some ch =>
      (some ch,
        { window := Function.update r.window (ADD_INDEX r.currPos) ch
          currPos := ADD_INDEX r.currPos
          infilePos := r.infilePos + 1 })

def Reader.unreadChar (r : Reader) (ch : UInt8) : Reader where
  window := Function.update r.window r.currPos ch
  currPos := DROP_INDEX r.currPos
  infilePos := r.infilePos - 1

def inBetween (lower higher target : Nat) : Bool :=
  let higher := if higher < lower then higher + WINSIZE else higher
  lower ≤ target ∧ target ≤ higher

/-! ### Output of the compressor -/

/-- `m_flagByte`, `m_dataBytes`, `m_flagCount` and `m_outfile` -/
structure Writer where
  flagByte : UInt8
  dataBytes : List UInt8
  flagCount : Nat
  outfile : List UInt8

def Writer.writeFlagByte (w : Writer) : Writer :=
  if w.flagCount > 0 then
    { flagByte := 0, dataBytes := [], flagCount := 0,
      outfile := w.outfile ++ w.flagByte :: w.dataBytes }
  else w

/-- `CheckFlagByte`, after the bytes have been put into `m_dataBytes` -/
def Writer.checkFlagByte (w : Writer) : Writer :=
  let w := { w with flagCount := w.flagCount + 1 }
  if w.flagCount = 8 then w.writeFlagByte else w

def Writer.saveUncompByte (w : Writer) (ch : UInt8) : Writer :=
  { w with
    flagByte := w.flagByte ||| UInt8.ofNat (1 <<< w.flagCount)
    dataBytes := w.dataBytes ++ [ch] }.checkFlagByte

/-- What `Execute` does with `iCompCode` -/
def Writer.saveCode (w : Writer) (count offset : Nat) : Writer :=
  let iCompCode := COMP_CODE count offset
  { w with
    dataBytes := w.dataBytes ++
      [COMP_CODE_LOBYTE iCompCode, COMP_CODE_HIBYTE iCompCode] }.checkFlagByte

/-! ### Matches -/

structure OldChars where
  c0 : UInt8
  c1 : UInt8
  c2 : UInt8

/-- The loop that looks for the character in the window, with `count` and `shifter` -/
def findChar (window : Nat → UInt8) (currPos : Nat) : Nat → Nat → Nat → Nat × Nat
  | 0, count, shifter => (count, shifter)
  | rounds + 1, count, shifter =>
      if window shifter ≠ window currPos ∧ count < WINSIZE then
        findChar window currPos rounds (count + 1) (DROP_INDEX shifter)
      else (count, shifter)

/-- The variables of `Execute` that matching a candidate changes -/
structure Match where
  reader : Reader
  ch : Option UInt8
  old : OldChars
  shifter : Nat
  count : Nat

/-- The loop that finds out how many characters match the first candidate -/
def extendMatch (infile : List UInt8) : Nat → Match → Option Match
  | 0, _ => none
  | rounds + 1, m =>
      let (ch, reader) := m.reader.getNextChar infile
      match ch with
      | none => some { m with reader, ch := none }
      | some ch =>
          if reader.window m.shifter = ch ∧ m.count < MAXLEN then
            let next := reader.window (ADD_INDEX reader.currPos)
            extendMatch infile rounds
              { reader
                ch := some ch
                old := { m.old with c1 := if m.count + 1 = 2 then next else m.old.c1, c2 := next }
                shifter := ADD_INDEX m.shifter
                count := m.count + 1 }
          else some { m with reader, ch := some ch }

/-- A further candidate reads on where the best match so far ends. -/
def Match.readOn (infile : List UInt8) (bestcount : Nat) (m : Match) : Match :=
  if m.count ≥ bestcount - 1 then
    let next := m.reader.window (ADD_INDEX m.reader.currPos)
    let (ch, reader) := m.reader.getNextChar infile
    { m with
      reader, ch, old := { m.old with c1 := if m.count = 1 then next else m.old.c1, c2 := next } }
  else m

/-- The loop that finds out how many characters match a further candidate -/
def compareMatch (infile : List UInt8) (bestcount : Nat) :
    Nat → Match → Nat → Option (Match × Nat)
  | 0, _, _ => none
  | rounds + 1, m, newPos =>
      if m.ch ≠ none ∧ m.reader.window m.shifter = m.reader.window newPos ∧ m.count < MAXLEN then
        let m := m.readOn infile bestcount
        compareMatch infile bestcount rounds
          { m with shifter := ADD_INDEX m.shifter, count := m.count + 1 } (ADD_INDEX newPos)
      else some (m, newPos)

/-- The loop that takes `shifter` to the next candidate -/
def findCandidate (window : Nat → UInt8) (currPos savePos : Nat) : Nat → Nat → Option Nat
  | 0, _ => none
  | rounds + 1, shifter =>
      if shifter ≠ currPos ∧ window shifter ≠ window savePos then
        findCandidate window currPos savePos rounds (DROP_INDEX shifter)
      else some shifter

/-- The variables of the search for the best match -/
structure Search where
  reader : Reader
  ch : Option UInt8
  old : OldChars
  shifter : Nat
  bestcount : Nat
  bestoffset : Nat

/-- The condition of the search loop -/
def Search.goesOn (savePos : Nat) (s : Search) : Bool :=
  s.shifter ≠ s.reader.currPos ∧ s.bestcount < MAXLEN ∧
    ¬ inBetween savePos s.reader.currPos s.shifter

/-- A round of the search loop, `none` in the inner option where it breaks -/
def Search.round (infile : List UInt8) (savePos : Nat) (s : Search) : Option (Option Search) := do
  let offset ← findCandidate s.reader.window s.reader.currPos savePos (WINSIZE + 1) s.shifter
  if offset = s.reader.currPos then some none
  else
    let (m, newPos) ← compareMatch infile s.bestcount (MAXLEN + 1)
      { reader := s.reader, ch := s.ch, old := s.old, shifter := offset, count := 0 } savePos
    let reader :=
      if m.ch ≠ none ∧ (m.count ≥ MAXLEN ∨
          (m.reader.window m.shifter ≠ m.reader.window newPos ∧ m.count ≥ s.bestcount)) then
        m.reader.unreadChar m.old.c2
      else m.reader
    some (some
      { reader
        ch := m.ch
        old := m.old
        shifter := DROP_INDEX offset
        bestcount := if m.count > s.bestcount then m.count else s.bestcount
        bestoffset := if m.count > s.bestcount then offset else s.bestoffset })

def Search.loop (infile : List UInt8) (savePos : Nat) : Nat → Search → Option Search
  | 0, _ => none
  | rounds + 1, s =>
      if s.goesOn savePos then do
        match ← s.round infile savePos with
        | none => some s
        | some s => loop infile savePos rounds s
      else some s

/-! ### `Execute` -/

structure Compressor where
  reader : Reader
  writer : Writer
  ch : Option UInt8

def Compressor.literal (infile : List UInt8) (c : Compressor) (ch : UInt8) : Compressor :=
  let (next, reader) := c.reader.getNextChar infile
  { reader, writer := c.writer.saveUncompByte ch, ch := next }

/-- The search state after the first candidate, which starts at `shifter` -/
def Compressor.beginSearch (infile : List UInt8) (c : Compressor) (shifter : Nat) :
    Option Search := do
  let next := c.reader.window (ADD_INDEX c.reader.currPos)
  let m ← extendMatch infile (MAXLEN + 1)
    { reader := c.reader
      ch := c.ch
      old := { c0 := next, c1 := 0, c2 := next }
      shifter := ADD_INDEX shifter
      count := 1 }
  let reader :=
    match m.ch with
    | none => m.reader
    | some ch =>
        if m.reader.window m.shifter ≠ ch ∨ m.count = MAXLEN then m.reader.unreadChar m.old.c2
        else m.reader
  some
    { reader
      ch := m.ch
      old := m.old
      shifter := DROP_INDEX shifter
      bestcount := m.count
      bestoffset := shifter }

/-- What is left of a round after the search -/
def Compressor.endSearch (infile : List UInt8) (c : Compressor) (savePos : Nat) (s : Search) :
    Compressor :=
  let (ch, reader) := if s.ch ≠ none then s.reader.getNextChar infile else (s.ch, s.reader)
  let count := s.bestcount
  let (reader, writer) :=
    if count < 3 then
      let next := ADD_INDEX savePos
      let window := Function.update reader.window next s.old.c0
      let currPos := DROP_INDEX reader.currPos
      let (window, currPos) :=
        if count = 2 then
          (Function.update window (ADD_INDEX next) s.old.c1, DROP_INDEX currPos)
        else (window, currPos)
      ({ window, currPos, infilePos := reader.infilePos - count : Reader },
        c.writer.saveUncompByte (reader.window savePos))
    else
      (if ch ≠ none then reader.unreadChar s.old.c2 else reader,
        c.writer.saveCode count s.bestoffset)
  let (ch, reader) :=
    if ch ≠ none ∧ count ≤ MAXLEN then reader.getNextChar infile else (ch, reader)
  { reader, writer, ch }

/-- A round of the main loop on the character `ch`, given how many rounds a search may take -/
def Compressor.round (infile : List UInt8) (rounds : Nat) (c : Compressor) (ch : UInt8) :
    Option Compressor :=
  if infile.length - c.reader.infilePos < 2 then some (c.literal infile ch)
  else
    let (count, shifter) := findChar c.reader.window c.reader.currPos WINSIZE 1
      (DROP_INDEX c.reader.currPos)
    if count = WINSIZE then some (c.literal infile ch)
    else do
      let s ← c.beginSearch infile shifter
      let s ← s.loop infile c.reader.currPos rounds
      some (c.endSearch infile c.reader.currPos s)

def Compressor.loop (infile : List UInt8) (searchRounds : Nat) :
    Nat → Compressor → Option Compressor
  | 0, _ => none
  | rounds + 1, c =>
      match c.ch with
      | none => some c
      | some ch => do
          let c ← c.round infile searchRounds ch
          loop infile searchRounds rounds c

def Compressor.start (infile : List UInt8) : Compressor :=
  let (ch, reader) := Reader.getNextChar infile
    { window := fun _ => 0x20, currPos := DROP_INDEX 0, infilePos := 0 }
  { reader, writer := { flagByte := 0, dataBytes := [], flagCount := 0, outfile := [] }, ch }

/-- `Execute`, with a bound on the rounds of its loops: what it puts into `m_outfile` -/
def execute (rounds : Nat) (infile : List UInt8) : Option (List UInt8) := do
  let c ← Compressor.loop infile rounds rounds (Compressor.start infile)
  some c.writer.writeFlagByte.outfile

end TinyClr.Compression
