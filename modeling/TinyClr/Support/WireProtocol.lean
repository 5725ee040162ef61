import TinyClr.Support.Crc

/-!
# The wire protocol

`WP_Message` and `WP_Controller` (`Support/WireProtocol/WireProtocol.cpp`), little-endian and
without the payload timer's clock: a delivery says how much time passed since the last one.

The header is the 32 bytes of `WP_Packet` in memory, `pos` the offset of `m_pos` in it.  A payload
buffer is the list of bytes received into it.  The application is three functions of the header
and the payload; it may send messages of its own, which move `m_lastOutboundMessage` on.
-/

namespace TinyClr.WireProtocol

open TinyClr.Library TinyClr.Support

/-! ### Packets -/

def MARKER_DEBUGGER_V1 : List UInt8 := [0x4D, 0x53, 0x64, 0x62, 0x67, 0x56, 0x31, 0]

def MARKER_PACKET_V1 : List UInt8 := [0x4D, 0x53, 0x70, 0x6B, 0x74, 0x56, 0x31, 0]

/-- `WP_Flags` -/
def c_NonCritical : UInt32 := 0x0001
def c_Reply : UInt32 := 0x0002
def c_BadHeader : UInt32 := 0x0004
def c_BadPayload : UInt32 := 0x0008
def c_NACK : UInt32 := 0x4000

def headerSize : Nat := 32

def signatureSize : Nat := 8

structure Packet where
  signature : List UInt8
  crcHeader : UInt32
  crcData : UInt32
  cmd : UInt32
  seq : UInt16
  seqReply : UInt16
  flags : UInt32
  size : UInt32
deriving DecidableEq, Repr

def bytes16 (x : UInt16) : List UInt8 := [x.toUInt8, (x >>> 8).toUInt8]

def bytes32 (x : UInt32) : List UInt8 :=
  [x.toUInt8, (x >>> 8).toUInt8, (x >>> 16).toUInt8, (x >>> 24).toUInt8]

def Packet.bytes (p : Packet) : List UInt8 :=
  p.signature ++ bytes32 p.crcHeader ++ bytes32 p.crcData ++ bytes32 p.cmd ++ bytes16 p.seq ++
    bytes16 p.seqReply ++ bytes32 p.flags ++ bytes32 p.size

def load16 (buf : List UInt8) (offset : Nat) : UInt16 :=
  (buf.getD offset 0).toUInt16 ||| ((buf.getD (offset + 1) 0).toUInt16 <<< 8)

def load32 (buf : List UInt8) (offset : Nat) : UInt32 :=
  (buf.getD offset 0).toUInt32 ||| ((buf.getD (offset + 1) 0).toUInt32 <<< 8) |||
    ((buf.getD (offset + 2) 0).toUInt32 <<< 16) ||| ((buf.getD (offset + 3) 0).toUInt32 <<< 24)

/-- `m_header`, read out of the bytes in memory. -/
def Packet.ofBytes (buf : List UInt8) : Packet :=
  { signature := buf.take 8, crcHeader := load32 buf 8, crcData := load32 buf 12,
    cmd := load32 buf 16, seq := load16 buf 20, seqReply := load16 buf 22,
    flags := load32 buf 24, size := load32 buf 28 }

/-! ### Sending -/

/-- `m_szMarker`, or `MARKER_PACKET_V1` where the controller has none.  Every controller of the
    repository is initialized with `MARKER_DEBUGGER_V1`. -/
inductive Marker where
  | none
  | debugger
deriving DecidableEq, Repr

def Marker.signature : Marker → List UInt8
  | .none => MARKER_PACKET_V1
  | .debugger => MARKER_DEBUGGER_V1

/-- The header CRC is computed over the header with its own field zero. -/
def Packet.seal (p : Packet) : Packet :=
  { p with crcHeader := computeCRC { p with crcHeader := 0 }.bytes headerSize 0 }

/-- `PrepareRequest( cmd, flags, payloadSize, payload )` with the controller's marker and next
    sequence number. -/
def prepareRequest (szMarker : Marker) (lastOutboundMessage : UInt16) (cmd flags : UInt32)
    (payloadSize : UInt32) (payload : List UInt8) : Packet :=
  { signature := szMarker.signature, crcHeader := 0,
    crcData := computeCRC payload payloadSize.toNat 0, cmd := cmd, seq := lastOutboundMessage,
    seqReply := 0, flags := flags, size := payloadSize : Packet }.seal

def prepareReply (szMarker : Marker) (lastOutboundMessage : UInt16) (req : Packet)
    (flags : UInt32) (payloadSize : UInt32) (payload : List UInt8) : Packet :=
  { signature := szMarker.signature, crcHeader := 0,
    crcData := computeCRC payload payloadSize.toNat 0, cmd := req.cmd, seq := lastOutboundMessage,
    seqReply := req.seq, flags := flags ||| c_Reply, size := payloadSize : Packet }.seal

/-! ### Receiving -/

/-- What `ProcessHeader` answers, and whether it left a buffer in `m_payload`. -/
inductive Decision where
  | reject
  | accept (buffer : Bool)
deriving DecidableEq, Repr

/-- `WP_ApplicationLayer`.  Beside its answer a handler may send messages. -/
structure Application where
  szMarker : Marker
  processHeader : Packet → Decision
  headerSends : Packet → UInt16
  payloadSends : Packet → List UInt8 → UInt16

/-- What a receiver makes the application or the line see. -/
inductive Event where
  | processHeader (p : Packet)
  | processPayload (p : Packet) (payload : List UInt8)
  | reply (p : Packet)
deriving DecidableEq, Repr

/-- `ReceiveState`, with `Initialize` under the name `initializeReception` -/
inductive ReceiveState where
  | idle
  | initializeReception
  | waitingForHeader
  | readingHeader
  | completeHeader
  | readingPayload
  | completePayload
deriving DecidableEq, Repr

/-- `WP_Message` as a receiver, with the controller's `m_lastOutboundMessage`. -/
structure Receiver where
  header : List UInt8
  payload : Option (List UInt8)
  pos : Nat
  size : Nat
  rxState : ReceiveState
  lastOutboundMessage : UInt16
deriving DecidableEq, Repr

/-- `Initialize` followed by `PrepareReception`, as `WP_Controller::Initialize` does. -/
def Receiver.prepareReception : Receiver :=
  { header := List.replicate headerSize 0, payload := none, pos := 0, size := 0,
    rxState := .initializeReception, lastOutboundMessage := 0 }

/-- One answer of the port: at most how many bytes it hands out, and the time since the last
    payload byte (`HAL_Time_TicksToTime( curTicks - m_payloadTicks )`). -/
structure Delivery where
  bytes : Nat
  elapsed : Nat

def c_PayloadTimeout : Nat := 60000000

/-- The line: the bytes still to come, and how the port will hand them out. -/
structure Line where
  stream : List UInt8
  deliveries : List Delivery

/-- The time the next look at the clock sees. -/
def Line.elapsed (line : Line) : Nat :=
  match line.deliveries with
  | [] => 0
  | delivery :: _ => delivery.elapsed

/-- `ReceiveBytes`: the bytes read, or `none` for `false`.  A call for no bytes is `true`, and a
    call that reads none is `false`. -/
def receiveBytes (line : Line) (size : Nat) : Option (List UInt8) × Line :=
  if size = 0 then (some [], line)
  else
    match line.deliveries with
    | [] => (none, line)
    | delivery :: deliveries =>
        let read := min delivery.bytes (min size line.stream.length)
        if read = 0 then (none, { line with deliveries := deliveries })
        else (some (line.stream.take read), ⟨line.stream.drop read, deliveries⟩)

/-- `memcmp( &m_header, marker, lenCmp ) == 0` for either marker. -/
def startsMarker (buf : List UInt8) (len : Nat) : Bool :=
  let lenCmp := min len signatureSize
  buf.take lenCmp == MARKER_DEBUGGER_V1.take lenCmp ||
    buf.take lenCmp == MARKER_PACKET_V1.take lenCmp

/-- "Synch to the start of a message": the loop with `len` bytes in the buffer. -/
def synch : Nat → Receiver → Receiver
  | 0, r => r
  | len + 1, r =>
      if startsMarker r.header (len + 1) then r
      else
        synch len { r with
          header := (r.header.drop 1).take len ++ r.header.drop len
          pos := r.pos - 1, size := r.size + 1 }

def Receiver.storeHeader (r : Receiver) (chunk : List UInt8) : Receiver :=
  { r with
    header := r.header.take r.pos ++ chunk ++ r.header.drop (r.pos + chunk.length)
    pos := r.pos + chunk.length, size := r.size - chunk.length }

def Receiver.storePayload (r : Receiver) (chunk : List UInt8) : Receiver :=
  { r with
    payload := r.payload.map (· ++ chunk), pos := r.pos + chunk.length,
    size := r.size - chunk.length }

/-- `VerifyHeader`: the CRC field is zeroed for the computation and restored. -/
def verifyHeader (buf : List UInt8) : Bool :=
  computeCRC (buf.take 8 ++ [0, 0, 0, 0] ++ buf.drop 12) headerSize 0 == load32 buf 8

def verifyPayload (p : Packet) : Option (List UInt8) → Bool
  | none => p.size = 0 && computeCRC [] p.size.toNat 0 == p.crcData
  | some payload => computeCRC payload p.size.toNat 0 == p.crcData

def badPacket (app : Application) (lastOutboundMessage : UInt16) (flags : UInt32) : Packet :=
  prepareRequest app.szMarker lastOutboundMessage 0 (c_NonCritical ||| c_NACK ||| flags) 0 []

/-- `fBadPacket`, after `events`. -/
def badHeader (app : Application) (r : Receiver) (events : List Event) : Receiver × List Event :=
  if (Packet.ofBytes r.header).flags &&& c_NonCritical = 0 then
    ({ r with rxState := .initializeReception, lastOutboundMessage := r.lastOutboundMessage + 1 },
      events ++ [.reply (badPacket app r.lastOutboundMessage c_BadHeader)])
  else ({ r with rxState := .initializeReception }, events)

def completeHeader (app : Application) (r : Receiver) : Receiver × List Event :=
  if verifyHeader r.header then
    let p := Packet.ofBytes r.header
    let r := { r with lastOutboundMessage := r.lastOutboundMessage + app.headerSends p }
    match app.processHeader p with
    | .reject => badHeader app r [.processHeader p]
    | .accept buffer =>
        if p.size ≠ 0 then
          if buffer then
            ({ r with payload := some [], rxState := .readingPayload, pos := 0,
                      size := p.size.toNat }, [.processHeader p])
          else ({ r with rxState := .initializeReception }, [.processHeader p])
        else
          ({ r with payload := if buffer then some [] else none, rxState := .completePayload },
            [.processHeader p])
  else badHeader app r []

def completePayload (app : Application) (r : Receiver) : Receiver × List Event :=
  let p := Packet.ofBytes r.header
  if verifyPayload p r.payload then
    let payload := r.payload.getD []
    ({ r with rxState := .initializeReception,
              lastOutboundMessage := r.lastOutboundMessage + app.payloadSends p payload },
      [.processPayload p payload])
  else
    ({ r with rxState := .initializeReception, lastOutboundMessage := r.lastOutboundMessage + 1 },
      [.reply (badPacket app r.lastOutboundMessage c_BadPayload)])

/-- `Process`: the loop runs until `ReceiveBytes` says `false`.  The first argument bounds the
    iterations. -/
def process (app : Application) :
    Nat → Receiver → Line → Option (Receiver × Line × List Event)
  | 0, _, _ => none
  | fuel + 1, r, line =>
      match r.rxState with
      | .idle => some (r, line, [])
      | .initializeReception =>
          process app fuel
            { r with payload := none, rxState := .waitingForHeader, pos := 0, size := headerSize } line
      | .waitingForHeader =>
          match receiveBytes line r.size with
          | (none, line) => some (r, line, [])
          | (some chunk, line) =>
              let r := r.storeHeader chunk
              let r := synch (headerSize - r.size) r
              process app fuel
                (if signatureSize ≤ headerSize - r.size then { r with rxState := .readingHeader }
                 else r) line
      | .readingHeader =>
          match receiveBytes line r.size with
          | (none, line) => some (r, line, [])
          | (some chunk, line) =>
              let r := r.storeHeader chunk
              process app fuel
                (if r.size = 0 then { r with rxState := .completeHeader } else r) line
      | .completeHeader => do
          let (r, events) := completeHeader app r
          let (r, line, rest) ← process app fuel r line
          some (r, line, events ++ rest)
      | .readingPayload =>
          if line.elapsed < c_PayloadTimeout then
            match receiveBytes line r.size with
            | (none, line) => some (r, line, [])
            | (some chunk, line) =>
                let r := r.storePayload chunk
                process app fuel
                  (if r.size = 0 then { r with rxState := .completePayload } else r) line
          else process app fuel { r with rxState := .initializeReception } line
      | .completePayload => do
          let (r, events) := completePayload app r
          let (r, line, rest) ← process app fuel r line
          some (r, line, events ++ rest)

/-- `AdvanceState`, called again and again. -/
def session (app : Application) (fuel : Nat) :
    Nat → Receiver → Line → Option (Receiver × Line × List Event)
  | 0, r, line => some (r, line, [])
  | calls + 1, r, line => do
      let (r, line, events) ← process app fuel r line
      let (r, line, rest) ← session app fuel calls r line
      some (r, line, events ++ rest)

end TinyClr.WireProtocol
