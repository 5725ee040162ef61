import TinyClr.Support.WireProtocol
import TinyClr.Library.Resync
import Mathlib.Tactic.Common

/-!
# The receiver, byte by byte

Out of bytes, a receiver either holds the beginning of a header or a header and the beginning of
its payload.  `Await` is that abstract state and `Await.bytes` what a sequence of bytes does to
it.  Every iteration of `Process` moves along this specification, so what a session makes visible
is a function of the bytes received and of nothing else.
-/

namespace TinyClr.WireProtocol

open TinyClr.Library TinyClr.Support

/-! ### The abstract receiver -/

/-- The beginning of a message, as far as its length allows to tell. -/
def synched (buf : List UInt8) : Bool := startsMarker buf buf.length

/-- What a receiver out of bytes waits for. -/
inductive Phase where
  | header (filled : List UInt8)
  | payload (header received : List UInt8)
deriving DecidableEq, Repr

/-- The phase and the next sequence number. -/
structure Await where
  phase : Phase
  lastOutboundMessage : UInt16
deriving DecidableEq, Repr

def finishPayload (app : Application) (lastOutboundMessage : UInt16) (header : List UInt8)
    (payload : Option (List UInt8)) : Await × List Event :=
  let p := Packet.ofBytes header
  if verifyPayload p payload then
    (⟨.header [], lastOutboundMessage + app.payloadSends p (payload.getD [])⟩,
      [.processPayload p (payload.getD [])])
  else
    (⟨.header [], lastOutboundMessage + 1⟩,
      [.reply (badPacket app lastOutboundMessage c_BadPayload)])

/-- The answer to a bad header, after `events`. -/
def refuseHeader (app : Application) (lastOutboundMessage : UInt16) (p : Packet)
    (events : List Event) : Await × List Event :=
  if p.flags &&& c_NonCritical = 0 then
    (⟨.header [], lastOutboundMessage + 1⟩,
      events ++ [.reply (badPacket app lastOutboundMessage c_BadHeader)])
  else (⟨.header [], lastOutboundMessage⟩, events)

def finishHeader (app : Application) (lastOutboundMessage : UInt16) (header : List UInt8) :
    Await × List Event :=
  let p := Packet.ofBytes header
  if verifyHeader header then
    let sent := lastOutboundMessage + app.headerSends p
    match app.processHeader p with
    | .reject => refuseHeader app sent p [.processHeader p]
    | .accept buffer =>
        if p.size ≠ 0 then
          (⟨if buffer then .payload header [] else .header [], sent⟩, [.processHeader p])
        else
          let finished := finishPayload app sent header (if buffer then some [] else none)
          (finished.1, .processHeader p :: finished.2)
  else refuseHeader app lastOutboundMessage p []

def Await.byte (app : Application) (a : Await) (b : UInt8) : Await × List Event :=
  match a.phase with
  | .header filled =>
      let filled := resync synched (filled ++ [b])
      if filled.length < headerSize then (⟨.header filled, a.lastOutboundMessage⟩, [])
      else finishHeader app a.lastOutboundMessage filled
  | .payload header received =>
      let received := received ++ [b]
      if received.length < (Packet.ofBytes header).size.toNat then
        (⟨.payload header received, a.lastOutboundMessage⟩, [])
      else finishPayload app a.lastOutboundMessage header (some received)

def Await.bytes (app : Application) (a : Await) : List UInt8 → Await × List Event
  | [] => (a, [])
  | b :: bs =>
      let next := a.byte app b
      let rest := Await.bytes app next.1 bs
      (rest.1, next.2 ++ rest.2)

theorem bytes_append (app : Application) (a : Await) (xs ys : List UInt8) :
    a.bytes app (xs ++ ys) =
      (((a.bytes app xs).1.bytes app ys).1,
        (a.bytes app xs).2 ++ ((a.bytes app xs).1.bytes app ys).2) := by
  induction xs generalizing a with
  | nil => rfl
  | cons b xs ih => simp [Await.bytes, ih]

/-! ### Chunks -/

theorem startsMarker_take (buf : List UInt8) (len : Nat) :
    startsMarker (buf.take len) len = startsMarker buf len := by
  have htake : (buf.take len).take (min len signatureSize) = buf.take (min len signatureSize) := by
    rw [List.take_take]
    congr 1
    omega
  rw [startsMarker, startsMarker, htake]

theorem startsMarker_eq_iff (buf : List UInt8) (len : Nat) :
    startsMarker buf len = true ↔
      buf.take (min len signatureSize) = MARKER_DEBUGGER_V1.take (min len signatureSize) ∨
        buf.take (min len signatureSize) = MARKER_PACKET_V1.take (min len signatureSize) := by
  simp only [startsMarker, Bool.or_eq_true, beq_iff_eq]

theorem synched_prefixClosed : PrefixClosed synched := by
  intro xs ys _ h
  rw [synched, startsMarker_eq_iff] at h ⊢
  have htake : ∀ marker : List UInt8,
      (xs ++ ys).take (min (xs ++ ys).length signatureSize) =
        marker.take (min (xs ++ ys).length signatureSize) →
      xs.take (min xs.length signatureSize) = marker.take (min xs.length signatureSize) := by
    intro marker heq
    have hcut := congrArg (List.take (min xs.length signatureSize)) heq
    rw [List.take_take, List.take_take, List.length_append,
      Nat.min_eq_left (by omega), List.take_append_of_le_length (by omega)] at hcut
    exact hcut
  exact h.imp (htake _) (htake _)

theorem synched_append {xs : List UInt8} (ys : List UInt8) (hlength : signatureSize ≤ xs.length)
    (h : synched xs = true) : synched (xs ++ ys) = true := by
  rw [synched, startsMarker_eq_iff] at h ⊢
  rw [Nat.min_eq_right hlength] at h
  rw [List.length_append, Nat.min_eq_right (by omega), List.take_append_of_le_length hlength]
  exact h

theorem bytes_header (app : Application) (seq : UInt16) (filled chunk : List UInt8)
    (hfilled : filled.length < headerSize) (hroom : filled.length + chunk.length ≤ headerSize)
    (hsynched : resync synched filled = filled) :
    (⟨.header filled, seq⟩ : Await).bytes app chunk =
      if (resync synched (filled ++ chunk)).length < headerSize then
        (⟨.header (resync synched (filled ++ chunk)), seq⟩, [])
      else finishHeader app seq (resync synched (filled ++ chunk)) := by
  induction chunk using List.reverseRecOn with
  | nil => rw [List.append_nil, hsynched, if_pos hfilled, Await.bytes]
  | append_singleton chunk b ih =>
    rw [List.length_append, List.length_singleton] at hroom
    have hlength := length_resync_le synched (filled ++ chunk)
    rw [List.length_append] at hlength
    rw [bytes_append, ih (by omega), if_pos (by omega)]
    simp only [Await.bytes, Await.byte, List.nil_append, List.append_nil]
    rw [resync_append synched synched_prefixClosed, List.append_assoc]

theorem bytes_payload (app : Application) (seq : UInt16) (header received chunk : List UInt8)
    (hreceived : received.length < (Packet.ofBytes header).size.toNat)
    (hroom : received.length + chunk.length ≤ (Packet.ofBytes header).size.toNat) :
    (⟨.payload header received, seq⟩ : Await).bytes app chunk =
      if (received ++ chunk).length < (Packet.ofBytes header).size.toNat then
        (⟨.payload header (received ++ chunk), seq⟩, [])
      else finishPayload app seq header (some (received ++ chunk)) := by
  induction chunk using List.reverseRecOn with
  | nil => rw [List.append_nil, if_pos hreceived, Await.bytes]
  | append_singleton chunk b ih =>
    rw [List.length_append, List.length_singleton] at hroom
    rw [bytes_append, ih (by omega), if_pos (by rw [List.length_append]; omega)]
    simp only [Await.bytes, Await.byte, List.nil_append, List.append_nil, List.append_assoc]

/-! ### The concrete receiver follows -/

structure HoldsHeader (r : Receiver) (filled : List UInt8) : Prop where
  length_eq : r.header.length = headerSize
  filled_lt : filled.length < headerSize
  synched_eq : resync synched filled = filled
  take_eq : r.header.take filled.length = filled
  payload_eq : r.payload = none
  pos_eq : r.pos = filled.length
  size_eq : r.size = headerSize - filled.length
  rxState_eq : r.rxState =
    if signatureSize ≤ filled.length then .readingHeader else .waitingForHeader

structure HoldsPayload (r : Receiver) (header received : List UInt8) : Prop where
  header_eq : r.header = header
  length_eq : header.length = headerSize
  payload_eq : r.payload = some received
  received_lt : received.length < (Packet.ofBytes header).size.toNat
  size_eq : r.size = (Packet.ofBytes header).size.toNat - received.length
  rxState_eq : r.rxState = .readingPayload

def Await.Matches (a : Await) (r : Receiver) : Prop :=
  r.lastOutboundMessage = a.lastOutboundMessage ∧
    match a.phase with
    | .header filled => HoldsHeader r filled
    | .payload header received => HoldsPayload r header received

/-- `n` iterations of `Process` lead from one receiver and line to others. -/
def Reaches (app : Application) (n : Nat) (r : Receiver) (line : Line) (events : List Event)
    (r' : Receiver) (line' : Line) : Prop :=
  ∀ fuel, process app (fuel + n) r line =
    (process app fuel r' line').map fun q => (q.1, q.2.1, events ++ q.2.2)

variable {app : Application} {r r₁ r₂ : Receiver} {line line₁ line₂ : Line}

theorem Reaches.trans {n m : Nat} {events₁ events₂ : List Event}
    (h₁ : Reaches app n r line events₁ r₁ line₁) (h₂ : Reaches app m r₁ line₁ events₂ r₂ line₂) :
    Reaches app (n + m) r line (events₁ ++ events₂) r₂ line₂ := by
  intro fuel
  rw [Nat.add_comm n, ← Nat.add_assoc, h₁, h₂, Option.map_map]
  congr 1
  funext q
  simp

theorem Reaches.silent (h : ∀ fuel, process app (fuel + 1) r line = process app fuel r₁ line₁) :
    Reaches app 1 r line [] r₁ line₁ := by
  intro fuel
  rw [h]
  simp

variable (app)

theorem reaches_initialize (hstate : r.rxState = .initializeReception)
    (hlength : r.header.length = headerSize) (line : Line) :
    ∃ r', Reaches app 1 r line [] r' line ∧
      (⟨.header [], r.lastOutboundMessage⟩ : Await).Matches r' := by
  refine ⟨{ r with payload := none, rxState := .waitingForHeader, pos := 0, size := headerSize },
    Reaches.silent fun fuel => ?_, rfl, ?_⟩
  · rw [process, hstate]
  · exact ⟨hlength, by decide, rfl, rfl, rfl, rfl, rfl, rfl⟩

theorem reaches_completePayload (hstate : r.rxState = .completePayload)
    (hlength : r.header.length = headerSize) (line : Line) :
    ∃ r', Reaches app 2 r line
        (finishPayload app r.lastOutboundMessage r.header r.payload).2 r' line ∧
      (finishPayload app r.lastOutboundMessage r.header r.payload).1.Matches r' := by
  have hiter : Reaches app 1 r line (completePayload app r).2 (completePayload app r).1 line := by
    intro fuel
    rw [process, hstate]
    simp only [Option.bind_eq_bind]
    cases process app fuel (completePayload app r).1 line <;> rfl
  have hnext : (completePayload app r).1.rxState = .initializeReception ∧
      (completePayload app r).1.header = r.header := by
    simp only [completePayload]
    split_ifs <;> exact ⟨rfl, rfl⟩
  obtain ⟨r', hinit, hmatch⟩ :=
    reaches_initialize app hnext.1 (by rw [hnext.2]; exact hlength) line
  refine ⟨r', ?_, ?_⟩
  · have hall := hiter.trans hinit
    rw [List.append_nil] at hall
    have hevents : (completePayload app r).2 =
        (finishPayload app r.lastOutboundMessage r.header r.payload).2 := by
      simp only [completePayload, finishPayload]
      split_ifs <;> rfl
    rwa [hevents] at hall
  · have hawait : (finishPayload app r.lastOutboundMessage r.header r.payload).1 =
        ⟨.header [], (completePayload app r).1.lastOutboundMessage⟩ := by
      simp only [completePayload, finishPayload]
      split_ifs <;> rfl
    rwa [hawait]

theorem reaches_header_iteration (hstate : r.rxState = .completeHeader) (line : Line) :
    Reaches app 1 r line (completeHeader app r).2 (completeHeader app r).1 line := by
  intro fuel
  rw [process, hstate]
  simp only [Option.bind_eq_bind]
  cases process app fuel (completeHeader app r).1 line <;> rfl

theorem reaches_badHeader (r : Receiver) (shown : List Event)
    (hlength : r.header.length = headerSize) (line : Line) :
    ∃ r', Reaches app 1 (badHeader app r shown).1 line [] r' line ∧
      (refuseHeader app r.lastOutboundMessage (Packet.ofBytes r.header) shown).1.Matches r' ∧
      (badHeader app r shown).2 =
        (refuseHeader app r.lastOutboundMessage (Packet.ofBytes r.header) shown).2 := by
  by_cases hcritical : (Packet.ofBytes r.header).flags &&& c_NonCritical = 0
  · simp only [badHeader, refuseHeader, if_pos hcritical]
    obtain ⟨r', hinit, hmatch⟩ := reaches_initialize app
      (r := { r with rxState := .initializeReception, lastOutboundMessage := r.lastOutboundMessage + 1 })
      rfl hlength line
    exact ⟨r', hinit, hmatch, trivial⟩
  · simp only [badHeader, refuseHeader, if_neg hcritical]
    obtain ⟨r', hinit, hmatch⟩ := reaches_initialize app
      (r := { r with rxState := .initializeReception }) rfl hlength line
    exact ⟨r', hinit, hmatch, trivial⟩

theorem reaches_completeHeader (hstate : r.rxState = .completeHeader)
    (hlength : r.header.length = headerSize) (line : Line) :
    ∃ n ≤ 3, ∃ r', Reaches app n r line
        (finishHeader app r.lastOutboundMessage r.header).2 r' line ∧
      (finishHeader app r.lastOutboundMessage r.header).1.Matches r' := by
  have hiter := reaches_header_iteration app hstate line
  by_cases hverify : verifyHeader r.header = true
  · cases hdecision : app.processHeader (Packet.ofBytes r.header) with
    | reject =>
      obtain ⟨r', hinit, hmatch, hevents⟩ := reaches_badHeader app
        { r with
          lastOutboundMessage :=
            r.lastOutboundMessage + app.headerSends (Packet.ofBytes r.header) }
        [.processHeader (Packet.ofBytes r.header)] hlength line
      refine ⟨2, by omega, r', ?_, ?_⟩
      · simp only [finishHeader, if_pos hverify, hdecision]
        simp only [completeHeader, if_pos hverify, hdecision] at hiter
        have hall := hiter.trans hinit
        rwa [List.append_nil, hevents] at hall
      · simpa only [finishHeader, if_pos hverify, hdecision] using hmatch
    | accept buffer =>
      simp only [completeHeader, if_pos hverify, hdecision] at hiter
      simp only [finishHeader, if_pos hverify, hdecision]
      by_cases hsize : (Packet.ofBytes r.header).size = 0
      · rw [if_neg (not_not_intro hsize)] at hiter ⊢
        obtain ⟨r', hcomplete, hmatch⟩ := reaches_completePayload app
          (r := { r with
            lastOutboundMessage :=
              r.lastOutboundMessage + app.headerSends (Packet.ofBytes r.header)
            payload := if buffer then some [] else none, rxState := .completePayload })
          rfl hlength line
        exact ⟨3, by omega, r', hiter.trans hcomplete, hmatch⟩
      · rw [if_pos hsize] at hiter ⊢
        cases buffer with
        | true =>
          have hpositive : 0 < (Packet.ofBytes r.header).size.toNat := by
            rw [Nat.pos_iff_ne_zero]
            exact fun h => hsize (UInt32.toNat_inj.mp h)
          exact ⟨1, by omega, _, hiter, rfl, rfl, hlength, rfl, hpositive, rfl, rfl⟩
        | false =>
          obtain ⟨r', hinit, hmatch⟩ := reaches_initialize app
            (r := { r with
              lastOutboundMessage :=
                r.lastOutboundMessage + app.headerSends (Packet.ofBytes r.header)
              rxState := .initializeReception }) rfl hlength line
          have hall := hiter.trans hinit
          rw [List.append_nil] at hall
          exact ⟨2, by omega, r', hall, hmatch⟩
  · obtain ⟨r', hinit, hmatch, hevents⟩ := reaches_badHeader app r [] hlength line
    refine ⟨2, by omega, r', ?_, ?_⟩
    · simp only [finishHeader, if_neg hverify]
      simp only [completeHeader, if_neg hverify] at hiter
      have hall := hiter.trans hinit
      rwa [List.append_nil, hevents] at hall
    · simpa only [finishHeader, if_neg hverify] using hmatch

/-! ### Storing a chunk -/

theorem storeHeader_length (chunk : List UInt8) (hlength : r.header.length = headerSize)
    (hroom : r.pos + chunk.length ≤ headerSize) :
    (r.storeHeader chunk).header.length = headerSize := by
  simp only [Receiver.storeHeader, List.length_append, List.length_take, List.length_drop]
  omega

variable {filled : List UInt8}

theorem storeHeader_take (chunk : List UInt8) (hpos : r.pos = filled.length)
    (htake : r.header.take filled.length = filled) :
    (r.storeHeader chunk).header.take (filled ++ chunk).length = filled ++ chunk := by
  simp only [Receiver.storeHeader, hpos, htake, List.take_left]

theorem synch_eq (len : Nat) (r : Receiver) (hlen : len ≤ headerSize)
    (hlength : r.header.length = headerSize) (hpos : r.pos = len)
    (hsize : r.size = headerSize - len) :
    ∃ header', synch len r =
        { r with header := header', pos := (resync synched (r.header.take len)).length,
                 size := headerSize - (resync synched (r.header.take len)).length } ∧
      header'.length = headerSize ∧
      header'.take (resync synched (r.header.take len)).length =
        resync synched (r.header.take len) := by
  induction len generalizing r with
  | zero =>
    refine ⟨r.header, ?_, hlength, rfl⟩
    cases r
    simp only at hpos hsize
    subst hpos hsize
    rfl
  | succ len ih =>
    have htake : (r.header.take (len + 1)).length = len + 1 := by
      rw [List.length_take]
      omega
    have hsynched : synched (r.header.take (len + 1)) = startsMarker r.header (len + 1) := by
      rw [synched, htake, startsMarker_take]
    rw [synch]
    by_cases hstarts : startsMarker r.header (len + 1) = true
    · rw [if_pos hstarts, resync_eq_self _ (hsynched.trans hstarts), htake]
      exact ⟨r.header, by rw [← hsize, ← hpos], hlength, rfl⟩
    · rw [if_neg hstarts]
      cases hheader : r.header with
      | nil =>
        rw [hheader] at hlength
        exact absurd hlength (by decide)
      | cons b rest =>
        rw [hheader] at hstarts hsynched hlength
        rw [List.length_cons] at hlength
        rw [List.take_succ_cons, resync, ← List.take_succ_cons,
          if_neg (by rw [hsynched]; exact hstarts)]
        have hcut : (((b :: rest).drop 1).take len ++ (b :: rest).drop len).take len =
            rest.take len := by
          rw [List.drop_one, List.tail_cons, List.take_left' (by rw [List.length_take]; omega)]
        have hnext := ih
          { r with
            header := ((b :: rest).drop 1).take len ++ (b :: rest).drop len
            pos := r.pos - 1, size := r.size + 1 } (by omega)
          (by
            simp only [List.length_append, List.length_take, List.length_drop, List.length_cons]
            omega)
          (by simp only; omega) (by simp only; omega)
        rw [hcut] at hnext
        exact hnext

/-! ### Receiving a chunk -/

theorem reaches_full (hstate : r.rxState = .readingHeader) (hlength : r.header.length = headerSize)
    (hsize : r.size = 0) (line : Line) :
    ∃ n ≤ 4, ∃ r', Reaches app n r line
        (finishHeader app r.lastOutboundMessage r.header).2 r' line ∧
      (finishHeader app r.lastOutboundMessage r.header).1.Matches r' := by
  have hiter : Reaches app 1 r line [] { r with rxState := .completeHeader } line := by
    refine Reaches.silent fun fuel => ?_
    rw [process, hstate, hsize]
    have hstore : r.storeHeader [] = r := by
      simp only [Receiver.storeHeader, List.append_nil, List.length_nil, Nat.add_zero,
        Nat.sub_zero, List.take_append_drop]
    simp only [receiveBytes, if_true, hstore, hsize]
  obtain ⟨n, hn, r', hcomplete, hmatch⟩ := reaches_completeHeader app
    (r := { r with rxState := .completeHeader }) rfl hlength line
  exact ⟨1 + n, by omega, r', hiter.trans hcomplete, hmatch⟩

theorem resync_resync (xs : List UInt8) :
    resync synched (resync synched xs) = resync synched xs := by
  rcases resync_accepted synched xs with h | h
  · rw [h]
    rfl
  · exact resync_eq_self synched h

variable {chunk : List UInt8}

theorem reaches_waitingForHeader (hholds : HoldsHeader r filled)
    (hshort : filled.length < signatureSize) (hchunk : chunk.length ≤ r.size)
    (hreceive : receiveBytes line r.size = (some chunk, line₁)) :
    ∃ n ≤ 5, ∃ r', Reaches app n r line
        ((⟨.header filled, r.lastOutboundMessage⟩ : Await).bytes app chunk).2 r' line₁ ∧
      ((⟨.header filled, r.lastOutboundMessage⟩ : Await).bytes app chunk).1.Matches r' := by
  have hstate := hholds.rxState_eq
  rw [if_neg (by omega)] at hstate
  have hpos := hholds.pos_eq
  have hsize := hholds.size_eq
  have hlt := hholds.filled_lt
  have hroom : filled.length + chunk.length ≤ headerSize := by omega
  have hlen : headerSize - (r.storeHeader chunk).size = (filled ++ chunk).length := by
    simp only [Receiver.storeHeader, List.length_append]
    omega
  obtain ⟨header', hsynch, hlength', htake'⟩ := synch_eq (filled ++ chunk).length
    (r.storeHeader chunk) (by rw [List.length_append]; omega)
    (storeHeader_length chunk hholds.length_eq (by omega))
    (by simp only [Receiver.storeHeader, List.length_append]; omega)
    (by simp only [Receiver.storeHeader, List.length_append]; omega)
  rw [storeHeader_take chunk hpos hholds.take_eq] at hsynch htake'
  have hkept := length_resync_le synched (filled ++ chunk)
  rw [List.length_append] at hkept
  rw [bytes_header app r.lastOutboundMessage filled chunk hlt hroom hholds.synched_eq]
  generalize hy : resync synched (filled ++ chunk) = y at *
  have hiter : Reaches app 1 r line []
      { r.storeHeader chunk with
        header := header', pos := y.length, size := headerSize - y.length
        rxState := if signatureSize ≤ y.length then .readingHeader else .waitingForHeader }
      line₁ := by
    refine Reaches.silent fun fuel => ?_
    rw [process, hstate]
    simp only [hreceive, hlen, hsynch]
    have hback : headerSize - (headerSize - y.length) = y.length := by omega
    rw [hback]
    split_ifs
    · rfl
    · simp only [Receiver.storeHeader, hstate]
  by_cases hfull : y.length < headerSize
  · rw [if_pos hfull]
    refine ⟨1, by omega, _, hiter, rfl, hlength', hfull, ?_, htake', hholds.payload_eq, rfl, rfl,
      rfl⟩
    rw [← hy]
    exact resync_resync _
  · rw [if_neg hfull]
    have hyfull : y.length = headerSize := by omega
    rw [hyfull, if_pos (by decide)] at hiter
    rw [hyfull, ← hlength', List.take_length] at htake'
    obtain ⟨n, hn, r', hreach, hmatch⟩ := reaches_full app
      (r := { r.storeHeader chunk with
        header := header', pos := headerSize, size := headerSize - headerSize
        rxState := .readingHeader }) rfl hlength' rfl line₁
    rw [← htake']
    exact ⟨1 + n, by omega, r', hiter.trans hreach, hmatch⟩

theorem reaches_readingHeader (hholds : HoldsHeader r filled)
    (hlong : signatureSize ≤ filled.length) (hchunk : chunk.length ≤ r.size)
    (hreceive : receiveBytes line r.size = (some chunk, line₁)) :
    ∃ n ≤ 5, ∃ r', Reaches app n r line
        ((⟨.header filled, r.lastOutboundMessage⟩ : Await).bytes app chunk).2 r' line₁ ∧
      ((⟨.header filled, r.lastOutboundMessage⟩ : Await).bytes app chunk).1.Matches r' := by
  have hstate := hholds.rxState_eq
  rw [if_pos hlong] at hstate
  have hpos := hholds.pos_eq
  have hsize := hholds.size_eq
  have hlt := hholds.filled_lt
  have hroom : filled.length + chunk.length ≤ headerSize := by omega
  have hstarts : synched filled = true := by
    rcases resync_accepted synched filled with h | h
    · rw [hholds.synched_eq] at h
      rw [h] at hlong
      exact absurd hlong (by decide)
    · rwa [hholds.synched_eq] at h
  have hkept : resync synched (filled ++ chunk) = filled ++ chunk :=
    resync_eq_self synched (synched_append chunk hlong hstarts)
  have hlength' := storeHeader_length chunk hholds.length_eq (by omega)
  have htake' := storeHeader_take chunk hpos hholds.take_eq
  have hsize' : (r.storeHeader chunk).size = headerSize - (filled ++ chunk).length := by
    simp only [Receiver.storeHeader, List.length_append]
    omega
  rw [bytes_header app r.lastOutboundMessage filled chunk hlt hroom hholds.synched_eq, hkept]
  by_cases hfull : (filled ++ chunk).length < headerSize
  · have hiter : Reaches app 1 r line [] (r.storeHeader chunk) line₁ := by
      refine Reaches.silent fun fuel => ?_
      rw [process, hstate]
      simp only [hreceive]
      rw [if_neg (by omega)]
    rw [if_pos hfull]
    refine ⟨1, by omega, _, hiter, rfl, hlength', hfull, hkept, htake', hholds.payload_eq, ?_,
      hsize', ?_⟩
    · simp only [Receiver.storeHeader, hpos, List.length_append]
    · rw [if_pos (by rw [List.length_append]; omega)]
      exact hstate
  · have hlen : (filled ++ chunk).length = headerSize := by
      rw [List.length_append] at hfull ⊢
      omega
    have hiter : Reaches app 1 r line []
        { r.storeHeader chunk with rxState := .completeHeader } line₁ := by
      refine Reaches.silent fun fuel => ?_
      rw [process, hstate]
      simp only [hreceive]
      rw [if_pos (by omega)]
    rw [hlen, ← hlength', List.take_length] at htake'
    obtain ⟨n, hn, r', hreach, hmatch⟩ := reaches_completeHeader app
      (r := { r.storeHeader chunk with rxState := .completeHeader }) rfl hlength' line₁
    rw [if_neg hfull, ← htake']
    exact ⟨1 + n, by omega, r', hiter.trans hreach, hmatch⟩

theorem reaches_readingPayload {header received : List UInt8}
    (hholds : HoldsPayload r header received) (htime : line.elapsed < c_PayloadTimeout)
    (hchunk : chunk.length ≤ r.size)
    (hreceive : receiveBytes line r.size = (some chunk, line₁)) :
    ∃ n ≤ 5, ∃ r', Reaches app n r line
        ((⟨.payload header received, r.lastOutboundMessage⟩ : Await).bytes app chunk).2 r' line₁ ∧
      ((⟨.payload header received, r.lastOutboundMessage⟩ : Await).bytes app chunk).1.Matches
        r' := by
  have hstate := hholds.rxState_eq
  have hsize := hholds.size_eq
  have hlt := hholds.received_lt
  have hsize' : (r.storePayload chunk).size =
      (Packet.ofBytes header).size.toNat - (received ++ chunk).length := by
    simp only [Receiver.storePayload, List.length_append]
    omega
  have hpayload' : (r.storePayload chunk).payload = some (received ++ chunk) := by
    simp only [Receiver.storePayload, hholds.payload_eq, Option.map_some]
  rw [bytes_payload app r.lastOutboundMessage header received chunk hlt (by omega)]
  by_cases hfull : (received ++ chunk).length < (Packet.ofBytes header).size.toNat
  · have hiter : Reaches app 1 r line [] (r.storePayload chunk) line₁ := by
      refine Reaches.silent fun fuel => ?_
      rw [process, hstate]
      simp only [htime, if_true, hreceive]
      rw [if_neg (by omega)]
    rw [if_pos hfull]
    exact ⟨1, by omega, _, hiter, rfl, hholds.header_eq, hholds.length_eq, hpayload', hfull, hsize',
      hstate⟩
  · have hiter : Reaches app 1 r line []
        { r.storePayload chunk with rxState := .completePayload } line₁ := by
      refine Reaches.silent fun fuel => ?_
      rw [process, hstate]
      simp only [htime, if_true, hreceive]
      rw [if_pos (by omega)]
    have hheader : (r.storePayload chunk).header = header := hholds.header_eq
    have hlength' : (r.storePayload chunk).header.length = headerSize := by
      rw [hheader, hholds.length_eq]
    obtain ⟨r', hreach, hmatch⟩ := reaches_completePayload app
      (r := { r.storePayload chunk with rxState := .completePayload }) rfl hlength' line₁
    rw [if_neg hfull, ← hheader, ← hpayload']
    exact ⟨3, by omega, r', hiter.trans hreach, hmatch⟩

theorem reaches_receive {a : Await} (hmatch : a.Matches r)
    (htime : line.elapsed < c_PayloadTimeout) (hchunk : chunk.length ≤ r.size)
    (hreceive : receiveBytes line r.size = (some chunk, line₁)) :
    ∃ n ≤ 5, ∃ r', Reaches app n r line (a.bytes app chunk).2 r' line₁ ∧
      (a.bytes app chunk).1.Matches r' := by
  obtain ⟨phase, seq⟩ := a
  obtain ⟨hseq, hholds⟩ := hmatch
  simp only at hseq hholds
  subst hseq
  cases phase with
  | header filled =>
    by_cases hshort : filled.length < signatureSize
    · exact reaches_waitingForHeader app hholds hshort hchunk hreceive
    · exact reaches_readingHeader app hholds (by omega) hchunk hreceive
  | payload header received => exact reaches_readingPayload app hholds htime hchunk hreceive

end TinyClr.WireProtocol
